import MessageStore.Proofs.ClosingRuns
import MessageStore.Proofs.CoordinatorFifo
import MessageStore.Proofs.DeliveryOutcomes

/-!
# Closing is safe

However the steps of threads that persist and close are interleaved, over any
table: closing the writer is the last that is asked of it; what was pushed
before the closed flag was on is written, never refused; what is refused has
no entry; and the first close alone tells what became of the last flush and of
the table.
-/

namespace MessageStore

/-! ## The writer for a table -/

section Writer

variable {σ : Type}

/-- A delivery at any moment, of any batch. -/
def Delivery.IsRegular (kind : TableKind) (delivery : Delivery σ) : Prop :=
  ∃ (requests : List Request) (chronicle : Chronicle σ kind.Entry),
    chronicle.delivery = delivery ∧ chronicle.Regular kind.shape requests

theorem Shape.verdict_ne_closed {kind : TableKind} (request : Request)
    (entries : List kind.Entry) :
    kind.shape.verdict request entries ≠ .error .closed := by
  intro hverdict
  unfold verdict at hverdict
  split at hverdict
  next => contradiction
  next error hdraft =>
    cases hverdict
    obtain ⟨reason, hreason⟩ :=
      TableKind.onEmpty_error ((draft_eq_error_iff _ _ _).mp hdraft).2
    contradiction

theorem Delivery.owner_lt {E : Type} {table : Table σ E} {shape : Shape E}
    {delivery : Delivery σ} {handed : HandedEntry E}
    (hact : delivery.act table shape = some (.take handed)) :
    handed.owner < delivery.requests.length := by
  unfold act at hact
  split at hact
  next =>
    split at hact
    next => contradiction
    next => cases hact
  next =>
    split at hact
    next => cases hact
    next pending rest hahead =>
      split at hact
      next =>
        cases hact
        rw [Chronicle.requests_length, hahead, List.length_cons]
        change delivery.cursor < _
        omega
      next => contradiction
  next => contradiction

theorem TableWriter.behaviour_spares (kind : TableKind) (table : Table σ kind.Entry) :
    (behaviour table kind.shape).Spares (Delivery.act table kind.shape)
      (Delivery.IsRegular kind) where
  start writer requests :=
    ⟨requests, writer.chronicle (requests.map Pending.fresh), rfl,
      Chronicle.Regular.start kind.shape writer requests⟩
  step := by
    rintro _ ⟨requests, chronicle, rfl, hregular⟩
    exact ⟨requests, chronicle.step table kind.shape,
      Chronicle.step_delivery table kind.shape chronicle,
      hregular.move kind.shape_lawful
        (Chronicle.step_move table kind.shape chronicle)⟩
  outcome_ne := by
    rintro _ ⟨requests, chronicle, rfl, hregular⟩ pending hmem hclosed
    obtain ⟨place, hget⟩ := List.getElem?_of_mem hmem
    have hlt : place < requests.length := by
      rw [← hregular.length_eq]
      exact (List.getElem?_eq_some_iff.mp hget).1
    rcases hregular.stance (List.getElem?_eq_getElem hlt) hget with
      hdone | ⟨hnone, _⟩
    · have hfate := hdone.fate hclosed
      generalize htold : (Except.error .closed : Outcome) = outcome at hfate
      cases hfate with
      | stored => exact Shape.verdict_ne_closed _ _ htold.symm
      | failed | givenUp => simp at htold
    · rw [hnone] at hclosed
      contradiction
  owner_lt := by
    rintro delivery handed _ hact
    exact Delivery.owner_lt hact

end Writer

/-! ## The table -/

section History

variable {σ E : Type} (table : Table σ E) (shape : Shape E)

/-- The table as the writer has left it so far. -/
def Coordinator.tableState (coordinator : Coordinator (TableWriter σ) (Delivery σ)) :
    σ :=
  match coordinator.flight with
  | .resting writer _ => writer.table
  | .writing delivery => delivery.table

/-- What an event makes of the table. -/
def Event.apply (state : σ) (event : Event E) : σ :=
  match event.deed with
  | .work _ (some (.take handed)) => table.take state handed.entry
  | .work _ (some (.finish _)) => (table.finish state).2
  | .shut _ => (table.close state).2
  | _ => state

variable {table shape}

theorem Thread.Move.tableState_eq
    {coordinator later : Coordinator (TableWriter σ) (Delivery σ)}
    {thread next : Thread}
    (hmove : Thread.Move (TableWriter.behaviour table shape) coordinator thread
      later next) (index number : Nat) :
    later.tableState =
      (noted index number (thread.deed? (TableWriter.behaviour table shape)
        (Delivery.act table shape) coordinator)).foldl (Event.apply table)
          coordinator.tableState := by
  cases hmove with
  | call hactivity | callClose hactivity | refuse hactivity | accept hactivity
  | push hactivity | see hactivity | miss hactivity | lose hactivity
  | count hactivity | popEnd hactivity | rejectEnd hactivity | landEnd hactivity
  | release hactivity | forbid hactivity | leave hactivity =>
      rw [deed?, hactivity]
      rfl
  | claimLate hactivity hflag | claim hactivity hflag =>
      rw [deed?, hactivity, hflag]
      rfl
  | win hactivity hwhy =>
      rcases hwhy with ⟨own, rfl, _⟩ | ⟨rfl, _⟩ <;>
      · rw [deed?, hactivity]
        rfl
  | stay hstays =>
      rw [deed?_of_stays hstays]
      rfl
  | pop hactivity =>
      rw [deed?, hactivity]
      rcases coordinator.pop_cases with hpop | ⟨_, _, _, _, -, hflight, hpop⟩
      · rw [hpop]
        rfl
      · simp [hpop, Coordinator.tableState, hflight, noted]
  | reject hactivity | land hactivity =>
      rw [deed?, hactivity]
      rcases coordinator.land_cases _ with hland | ⟨_, _, _, hflight, hland⟩
      · rw [hland]
        rfl
      · simp [hland, Coordinator.tableState, hflight, noted]
  | decideNothing hactivity hflight =>
      rw [deed?_of_unwritten hactivity hflight (Or.inl rfl)]
      rfl
  | decideReject hactivity hflight hrequests hsealed =>
      rw [deed?_of_unwritten hactivity hflight (Or.inr hsealed)]
      rfl
  | decideWrite hactivity hflight hrequests hsealed =>
      rw [deed?_of_batch hactivity hflight hrequests hsealed,
        Coordinator.tableState, Coordinator.tableState, hflight]
      rfl
  | @write ticket work hactivity hflight hresult =>
      have hbefore : coordinator.tableState = work.table := by
        rw [Coordinator.tableState, hflight]
      have hstep := Delivery.step_table table shape work
      rw [deed?_of_work hactivity hflight hresult, hbefore]
      change (work.step table shape).table = _
      rw [hstep]
      cases work.act table shape with
      | none => rfl
      | some act => cases act <;> rfl
  | @written ticket work state result hactivity hflight hresult =>
      have hbefore : coordinator.tableState = work.table := by
        rw [Coordinator.tableState, hflight]
      rw [deed?_of_wrote hactivity hflight hresult, hbefore]
      simp only [TableWriter.behaviour] at hresult
      split at hresult
      next =>
        simp only [Option.some.injEq, Prod.mk.injEq] at hresult
        obtain ⟨_, rfl⟩ := hresult
        rfl
      next => contradiction
  | @close flushed state requests hactivity hflight =>
      have hbefore : coordinator.tableState = state.table := by
        rw [Coordinator.tableState, hflight]
      rw [deed?_of_shut hactivity hflight, hbefore]
      rfl

theorem Ensemble.tableState_run (start : Ensemble (TableWriter σ) (Delivery σ))
    (schedule : List Nat) :
    (start.run (TableWriter.behaviour table shape)
        schedule).coordinator.tableState =
      (start.events (TableWriter.behaviour table shape)
        (Delivery.act table shape) schedule).foldl (Event.apply table)
          start.coordinator.tableState := by
  have hstep : ∀ (log : List (Event E))
      (ensemble : Ensemble (TableWriter σ) (Delivery σ)) (index : Nat),
      ensemble.coordinator.tableState =
          log.foldl (Event.apply table) start.coordinator.tableState →
        (ensemble.step (TableWriter.behaviour table shape)
            index).coordinator.tableState =
          (log ++ (ensemble.event? (TableWriter.behaviour table shape)
            (Delivery.act table shape) index).toList).foldl (Event.apply table)
              start.coordinator.tableState := by
    intro log ensemble index hlog
    rcases ensemble.step_cases (TableWriter.behaviour table shape) index with
      ⟨hnone, hsame⟩ | ⟨thread, later, next, hthread, hmove, hnext⟩
    · have hevent : ensemble.event? (TableWriter.behaviour table shape)
          (Delivery.act table shape) index = none := by
        rw [event?, hnone]
      rw [hsame, hevent, Option.toList_none, List.append_nil]
      exact hlog
    · rw [hnext, event?_toList _ _ hthread, List.foldl_append, ← hlog]
      exact hmove.tableState_eq index thread.returns.length
  exact trace_induction (TableWriter.behaviour table shape) hstep rfl schedule

end History

/-! ## Safety -/

namespace Ensemble

section Safety

variable {ω μ E : Type}

/-- What a record and the ensemble after it promise about closing. -/
structure ClosesSafely (writer : RequestWriter ω μ)
    (act : μ → Option (TableAct E)) (log : List (Event E))
    (ensemble : Ensemble ω μ) : Prop where
  /-- The tickets are those of the pushes, in order. -/
  tickets_eq : tickets (log.map Event.deed) =
    List.range (ensemble.coordinator.nextTicket writer)
  /-- Nothing is asked of the writer after it was closed, not even to close. -/
  shut_last : log.Pairwise fun earlier later => earlier.deed.isShut = true →
    later.deed.usesWriter = false
  /-- The writer is closed by the only thread with the election. -/
  shut_elected : ∀ (index : Nat) (event : Event E),
    ensemble.event? writer act index = some event → event.deed.isShut = true →
      ensemble.Elected (some index)
  /-- What was pushed before the closed flag was on is settled in the call that
  had the writer write it. -/
  early_written : ∀ ticket ∈ early log, ∀ (index : Nat) (outcome : Outcome),
    ensemble.Completes writer index ticket outcome →
      outcome ≠ .error .closed ∧ ∃ event ∈ log, event.thread = index ∧
        event.number = (ensemble.returns index).length ∧ event.Covers ticket
  early_not_closed : ∀ ticket ∈ early log,
    ensemble.coordinator.outcome? writer ticket ≠ some (.error .closed)
  /-- What was refused has no entry. -/
  closed_no_entry : ∀ ticket : Nat,
    ensemble.coordinator.outcome? writer ticket = some (.error .closed) →
      ∀ event ∈ log, ¬event.EntryOf ticket
  /-- A persist that returns that the writer is closed has made no entry,
  whether it has pushed or not. -/
  refused_no_entry : ∀ thread number : Nat,
    (ensemble.returns thread)[number]? = some (.persisted (.error .closed)) →
      ∀ ticket ∈ tickets (deedsOf thread number log), ∀ event ∈ log,
        ¬event.EntryOf ticket
  /-- Only one close turns the closed flag on, and no persist finds it off
  after that. -/
  claim_once : log.Pairwise fun earlier later => earlier.deed = .claim true →
    later.deed ≠ .claim true ∧ later.deed ≠ .check false
  /-- A persist that looks at the closed flag after that returns at once. -/
  late_persist : Claimed log → ∀ (index : Nat) (thread : Thread)
    (request : Request), ensemble.threads[index]? = some thread →
      thread.activity = .checking request →
        deedsOf index thread.returns.length log = [] ∧
          ensemble.step writer index =
            ⟨ensemble.coordinator, ensemble.threads.setIfInBounds index
              (thread.return_ (.persisted (.error .closed)))⟩
  /-- Every close after that changes nothing. -/
  late_close : Claimed log → ∀ (index : Nat) (thread : Thread),
    ensemble.threads[index]? = some thread → thread.activity = .claiming →
      deedsOf index thread.returns.length log = [] ∧
        ensemble.step writer index =
          ⟨ensemble.coordinator, ensemble.threads.setIfInBounds index
            (thread.return_ (.closed (.ok ())))⟩
  /-- The first close tells what its flush and the closing of the writer came
  to; the others have done nothing. -/
  close_result : ∀ (thread number : Nat) (result : Except WriteError Unit),
    (ensemble.returns thread)[number]? = some (.closed result) →
      (deedsOf thread number log = [.claim false] ∧ result = .ok ()) ∨
        ClosedWith (deedsOf thread number log) result

variable {writer : RequestWriter ω μ} {act : μ → Option (TableAct E)}
  {valid honest : μ → Prop} {log : List (Event E)} {ensemble : Ensemble ω μ}

namespace Guarded

theorem returned (hguarded : Guarded writer valid honest log ensemble)
    {index number : Nat} {value : Return}
    (hvalue : (ensemble.returns index)[number]? = some value) :
    Returned writer ensemble.coordinator (deedsOf index number log) value := by
  unfold returns at hvalue
  split at hvalue
  next => simp at hvalue
  next thread hthread =>
    exact (hguarded.recorded index thread hthread).returned number value hvalue

theorem late_persist (hguarded : Guarded writer valid honest log ensemble)
    (hclaimed : Claimed log) {index : Nat} {thread : Thread} {request : Request}
    (hthread : ensemble.threads[index]? = some thread)
    (hactivity : thread.activity = .checking request) :
    deedsOf index thread.returns.length log = [] ∧
      ensemble.step writer index =
        ⟨ensemble.coordinator, ensemble.threads.setIfInBounds index
          (thread.return_ (.persisted (.error .closed)))⟩ := by
  obtain ⟨closer, hclosed⟩ := hguarded.closed
  have hdid := (hguarded.recorded index thread hthread).did
  rw [hactivity] at hdid
  refine ⟨hdid, ?_⟩
  simp [Ensemble.step, hthread, Thread.step, hactivity, hclosed.closed_iff.mpr hclaimed]

theorem late_close (hguarded : Guarded writer valid honest log ensemble)
    (hclaimed : Claimed log) {index : Nat} {thread : Thread}
    (hthread : ensemble.threads[index]? = some thread)
    (hactivity : thread.activity = .claiming) :
    deedsOf index thread.returns.length log = [] ∧
      ensemble.step writer index =
        ⟨ensemble.coordinator, ensemble.threads.setIfInBounds index
          (thread.return_ (.closed (.ok ())))⟩ := by
  obtain ⟨closer, hclosed⟩ := hguarded.closed
  have hdid := (hguarded.recorded index thread hthread).did
  rw [hactivity] at hdid
  refine ⟨hdid, ?_⟩
  simp [Ensemble.step, hthread, Thread.step, hactivity, hclosed.closed_iff.mpr hclaimed]

theorem not_entryOf (hspares : writer.Spares act honest)
    (hguarded : Guarded writer valid honest log ensemble) {ticket : Nat}
    (hclosed : ensemble.coordinator.outcome? writer ticket =
      some (.error .closed)) {event : Event E} (hmem : event ∈ log) :
    ¬event.EntryOf ticket := by
  intro hentry
  apply (hguarded.of_closed hspares hclosed).1
  exact hguarded.accounted.entries event hmem ticket hentry

theorem closesSafely (hkeeps : writer.Keeps valid)
    (hspares : writer.Spares act honest)
    (hguarded : Guarded writer valid honest log ensemble) :
    ClosesSafely writer act log ensemble := by
  obtain ⟨closer, hclosed⟩ := hguarded.closed
  refine
    { tickets_eq := hguarded.accounted.tickets_eq
      shut_last := hclosed.after_shut
      shut_elected := fun _ _ => hguarded.elected_of_isShut
      early_written := ?_
      early_not_closed := fun _ hearly hrefused =>
        (hguarded.of_closed hspares hrefused).2 hearly
      closed_no_entry := fun _ hrefused _ => hguarded.not_entryOf hspares hrefused
      refused_no_entry := ?_
      claim_once := hclosed.after_claim
      late_persist := fun hclaimed _ _ _ => hguarded.late_persist hclaimed
      late_close := fun hclaimed _ _ => hguarded.late_close hclaimed
      close_result := fun _ _ _ => hguarded.returned }
  · intro ticket hearly index outcome hcompletes
    refine ⟨?_, hguarded.of_completes hkeeps hearly hcompletes⟩
    rintro rfl
    have hlater := hguarded.step hkeeps hspares log ensemble index
    exact (hlater.of_closed hspares hcompletes.2).2
      (mem_early_append_of_mem hearly _)
  · intro thread number hreturned ticket hmem
    rcases hguarded.returned hreturned with
      ⟨hdeeds, _⟩ | ⟨own, htickets, hrefused⟩
    · rw [hdeeds] at hmem
      contradiction
    · rw [htickets, List.mem_singleton] at hmem
      subst hmem
      exact fun _ => hguarded.not_entryOf hspares hrefused

end Guarded

end Safety

/-- However the calls of any number of threads are interleaved, over whatever
table, the ensemble closes safely; and the table is what the recorded events
make of it, so the record misses no entry and no use of the table. -/
theorem calling_closes_safely (kind : TableKind) {σ : Type}
    (table : Table σ kind.Entry) (writer : TableWriter σ)
    (plans : List (List Call)) (schedule : List Nat) :
    let behaviour := TableWriter.behaviour table kind.shape
    let act := Delivery.act table kind.shape
    let start : Ensemble (TableWriter σ) (Delivery σ) := calling writer plans
    let log := start.events behaviour act schedule
    let final := start.run behaviour schedule
    ClosesSafely behaviour act log final ∧
      final.coordinator.tableState =
        log.foldl (Event.apply table) writer.table := by
  intro behaviour act start log final
  have hguarded : Guarded behaviour _ _ log final :=
    Guarded.run (TableWriter.behaviour_keeps table kind.shape)
      (TableWriter.behaviour_spares kind table) writer plans schedule
  constructor
  · exact hguarded.closesSafely (TableWriter.behaviour_keeps table kind.shape)
      (TableWriter.behaviour_spares kind table)
  · exact tableState_run start schedule

/-- One thread persists, another closes. -/
def persistAndClose : Ensemble (TableWriter (MemoryTable MessageEntry))
    (Delivery (MemoryTable MessageEntry)) :=
  calling { table := {}, clock := .counting 5 }
    [[.persist (.ofTexts ⟨"space", "a"⟩ ["x"])], [.close]]

/-- The close runs from beginning to end between the look of the persist at the
closed flag and its push. -/
def overtaking : List Nat :=
  [0, 0] ++ List.replicate 9 1 ++ List.replicate 12 0

/-- A persist that a close overtakes is refused and leaves no entry, and the
close tells what its flush and the closing of the table came to. -/
theorem overtaken_persist_is_refused :
    let behaviour := TableWriter.behaviour MemoryTable.behaviour Shape.message
    let log := persistAndClose.events behaviour
      (Delivery.act MemoryTable.behaviour Shape.message) overtaking
    let final := persistAndClose.run behaviour overtaking
    (final.returns 0).map Return.outcome? = [some (.error .closed)] ∧
      (∀ event ∈ log, ¬event.EntryOf 0) ∧
      (final.returns 1).map Return.closing? = [some (.ok ())] ∧
      ClosedWith (deedsOf 1 0 log) (.ok ()) := by
  intro behaviour log final
  obtain ⟨hsafe, -⟩ := calling_closes_safely .message MemoryTable.behaviour
    { table := {}, clock := .counting 5 }
    [[.persist (.ofTexts ⟨"space", "a"⟩ ["x"])], [.close]] overtaking
  have hrefused : final.coordinator.outcome? behaviour 0 = some (.error .closed) := by
    decide +kernel
  have hdeeds : (deedsOf 1 0 log).length = 2 := by decide +kernel
  have hclosing : (final.returns 1).map Return.closing? = [some (.ok ())] := by
    decide +kernel
  obtain ⟨value, hreturns, hvalue⟩ := List.map_eq_singleton_iff.mp hclosing
  have hclosed : (final.returns 1)[0]? = some (.closed (.ok ())) := by
    cases value with
    | persisted outcome => cases hvalue
    | closed result =>
        have hresult : result = .ok () := Option.some.inj hvalue
        rw [hreturns, hresult, List.getElem?_cons_zero]
  refine ⟨by decide +kernel, hsafe.closed_no_entry 0 hrefused, hclosing, ?_⟩
  rcases hsafe.close_result 1 0 _ hclosed with ⟨hlate, -⟩ | hfirst
  · have hone := congrArg List.length hlate
    exact absurd (hdeeds.symm.trans hone) (by decide)
  · exact hfirst

end Ensemble

end MessageStore
