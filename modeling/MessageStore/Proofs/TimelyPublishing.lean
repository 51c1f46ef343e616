import MessageStore.Proofs.ConcurrentPublishing
import MessageStore.Proofs.FairRuns
import MessageStore.Proofs.TimelyDelivery
import Mathlib.Tactic

/-!
# Publishing comes to an end

Threads that publish over a table that takes all it is offered and never fails
are done some time if they take turns fairly, however the requests come
together in batches: a clock that shows a timestamp for each entry of all their
requests lets every batch end.
-/

namespace MessageStore

/-- How many entries a request makes at most. -/
def Request.weight (request : Request) : Nat :=
  max 1 request.payloads.length

/-- How many entries the requests make at most. -/
def weigh (requests : List Request) : Nat :=
  (requests.map Request.weight).sum

theorem weigh_append (first second : List Request) :
    weigh (first ++ second) = weigh first + weigh second := by
  rw [weigh, List.map_append, List.sum_append]
  rfl

theorem sum_chances_fresh (requests : List Request) :
    ((requests.map Pending.fresh).map Pending.chances).sum = weigh requests := by
  rw [List.map_map]
  rfl

section

variable {E : Type} [TableEntry E] {shape : Shape E}

theorem Written.IsWhole.length_block_le {written : Written E} (hwhole : written.IsWhole shape) :
    written.block.length ≤ written.request.weight := by
  rw [← hwhole.renders.length_eq, Request.weight]
  by_cases hpayloads : written.request.payloads = []
  · have hone := shape.length_contents_le_one hpayloads
    omega
  · rw [shape.contents_of_payloads hpayloads, List.length_map]
    exact le_max_right _ _

theorem length_blocks_le {rows : List (Written E)}
    (hwhole : ∀ written ∈ rows, written.IsWhole shape) :
    (rows.flatMap Written.block).length ≤ weigh (rows.map Written.request) := by
  rw [List.length_flatMap, weigh, List.map_map]
  exact List.sum_le_sum fun written hmem => (hwhole written hmem).length_block_le

end

theorem TableWriter.ends_of_isFinished {σ E : Type} {table : Table σ E} {shape : Shape E}
    {delivery : Delivery σ} {m : Nat}
    (hfinished : ((Delivery.step table shape)^[m] delivery).isFinished = true) :
    (behaviour table shape).Ends delivery := by
  refine ⟨m, ?_⟩
  change Option.isSome (if ((Delivery.step table shape)^[m] delivery).isFinished then _ else none)
  rw [if_pos hfinished]
  rfl

/-! ## The pushes of a log -/

/-- A log is made up of the pushes of its threads. -/
theorem perm_flatMap_pushesOf {threads : Nat} {log : List Push}
    (hlt : ∀ push ∈ log, push.thread < threads) :
    ((List.range threads).flatMap fun index => pushesOf index log).Perm log := by
  induction threads generalizing log with
  | zero =>
      rw [List.eq_nil_iff_forall_not_mem.mpr fun push hmem => Nat.not_lt_zero _ (hlt push hmem)]
      exact .nil
  | succ threads ih =>
      have hothers := @ih (log.filter fun push => !decide (push.thread = threads))
        fun push hmem => by
          obtain ⟨hmem, hne⟩ := List.mem_filter.mp hmem
          have hlt := hlt push hmem
          simp only [Bool.not_eq_true', decide_eq_false_iff_not] at hne
          omega
      have hsame : ((List.range threads).flatMap fun index =>
          pushesOf index (log.filter fun push => !decide (push.thread = threads))) =
            (List.range threads).flatMap fun index => pushesOf index log := by
        refine List.flatMap_congr fun index hindex => ?_
        have hindex := List.mem_range.mp hindex
        rw [pushesOf, pushesOf, List.filter_filter]
        refine List.filter_congr fun push _ => ?_
        by_cases hthread : push.thread = index
        · simp [hthread, hindex.ne]
        · simp [hthread]
      rw [hsame] at hothers
      rw [List.range_succ, List.flatMap_append, List.flatMap_singleton]
      exact (hothers.append_right _).trans
        (List.perm_append_comm.trans (List.filter_append_perm _ log))

namespace Ensemble

section

variable {kind : TableKind} {σ : Type} {table : Table σ kind.Entry} {ledger : table.Ledger}
  {good : σ → Prop} {start : List kind.Entry} {plans : List (List Request)} {log : List Push}
  {ensemble : Ensemble (TableWriter σ) (Delivery σ)}

/-- No more is pushed than is planned. -/
theorem InTurn.weigh_log_le (hinTurn : InTurn ledger good start plans log ensemble) :
    weigh (log.map Push.request) ≤ weigh plans.flatten := by
  have hpushed : ∀ index plan, plans[index]? = some plan →
      weigh ((pushesOf index log).map Push.request) ≤ weigh plan := by
    intro index plan hplan
    obtain ⟨thread, other, -, hother, hpublishing⟩ :=
      hinTurn.exists_thread (List.getElem?_eq_some_iff.mp hplan).1
    rw [hplan, Option.some.injEq] at hother
    subst hother
    obtain ⟨rest, -, rfl⟩ := hpublishing.plan_eq
    rw [weigh_append]
    exact Nat.le_add_right _ _
  have hlog := (perm_flatMap_pushesOf hinTurn.lt_length).map Push.request
  calc weigh (log.map Push.request)
      = ((List.range plans.length).map fun index =>
          weigh ((pushesOf index log).map Push.request)).sum := by
        rw [weigh, ← (hlog.map Request.weight).sum_eq, List.map_flatMap, List.map_flatMap,
          List.flatMap_def, List.sum_flatten, List.map_map]
        rfl
    _ ≤ (plans.map weigh).sum := by
        refine List.Forall₂.sum_le_sum (List.forall₂_iff_get.mpr ⟨by simp, fun index _ hlt => ?_⟩)
        rw [List.length_map] at hlt
        simpa using hpushed index _ (List.getElem?_eq_getElem hlt)
    _ = weigh plans.flatten := by
        rw [weigh, List.map_flatten, List.sum_flatten, List.map_map]
        rfl

/-- The requests in flight can still make what is missing of all that is planned. -/
theorem InTurn.room (hinTurn : InTurn ledger good start plans log ensemble)
    {queue : List Pending} {writer : TableWriter σ} {rows : List (Written kind.Entry)}
    {flying waiting : List Request}
    (hbrought : Coordinator.Brought ledger good start (log.map Push.request) queue writer rows
      flying waiting) :
    ((flying.map Pending.fresh).map Pending.chances).sum + ledger.count writer.table ≤
      start.length + weigh plans.flatten := by
  have hlog := hinTurn.weigh_log_le
  rw [hbrought.log_eq, weigh_append, weigh_append] at hlog
  have hblocks := length_blocks_le hbrought.whole
  rw [sum_chances_fresh, Table.Ledger.count, hbrought.held_eq, hbrought.ready.taken_eq,
    List.length_append, List.length_nil]
  omega

/-! ## The clock -/

/-- The clock goes on to show a timestamp for each entry to come, from the
beginning of the batch at work on. -/
def TimelyFlight (ledger : table.Ledger) (good : σ → Prop) (total : Nat) :
    Flight (TableWriter σ) (Delivery σ) → Prop
  | .resting writer _ => writer.Timely ledger total
  | .writing work => ∃ (writer : TableWriter σ) (batch : List Pending) (n : Nat),
    work = ((writer.chronicle batch).after table kind.shape n).delivery ∧
      good writer.table ∧ writer.Timely ledger total ∧
      (batch.map Pending.chances).sum + ledger.count writer.table ≤ total

theorem TimelyFlight.pop {total : Nat} {coordinator : Coordinator (TableWriter σ) (Delivery σ)}
    (htimely : TimelyFlight ledger good total coordinator.flight) :
    TimelyFlight ledger good total coordinator.pop.flight := by
  rcases coordinator.pop_cases with hpop | ⟨_, _, _, _, -, hflight, hpop⟩
  · rwa [hpop]
  · rw [hflight] at htimely
    rw [hpop]
    exact htimely

theorem TimelyFlight.land {total : Nat} {coordinator : Coordinator (TableWriter σ) (Delivery σ)}
    (htimely : TimelyFlight ledger good total coordinator.flight) (settle : Pending → Pending) :
    TimelyFlight ledger good total (coordinator.land settle).flight := by
  rcases coordinator.land_cases settle with hland | ⟨_, _, _, hflight, hland⟩
  · rwa [hland]
  · rw [hflight] at htimely
    rw [hland]
    exact htimely

theorem TimelyFlight.move (hreliable : table.Reliable good) {thread next : Thread}
    {later : Coordinator (TableWriter σ) (Delivery σ)}
    (hinTurn : InTurn ledger good start plans log ensemble) {index : Nat}
    (hthread : ensemble.threads[index]? = some thread)
    (hmove : Thread.Move (TableWriter.behaviour table kind.shape) ensemble.coordinator thread
      later next)
    (htimely : TimelyFlight ledger good (start.length + weigh plans.flatten)
      ensemble.coordinator.flight) :
    TimelyFlight ledger good (start.length + weigh plans.flatten) later.flight := by
  cases hmove with
  | @decideWrite ticket state requests hactivity hflight hrequests hsealed =>
      have hstands := hinTurn.stands_of_holds hthread (by rw [hactivity]; rfl)
      rw [hactivity] at hstands
      obtain ⟨writer, rows, flying, waiting, hbrought, -, hresting⟩ := hstands
      rw [hflight, Flight.resting.injEq] at hresting
      obtain ⟨rfl, rfl⟩ := hresting
      rw [hflight] at htimely
      exact ⟨_, _, 0, rfl, hbrought.ready.good, htimely, hinTurn.room hbrought⟩
  | @write ticket work hactivity hflight hresult =>
      rw [hflight] at htimely
      obtain ⟨writer, batch, n, rfl, hgood, hstart, hroom⟩ := htimely
      refine ⟨writer, batch, n + 1, ?_, hgood, hstart, hroom⟩
      rw [Chronicle.after_succ, Chronicle.step_delivery]
      rfl
  | @written ticket work state result hactivity hflight hresult =>
      rw [hflight] at htimely
      obtain ⟨writer, batch, n, rfl, hgood, hstart, hroom⟩ := htimely
      simp only [TableWriter.behaviour] at hresult
      split at hresult
      next hfinished =>
        simp only [Option.some.injEq, Prod.mk.injEq] at hresult
        obtain ⟨-, rfl⟩ := hresult
        exact TableWriter.timely_ofDelivery kind.shape hreliable hgood hstart hroom hfinished
      next => contradiction
  | close hactivity =>
      obtain ⟨plan, hplan⟩ := hinTurn.exists_plan hthread
      have hpersisting := (hinTurn.publishers index thread plan hthread hplan).persisting
      rw [hactivity] at hpersisting
      contradiction
  | pop => exact htimely.pop
  | reject | land => exact htimely.land _
  | call | callClose | refuse | accept | push | see | miss | lose | win | count | popEnd
  | decideNothing | decideReject | rejectEnd | landEnd | release | claimLate | claim | forbid
  | leave | stay => exact htimely

/-- What holds while threads publish with a clock for all of their entries. -/
structure InTime (ledger : table.Ledger) (good : σ → Prop) (start : List kind.Entry)
    (plans : List (List Request)) (log : List Push)
    (ensemble : Ensemble (TableWriter σ) (Delivery σ)) : Prop
    extends InTurn ledger good start plans log ensemble where
  timely : TimelyFlight ledger good (start.length + weigh plans.flatten)
    ensemble.coordinator.flight

theorem InTime.step (hreliable : table.Reliable good) (log : List Push)
    (ensemble : Ensemble (TableWriter σ) (Delivery σ)) (index : Nat)
    (hinTime : InTime ledger good start plans log ensemble) :
    InTime ledger good start plans (log ++ (ensemble.push? index).toList)
      (ensemble.step (TableWriter.behaviour table kind.shape) index) := by
  refine ⟨hinTime.toInTurn.step hreliable log ensemble index, ?_⟩
  rcases ensemble.step_cases (TableWriter.behaviour table kind.shape) index with
    ⟨-, hstep⟩ | ⟨thread, later, next, hthread, hmove, hstep⟩
  · rw [hstep]
    exact hinTime.timely
  · rw [hstep]
    exact hinTime.timely.move hreliable hinTime.toInTurn hthread hmove

theorem InTime.initial {writer : TableWriter σ} (hready : writer.IsReady ledger good)
    (plans : List (List Request))
    (hrises : writer.clock.Rises (weigh plans.flatten) writer.sequencer.last) :
    InTime ledger good (ledger.held writer.table) plans [] (publishing writer plans) where
  toInTurn := InTurn.initial hready plans
  timely := by
    refine ⟨_, hrises, ?_⟩
    rw [Table.Ledger.count]
    omega

theorem TimelyFlight.ends (hreliable : table.Reliable good) {total : Nat} {work : Delivery σ}
    (htimely : TimelyFlight ledger good total (.writing work)) :
    (TableWriter.behaviour table kind.shape).Ends work := by
  obtain ⟨writer, batch, n, rfl, hgood, hstart, hroom⟩ := htimely
  obtain ⟨m, hfinished⟩ :=
    TableWriter.exists_isFinished kind.shape hreliable hgood hstart hroom
  rw [Chronicle.after_delivery] at hfinished ⊢
  refine TableWriter.ends_of_isFinished (m := m) ?_
  rw [← Function.iterate_add_apply, Nat.add_comm, Function.iterate_add_apply,
    Delivery.iterate_step_of_isFinished table kind.shape hfinished]
  exact hfinished

/-- Threads that publish over a table that never fails are done some time, if
they take turns fairly and the clock shows a timestamp for each entry that their
requests may make. -/
theorem fair_publishing_ends (hreliable : table.Reliable good) {writer : TableWriter σ}
    (hready : writer.IsReady ledger good) (plans : List (List Request))
    (hrises : writer.clock.Rises (weigh plans.flatten) writer.sequencer.last)
    {order : Nat → Nat} (hfair : IsFair plans.length order) :
    ∃ count, ((publishing writer plans).after (TableWriter.behaviour table kind.shape) order
      count).threads.all Thread.isDone = true := by
  have hcalling : (publishing writer plans : Ensemble (TableWriter σ) (Delivery σ)) =
      calling writer (plans.map fun plan => plan.map Call.persist) := by
    simp [publishing, calling]
  rw [hcalling]
  refine fair_turns_end (TableWriter.behaviour_tends table kind.shape) writer _
    (by rwa [List.length_map]) fun schedule work hflight => ?_
  rw [← hcalling] at hflight
  have htimely := (run_induction (TableWriter.behaviour table kind.shape)
    (InTime.step hreliable) (InTime.initial hready plans hrises) schedule).timely
  rw [hflight] at htimely
  exact htimely.ends hreliable

end

end Ensemble

end MessageStore
