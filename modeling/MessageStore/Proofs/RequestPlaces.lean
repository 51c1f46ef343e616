import MessageStore.Proofs.ClosingRuns
import MessageStore.Proofs.PublisherCalls

/-!
# No request is stranded

Whatever writer the coordinator drives, every request that was pushed waits in
the queue, is in flight, or was handed back settled.  Nothing is in flight
unless a thread has the election.  A flush takes along what was queued when it
began, so a thread that has won the election once finds the outcome of its own
request before it gives the election up, and never stands for it again.
-/

namespace MessageStore

def Push.label (push : Push) : Topic × Option UInt64 :=
  (push.request.topic, push.request.writePointer)

/-- A writer that never changes an outcome, nor which request stands where. -/
structure RequestWriter.Tends {ω μ : Type} (writer : RequestWriter ω μ)
    (valid : μ → Prop) : Prop extends writer.Keeps valid where
  label_step : ∀ {work}, valid work →
    (writer.requests (writer.step work)).map Pending.label =
      (writer.requests work).map Pending.label

namespace Coordinator

section Flights

variable {ω μ : Type} (writer : RequestWriter ω μ)

/-- The writer is not at work. -/
def IsResting (coordinator : Coordinator ω μ) : Prop :=
  ∃ state requests, coordinator.flight = .resting state requests

/-- Nothing is in flight. -/
def HasLanded (coordinator : Coordinator ω μ) : Prop :=
  ∃ state, coordinator.flight = .resting state []

/-- The request that the flush is for, if there is one, is among the first so
many of all that were pushed. -/
def Reaches (count : Nat) (ticket : Option Ticket) : Prop :=
  ∀ own : Nat, ticket = some own → own < count

/-- Where a flush stands by what its thread does next.  What it has counted is
still there to be taken, and together with what was taken before reaches up to
the request of the thread. -/
def Flushes (coordinator : Coordinator ω μ) : Activity → Prop
  | .flushing .counting _ => coordinator.HasLanded
  | .flushing (.popping left) ticket =>
    coordinator.IsResting ∧ left ≤ coordinator.queue.length ∧
      Reaches ((coordinator.known writer).length + left) ticket
  | .flushing .writing ticket =>
    (∃ work, coordinator.flight = .writing work) ∧
      Reaches (coordinator.known writer).length ticket
  | .flushing .deciding ticket =>
    coordinator.IsResting ∧ Reaches (coordinator.known writer).length ticket
  | .flushing .rejecting ticket =>
    coordinator.IsResting ∧ Reaches (coordinator.known writer).length ticket
  | .flushing (.landing _) ticket =>
    coordinator.IsResting ∧ Reaches (coordinator.known writer).length ticket
  | .releasing own => coordinator.HasLanded ∧ own < coordinator.settled.size
  | _ => coordinator.HasLanded

/-- How far the flush of the thread with the election has come; nothing is in
flight if there is none. -/
def FlushesFor (coordinator : Coordinator ω μ) : Option (Nat × Thread) → Prop
  | none => coordinator.HasLanded
  | some (_, thread) => Flushes writer coordinator thread.activity

end Flights

section Moves

variable {ω μ : Type} {writer : RequestWriter ω μ} {valid : μ → Prop}
  {coordinator later : Coordinator ω μ} {thread next : Thread}

theorem HasLanded.isResting (hlanded : coordinator.HasLanded) :
    coordinator.IsResting := by
  obtain ⟨state, hflight⟩ := hlanded
  exact ⟨state, [], hflight⟩

theorem HasLanded.length_known (hlanded : coordinator.HasLanded) :
    (coordinator.known writer).length = coordinator.settled.size := by
  obtain ⟨state, hflight⟩ := hlanded
  simp [known, inFlight, hflight]

theorem IsResting.hasLanded (hresting : coordinator.IsResting)
    (hnone : coordinator.inFlight writer = []) : coordinator.HasLanded := by
  obtain ⟨state, requests, hflight⟩ := hresting
  rw [inFlight, hflight] at hnone
  change requests = [] at hnone
  rw [hnone] at hflight
  exact ⟨state, hflight⟩

theorem nextTicket_eq_length_known (coordinator : Coordinator ω μ) :
    coordinator.nextTicket writer =
      (coordinator.known writer).length + coordinator.queue.length := by
  simp [nextTicket, known]

variable (writer) in
theorem IsResting.land (hresting : coordinator.IsResting) (settle : Pending → Pending) :
    (coordinator.land settle).IsResting ∧
      ((coordinator.land settle).known writer).length =
        (coordinator.known writer).length := by
  obtain ⟨state, requests, hflight⟩ := hresting
  cases requests with
  | nil =>
      rw [land_of_resting_nil hflight]
      exact ⟨⟨state, [], hflight⟩, rfl⟩
  | cons pending requests =>
      rw [land_of_resting_cons hflight]
      refine ⟨⟨state, requests, rfl⟩, ?_⟩
      simp [known, inFlight, hflight]

variable (writer) in
theorem IsResting.pop (hresting : coordinator.IsResting)
    (hqueue : coordinator.queue ≠ []) :
    coordinator.pop.IsResting ∧
      coordinator.pop.queue.length + 1 = coordinator.queue.length ∧
      (coordinator.pop.known writer).length =
        (coordinator.known writer).length + 1 := by
  obtain ⟨state, requests, hflight⟩ := hresting
  obtain ⟨pending, queue, hcons⟩ := List.exists_cons_of_ne_nil hqueue
  rw [pop_of_resting hcons hflight, hcons]
  refine ⟨⟨state, requests ++ [pending], rfl⟩, rfl, ?_⟩
  simp [known, inFlight, hflight]
  omega

/-- What threads without the election do leaves the flush where it is. -/
theorem Flushes.frame {activity : Activity}
    (hflushes : Flushes writer coordinator activity)
    (hqueue : coordinator.queue.length ≤ later.queue.length)
    (hsettled : later.settled = coordinator.settled)
    (hflight : later.flight = coordinator.flight) :
    Flushes writer later activity := by
  have hknown : later.known writer = coordinator.known writer := by
    simp [known, inFlight, hsettled, hflight]
  unfold Flushes HasLanded IsResting at *
  rw [hknown, hflight, hsettled]
  split at hflushes
  next => exact hflushes
  next left ticket =>
    obtain ⟨hresting, hleft, hreaches⟩ := hflushes
    exact ⟨hresting, hleft.trans hqueue, hreaches⟩
  all_goals exact hflushes

theorem FlushesFor.frame {actor : Option (Nat × Thread)}
    (hflushes : FlushesFor writer coordinator actor)
    (hqueue : coordinator.queue.length ≤ later.queue.length)
    (hsettled : later.settled = coordinator.settled)
    (hflight : later.flight = coordinator.flight) :
    FlushesFor writer later actor := by
  cases actor with
  | none =>
      obtain ⟨state, hlanded⟩ := hflushes
      exact ⟨state, hflight.trans hlanded⟩
  | some actor => exact Flushes.frame hflushes hqueue hsettled hflight

/-- A flush is over when nothing of its batch is in flight any more. -/
theorem flushes_afterFlush (hresting : coordinator.IsResting)
    (hnone : coordinator.inFlight writer = []) {ticket : Option Ticket}
    (hreaches : Reaches (coordinator.known writer).length ticket)
    (result : Except StoreError Unit) :
    Flushes writer coordinator (Thread.afterFlush result ticket) := by
  have hlanded := hresting.hasLanded hnone
  cases ticket with
  | none => exact hlanded
  | some own =>
      have hlt := hreaches own rfl
      rw [hlanded.length_known] at hlt
      exact ⟨hlanded, hlt⟩

theorem flushesFor_holding {index : Nat}
    (hflushes : Flushes writer coordinator thread.activity)
    (hholds : thread.activity.holds = true) :
    FlushesFor writer coordinator (holding index thread) := by
  rw [holding, if_pos hholds]
  exact hflushes

theorem Flushes.move (hkeeps : writer.Keeps valid)
    (hvalid : coordinator.WorkValid valid)
    (hown : Reaches (coordinator.nextTicket writer) thread.activity.ticket?)
    (hflushes : Flushes writer coordinator thread.activity)
    (hmove : Thread.Move writer coordinator thread later next)
    (hholds : thread.activity.holds = true) (index : Nat) :
    FlushesFor writer later (holding index next) := by
  have hat : ∀ {activity : Activity}, thread.activity = activity →
      Flushes writer coordinator activity := fun hactivity => hactivity ▸ hflushes
  cases hmove with
  | call hactivity | callClose hactivity | refuse hactivity | accept hactivity
  | push hactivity | see hactivity | miss hactivity | lose hactivity
  | claimLate hactivity | claim hactivity =>
      rw [hactivity] at hholds
      contradiction
  | win hactivity hwhy =>
      rw [hactivity] at hholds
      rcases hwhy with ⟨own, rfl, _⟩ | ⟨rfl, _⟩ <;> contradiction
  | stay => exact flushesFor_holding hflushes hholds
  | count hactivity =>
      rw [hactivity, nextTicket_eq_length_known] at hown
      exact flushesFor_holding ⟨(hat hactivity).isResting, Nat.le_refl _, hown⟩ rfl
  | popEnd hactivity =>
      obtain ⟨hresting, -, hreaches⟩ := hat hactivity
      exact flushesFor_holding ⟨hresting, hreaches⟩ rfl
  | @pop left ticket hactivity =>
      obtain ⟨hresting, hleft, hreaches⟩ := hat hactivity
      have hqueued : coordinator.queue ≠ [] :=
        List.ne_nil_of_length_pos (Nat.lt_of_lt_of_le (Nat.succ_pos left) hleft)
      obtain ⟨hrests, hqueue, hknown⟩ := hresting.pop writer hqueued
      refine flushesFor_holding ⟨hrests, by omega, fun own hticket => ?_⟩ rfl
      have hlt := hreaches own hticket
      rw [hknown]
      omega
  | decideNothing hactivity hflight =>
      obtain ⟨hresting, hreaches⟩ := hat hactivity
      exact flushesFor_holding (flushes_afterFlush hresting (by simp [inFlight, hflight])
        hreaches _) (Thread.holds_afterFlush _ _)
  | rejectEnd hactivity hnone | landEnd hactivity hnone =>
      obtain ⟨hresting, hreaches⟩ := hat hactivity
      exact flushesFor_holding (flushes_afterFlush hresting hnone hreaches _)
        (Thread.holds_afterFlush _ _)
  | decideReject hactivity =>
      have hdeciding := hat hactivity
      exact flushesFor_holding hdeciding rfl
  | reject hactivity | land hactivity =>
      obtain ⟨hresting, hreaches⟩ := hat hactivity
      obtain ⟨hrests, hknown⟩ := hresting.land writer _
      refine flushesFor_holding ?_ hholds
      rw [hactivity]
      exact ⟨hrests, hknown ▸ hreaches⟩
  -- The writer changes the requests in flight, but not their number.
  | decideWrite hactivity hflight =>
      obtain ⟨-, hreaches⟩ := hat hactivity
      refine flushesFor_holding ⟨⟨_, rfl⟩, ?_⟩ rfl
      simp only [known, inFlight, hflight] at hreaches
      simpa only [known, inFlight, hkeeps.requests_start] using hreaches
  | write hactivity hflight =>
      obtain ⟨-, hreaches⟩ := hat hactivity
      have hlength := (hkeeps.requests_step (hvalid _ hflight)).length_eq
      refine flushesFor_holding ?_ hholds
      rw [hactivity]
      refine ⟨⟨_, rfl⟩, ?_⟩
      simp only [known, inFlight, hflight, List.length_append, hlength] at hreaches
      simpa only [known, inFlight, List.length_append] using hreaches
  | written hactivity hflight =>
      obtain ⟨-, hreaches⟩ := hat hactivity
      refine flushesFor_holding ⟨⟨_, _, rfl⟩, ?_⟩ rfl
      simp only [known, inFlight, hflight] at hreaches
      simpa only [known, inFlight] using hreaches
  | release hactivity => exact (hat hactivity).1
  | forbid hactivity =>
      have hlanded := hat hactivity
      exact flushesFor_holding hlanded rfl
  | close hactivity hflight =>
      obtain ⟨state, hlanded⟩ := hat hactivity
      rw [hflight, Flight.resting.injEq] at hlanded
      rw [hlanded.2]
      exact flushesFor_holding ⟨_, rfl⟩ rfl
  | leave hactivity => exact hat hactivity

end Moves

end Coordinator

/-! ## The row of requests -/

section Rows

variable {ω μ : Type} {writer : RequestWriter ω μ} {valid : μ → Prop}
  {coordinator later : Coordinator ω μ} {thread next : Thread}

theorem Coordinator.pop_pushed (coordinator : Coordinator ω μ) :
    coordinator.pop.pushed writer = coordinator.pushed writer := by
  rcases coordinator.pop_cases with hpop | ⟨_, _, _, _, hqueue, hflight, hpop⟩
  · rw [hpop]
  · simp [hpop, Coordinator.pushed, Coordinator.inFlight, hqueue, hflight]

theorem Coordinator.land_pushed_label {settle : Pending → Pending}
    (hsettle : ∀ pending, (settle pending).label = pending.label)
    (coordinator : Coordinator ω μ) :
    ((coordinator.land settle).pushed writer).map Pending.label =
      (coordinator.pushed writer).map Pending.label := by
  rcases coordinator.land_cases settle with hland | ⟨_, _, _, hflight, hland⟩
  · rw [hland]
  · simp [hland, Coordinator.pushed, Coordinator.inFlight, hflight, hsettle]

/-- A request that is pushed comes last in the row, and no step takes one out
or puts it elsewhere. -/
theorem Thread.Move.pushed_label (htends : writer.Tends valid)
    (hvalid : coordinator.WorkValid valid)
    (hmove : Thread.Move writer coordinator thread later next) :
    (later.pushed writer).map Pending.label =
      (coordinator.pushed writer).map Pending.label ++
        thread.activity.pushing?.toList.map
          fun request => (request.topic, request.writePointer) := by
  cases hmove with
  | push hactivity =>
      rw [hactivity]
      simp [Coordinator.pushed, Coordinator.push, Coordinator.inFlight, Pending.label,
        Activity.pushing?]
  | pop hactivity =>
      rw [hactivity, Coordinator.pop_pushed]
      simp [Activity.pushing?]
  | reject hactivity =>
      have hfail : ∀ pending : Pending, (pending.fail .closed).label = pending.label :=
        fun pending => pending.label_settle _
      rw [hactivity, Coordinator.land_pushed_label hfail]
      simp [Activity.pushing?]
  | land hactivity =>
      rw [hactivity, Coordinator.land_pushed_label fun pending => pending.label_conclude _]
      simp [Activity.pushing?]
  | decideWrite hactivity hflight =>
      rw [hactivity]
      simp [Coordinator.pushed, Coordinator.inFlight, hflight, htends.requests_start,
        Activity.pushing?]
  | write hactivity hflight hresult =>
      rw [hactivity]
      simp [Coordinator.pushed, Coordinator.inFlight, hflight,
        htends.label_step (hvalid _ hflight), Activity.pushing?]
  | written hactivity hflight hresult =>
      rw [hactivity]
      simp [Coordinator.pushed, Coordinator.inFlight, hflight, Activity.pushing?]
  | close hactivity hflight =>
      rw [hactivity]
      simp [Coordinator.pushed, Coordinator.inFlight, hflight, Activity.pushing?]
  | call hactivity | callClose hactivity | refuse hactivity | accept hactivity
  | see hactivity | miss hactivity | lose hactivity | count hactivity
  | popEnd hactivity | decideNothing hactivity | decideReject hactivity
  | rejectEnd hactivity | landEnd hactivity | release hactivity
  | claimLate hactivity | claim hactivity | forbid hactivity | leave hactivity =>
      rw [hactivity]
      simp [Coordinator.pushed, Coordinator.inFlight, Activity.pushing?]
  | win hactivity hwhy =>
      rw [hactivity]
      rcases hwhy with ⟨own, rfl, _⟩ | ⟨rfl, _⟩ <;>
        simp [Coordinator.pushed, Coordinator.inFlight, Activity.pushing?]
  | stay hstays =>
      rcases hstays with hactivity | hactivity | hactivity | hactivity | hactivity <;>
        simp [hactivity, Activity.pushing?]

theorem Thread.Move.settled_completed
    (hcompleted : ∀ pending ∈ coordinator.settled.toList, pending.isCompleted = true)
    (hmove : Thread.Move writer coordinator thread later next) :
    ∀ pending ∈ later.settled.toList, pending.isCompleted = true := by
  have hpush : ∀ settled : Pending, settled.isCompleted = true →
      ∀ pending ∈ (coordinator.settled.push settled).toList, pending.isCompleted = true := by
    intro settled hsettled pending hmem
    rw [Array.toList_push] at hmem
    rcases List.mem_append.mp hmem with hold | hnew
    · exact hcompleted pending hold
    · rwa [List.mem_singleton.mp hnew]
  rcases hmove.settled_cases with
    hsame | ⟨state, first, requests, _, ⟨ticket, _, hsettled⟩ | ⟨result, ticket, _, hsettled⟩⟩
  · rwa [hsame]
  · rw [hsettled]
    exact hpush _ (first.isCompleted_settle _)
  · rw [hsettled]
    cases result with
    | ok done => exact hpush _ (first.isCompleted_settle _)
    | error cause => exact hpush _ (first.isCompleted_settle _)

/-- A thread keeps the ticket of its call until that returns, and only a push
gives it one. -/
theorem Thread.Move.ticket?_cases
    (hmove : Thread.Move writer coordinator thread later next) {own : Ticket}
    (hown : next.activity.ticket? = some own) :
    next.returns = thread.returns ∧
      (thread.activity.ticket? = some own ∨
        ∃ request, thread.activity = .pushing request ∧
          own = coordinator.nextTicket writer) := by
  have hafterFlush : ∀ {result : Except StoreError Unit} {ticket : Option Ticket},
      (Thread.afterFlush result ticket).ticket? = some own → ticket = some own := by
    rintro result (_ | ticket) hticket
    · contradiction
    · exact hticket
  cases hmove with
  | push hactivity =>
      exact ⟨rfl, Or.inr ⟨_, hactivity, (Option.some.inj hown).symm⟩⟩
  | miss hactivity | lose hactivity | count hactivity | popEnd hactivity
  | pop hactivity | decideReject hactivity | decideWrite hactivity
  | written hactivity | release hactivity =>
      rw [hactivity]
      exact ⟨rfl, Or.inl hown⟩
  | decideNothing hactivity | rejectEnd hactivity | landEnd hactivity =>
      rw [hactivity]
      exact ⟨rfl, Or.inl (hafterFlush hown)⟩
  | reject | write | land | stay => exact ⟨rfl, Or.inl hown⟩
  | win hactivity hwhy =>
      rw [hactivity]
      rcases hwhy with ⟨mine, rfl, rfl⟩ | ⟨rfl, rfl⟩
      · exact ⟨rfl, Or.inl hown⟩
      · contradiction
  | call | callClose | refuse | accept | see | claimLate | claim | forbid
  | close | leave => contradiction

end Rows

namespace Ensemble

variable {ω μ : Type} {writer : RequestWriter ω μ} {valid : μ → Prop}
  {log : List Push} {ensemble : Ensemble ω μ}

/-- Where the requests of a run are, and how far its flush has come. -/
structure Placed (writer : RequestWriter ω μ) (valid : μ → Prop) (log : List Push)
    (ensemble : Ensemble ω μ) : Prop where
  work_valid : ensemble.coordinator.WorkValid valid
  row : log.map Push.label =
    (ensemble.coordinator.pushed writer).map Pending.label
  completed : ∀ pending ∈ ensemble.coordinator.settled.toList,
    pending.isCompleted = true
  own : ∀ (index : Nat) (thread : Thread) (own : Nat),
    ensemble.threads[index]? = some thread → thread.activity.ticket? = some own →
      ∃ request, log[own]? = some ⟨index, thread.returns.length, request⟩
  flushes : ∃ holder, ensemble.Elected holder ∧
    ensemble.coordinator.FlushesFor writer (ensemble.actor holder)

namespace Placed

theorem length_eq (hplaced : Placed writer valid log ensemble) :
    log.length = ensemble.coordinator.nextTicket writer := by
  have hlength := congrArg List.length hplaced.row
  simp only [List.length_map, Coordinator.pushed, List.length_append,
    Array.length_toList] at hlength
  exact hlength

theorem own_lt (hplaced : Placed writer valid log ensemble) {index : Nat}
    {thread : Thread} (hthread : ensemble.threads[index]? = some thread) :
    Coordinator.Reaches (ensemble.coordinator.nextTicket writer)
      thread.activity.ticket? := by
  intro own hown
  obtain ⟨request, hget⟩ := hplaced.own index thread own hthread hown
  rw [← hplaced.length_eq]
  exact (List.getElem?_eq_some_iff.mp hget).1

theorem flushes_of_holds (hplaced : Placed writer valid log ensemble) {index : Nat}
    {thread : Thread} (hthread : ensemble.threads[index]? = some thread)
    (hholds : thread.activity.holds = true) :
    ensemble.coordinator.Flushes writer thread.activity := by
  obtain ⟨holder, helected, hflushes⟩ := hplaced.flushes
  have hactor : ensemble.actor holder = some (index, thread) := by
    rw [(helected.holds_iff index thread hthread).mp hholds]
    simp [actor, hthread]
  rw [hactor] at hflushes
  exact hflushes

theorem own_move (hplaced : Placed writer valid log ensemble) {index : Nat}
    {thread next : Thread} {later : Coordinator ω μ}
    (hthread : ensemble.threads[index]? = some thread)
    (hmove : Thread.Move writer ensemble.coordinator thread later next)
    (other : Nat) (moved : Thread) (own : Nat)
    (hmoved : (ensemble.threads.setIfInBounds index next)[other]? = some moved)
    (hown : moved.activity.ticket? = some own) :
    ∃ request, (log ++ (ensemble.push? index).toList)[own]? =
      some ⟨other, moved.returns.length, request⟩ := by
  have hold : ∀ {push : Push}, log[own]? = some push →
      (log ++ (ensemble.push? index).toList)[own]? = some push := by
    intro push hget
    rwa [List.getElem?_append_left (List.getElem?_eq_some_iff.mp hget).1]
  rcases moved_cases hthread hmoved with ⟨rfl, rfl⟩ | ⟨-, hmoved⟩
  · obtain ⟨hreturns, hsame | ⟨request, hactivity, rfl⟩⟩ := hmove.ticket?_cases hown
    · obtain ⟨request, hget⟩ := hplaced.own index thread own hthread hsame
      rw [hreturns]
      exact ⟨request, hold hget⟩
    · refine ⟨request, ?_⟩
      rw [push?_of_some hthread, hactivity, ← hplaced.length_eq, hreturns]
      simp [Activity.pushing?]
  · obtain ⟨request, hget⟩ := hplaced.own other moved own hmoved hown
    exact ⟨request, hold hget⟩

theorem flushes_move (htends : writer.Tends valid)
    (hplaced : Placed writer valid log ensemble) {index : Nat} {thread next : Thread}
    {later : Coordinator ω μ} (hthread : ensemble.threads[index]? = some thread)
    (hmove : Thread.Move writer ensemble.coordinator thread later next) :
    ∃ holder, Elected ⟨later, ensemble.threads.setIfInBounds index next⟩ holder ∧
      later.FlushesFor writer
        (actor ⟨later, ensemble.threads.setIfInBounds index next⟩ holder) := by
  obtain ⟨holder, helected, hflushes⟩ := hplaced.flushes
  apply helected.stands_move hthread hmove hflushes
  · intro hholds hflushes
    exact Coordinator.Flushes.move htends.toKeeps hplaced.work_valid
      (hplaced.own_lt hthread) hflushes hmove hholds index
  · intro _ ticket hactivity hlater hlanded
    change Coordinator.Flushes writer later next.activity
    rw [hactivity, hlater]
    exact hlanded
  · intro _ hbystands actor hflushes
    rcases hbystands with ⟨request, _, rfl⟩ | ⟨_, hqueue, hsettled, hflight⟩
    · refine hflushes.frame ?_ rfl rfl
      rw [Coordinator.push, List.length_append]
      exact Nat.le_add_right _ _
    · exact hflushes.frame (Nat.le_of_eq (by rw [hqueue])) hsettled hflight

theorem step (htends : writer.Tends valid) (log : List Push) (ensemble : Ensemble ω μ)
    (index : Nat) (hplaced : Placed writer valid log ensemble) :
    Placed writer valid (log ++ (ensemble.push? index).toList)
      (ensemble.step writer index) := by
  rcases ensemble.step_cases writer index with
    ⟨hnone, hstep⟩ | ⟨thread, later, next, hthread, hmove, hstep⟩
  · have hpush : ensemble.push? index = none := by
      rw [push?, hnone]
    rw [hpush, Option.toList_none, List.append_nil, hstep]
    exact hplaced
  · rw [hstep]
    constructor
    · exact hmove.work_valid htends.toKeeps hplaced.work_valid
    · rw [hmove.pushed_label htends hplaced.work_valid, List.map_append, hplaced.row,
        push?_of_some hthread]
      cases thread.activity.pushing? <;> rfl
    · exact hmove.settled_completed hplaced.completed
    · exact hplaced.own_move hthread hmove
    · exact hplaced.flushes_move htends hthread hmove

theorem start (state : ω) (plans : List (List Call)) :
    Placed writer valid [] (calling state plans) where
  work_valid := by
    rintro work ⟨⟩
  row := rfl
  completed := by
    intro pending hmem
    contradiction
  own := by
    intro index thread own hthread hown
    obtain ⟨calls, rfl⟩ := exists_calls hthread
    contradiction
  flushes := ⟨none, elected_calling state plans, state, rfl⟩

theorem exists_outcome (hplaced : Placed writer valid log ensemble) {ticket : Nat}
    (hlt : ticket < ensemble.coordinator.settled.size) :
    ∃ outcome, ensemble.coordinator.outcome? writer ticket = some outcome := by
  have hcompleted := hplaced.completed ensemble.coordinator.settled[ticket]
    (Array.getElem_mem_toList hlt)
  rw [Coordinator.outcome?, dif_pos hlt]
  exact Option.isSome_iff_exists.mp hcompleted

/-- A thread that is about to give the election up after a flush for a request
finds that request settled. -/
theorem exists_own_outcome (hplaced : Placed writer valid log ensemble) {index : Nat}
    {thread : Thread} {own : Nat} (hthread : ensemble.threads[index]? = some thread)
    (hactivity : thread.activity = .releasing own) :
    ∃ outcome, ensemble.coordinator.outcome? writer own = some outcome := by
  have hflushes := hplaced.flushes_of_holds hthread (by rw [hactivity]; rfl)
  rw [hactivity] at hflushes
  exact hplaced.exists_outcome hflushes.2

theorem outcome_run (htends : writer.Tends valid) {ticket : Nat} {outcome : Outcome} :
    ∀ (schedule : List Nat) {log : List Push} {ensemble : Ensemble ω μ},
      Placed writer valid log ensemble →
        ensemble.coordinator.outcome? writer ticket = some outcome →
          (ensemble.run writer schedule).coordinator.outcome? writer ticket =
            some outcome
  | [], _, _, _, hsome => hsome
  | index :: schedule, log, ensemble, hplaced, hsome => by
      refine outcome_run htends schedule (hplaced.step htends _ _ index) ?_
      rcases ensemble.step_cases writer index with
        ⟨_, hstep⟩ | ⟨thread, later, next, hthread, hmove, hstep⟩
      · rwa [hstep]
      · rw [hstep]
        exact (hmove.grows htends.toKeeps hplaced.work_valid).outcome? hsome

end Placed

end Ensemble

/-! ## Elections -/

section Elections

variable {ω μ : Type} {writer : RequestWriter ω μ} {valid : μ → Prop}
  {coordinator later : Coordinator ω μ} {thread next : Thread}

/-- The thread has no reason to stand for election in the call that it makes:
it has the election, or is about to see the outcome of its request. -/
def Thread.IsServed (writer : RequestWriter ω μ) (coordinator : Coordinator ω μ)
    (thread : Thread) : Prop :=
  thread.activity.holds = true ∨ ∃ own outcome, thread.activity = .watching own ∧
    coordinator.outcome? writer own = some outcome

theorem Thread.Move.of_watching {own : Ticket} {outcome : Outcome}
    (hactivity : thread.activity = .watching own)
    (hsome : coordinator.outcome? writer own = some outcome)
    (hmove : Thread.Move writer coordinator thread later next) :
    later = coordinator ∧ next = thread.return_ (.persisted outcome) := by
  cases hmove with
  | see hother hfound =>
      rw [hactivity, Activity.watching.injEq] at hother
      subst hother
      rw [hsome, Option.some.injEq] at hfound
      rw [hfound]
      exact ⟨rfl, rfl⟩
  | miss hother hnone =>
      rw [hactivity, Activity.watching.injEq] at hother
      rw [← hother, hsome] at hnone
      contradiction
  | call hother | callClose hother | refuse hother | accept hother | push hother
  | lose hother | count hother | popEnd hother | pop hother
  | decideNothing hother | decideReject hother | decideWrite hother
  | rejectEnd hother | reject hother | write hother | written hother
  | landEnd hother | land hother | release hother | claimLate hother
  | claim hother | forbid hother | close hother | leave hother =>
      rw [hactivity] at hother
      contradiction
  | win hother hwhy =>
      rw [hactivity] at hother
      rcases hwhy with ⟨mine, rfl, _⟩ | ⟨rfl, _⟩ <;> contradiction
  | stay hstays =>
      rcases hstays with hother | hother | hother | hother | hother <;>
      · rw [hactivity] at hother
        contradiction

theorem Thread.IsServed.move (hserved : thread.IsServed writer coordinator)
    (hrelease : ∀ own, thread.activity = .releasing own →
      ∃ outcome, coordinator.outcome? writer own = some outcome)
    (hmove : Thread.Move writer coordinator thread later next) :
    thread.returns.length < next.returns.length ∨
      next.returns = thread.returns ∧ next.IsServed writer later := by
  rcases hserved with hholds | ⟨own, outcome, hactivity, hsome⟩
  · cases hmove with
    | call hactivity | callClose hactivity | refuse hactivity | accept hactivity
    | push hactivity | see hactivity | miss hactivity | lose hactivity
    | claimLate hactivity | claim hactivity =>
        rw [hactivity] at hholds
        contradiction
    | win hactivity hwhy =>
        rw [hactivity] at hholds
        rcases hwhy with ⟨own, rfl, _⟩ | ⟨rfl, _⟩ <;> contradiction
    | release hactivity =>
        obtain ⟨outcome, hsome⟩ := hrelease _ hactivity
        exact Or.inr ⟨rfl, Or.inr ⟨_, outcome, rfl, hsome⟩⟩
    | leave => exact Or.inl (Nat.lt_succ_self _)
    | decideNothing | rejectEnd | landEnd =>
        exact Or.inr ⟨rfl, Or.inl (Thread.holds_afterFlush _ _)⟩
    | count | popEnd | pop | decideReject | decideWrite | written | forbid | close =>
        exact Or.inr ⟨rfl, Or.inl rfl⟩
    | reject | write | land | stay => exact Or.inr ⟨rfl, Or.inl hholds⟩
  · obtain ⟨_, rfl⟩ := hmove.of_watching hactivity hsome
    exact Or.inl (Nat.lt_succ_self _)

/-- A thread that is served does not win the election. -/
theorem Thread.IsServed.elected_le (hserved : thread.IsServed writer coordinator)
    (hmove : Thread.Move writer coordinator thread later next)
    (hoff : coordinator.elected = false) : later.elected = false := by
  rcases hserved with hholds | ⟨own, outcome, hactivity, hsome⟩
  · rcases hmove.election_cases with ⟨_, hsame⟩ | ⟨hfree, _⟩ | ⟨_, _, hlater⟩
    · rw [hsame, hoff]
    · rw [hholds] at hfree
      contradiction
    · exact hlater
  · rw [(hmove.of_watching hactivity hsome).1, hoff]

theorem Thread.Move.returns_length_le
    (hmove : Thread.Move writer coordinator thread later next) :
    thread.returns.length ≤ next.returns.length := by
  cases hmove with
  | refuse | see | claimLate | leave => exact Nat.le_succ _
  | _ => exact Nat.le_refl _

theorem Thread.Move.served_of_wins
    (hmove : Thread.Move writer coordinator thread later next)
    (hoff : coordinator.elected = false) (hon : later.elected = true) :
    thread.returns.length < next.returns.length ∨
      thread.returns.length = next.returns.length ∧ next.IsServed writer later := by
  rcases hmove.election_cases with ⟨_, hsame⟩ | ⟨_, _, hholds, _⟩ | ⟨_, _, hlate⟩
  · rw [hsame, hoff] at hon
    contradiction
  · have hle := hmove.returns_length_le
    exact (Nat.lt_or_eq_of_le hle).imp id fun heq => ⟨heq, Or.inl hholds⟩
  · rw [hlate] at hon
    contradiction

end Elections

namespace Ensemble

variable {ω μ : Type} (writer : RequestWriter ω μ)

/-- The call that wins the election by the next step of a thread: the thread,
and how many of its calls have returned. -/
def win? (ensemble : Ensemble ω μ) (index : Nat) : Option (Nat × Nat) :=
  if !ensemble.coordinator.elected &&
      (ensemble.step writer index).coordinator.elected then
    some (index, (ensemble.returns index).length)
  else none

/-- The calls that win the election in a run, one after the other. -/
def wins (ensemble : Ensemble ω μ) (schedule : List Nat) : List (Nat × Nat) :=
  ensemble.trace writer (win? writer) schedule

/-- No call has won twice, since each is served once it has won. -/
structure WonOnce (valid : μ → Prop) (won : List (Nat × Nat))
    (ensemble : Ensemble ω μ) : Prop where
  placed : ∃ log, Placed writer valid log ensemble
  nodup : won.Nodup
  served : ∀ win ∈ won, ∃ thread, ensemble.threads[win.1]? = some thread ∧
    (win.2 < thread.returns.length ∨
      win.2 = thread.returns.length ∧ thread.IsServed writer ensemble.coordinator)

variable {writer} {valid : μ → Prop} {won : List (Nat × Nat)} {ensemble : Ensemble ω μ}

theorem WonOnce.served_move (htends : writer.Tends valid)
    (hwon : WonOnce writer valid won ensemble) {index : Nat} {thread next : Thread}
    {later : Coordinator ω μ} (hthread : ensemble.threads[index]? = some thread)
    (hmove : Thread.Move writer ensemble.coordinator thread later next)
    (win : Nat × Nat) (hwin : win ∈ won) :
    ∃ moved, (ensemble.threads.setIfInBounds index next)[win.1]? = some moved ∧
      (win.2 < moved.returns.length ∨
        win.2 = moved.returns.length ∧ moved.IsServed writer later) := by
  obtain ⟨log, hplaced⟩ := hwon.placed
  obtain ⟨winner, hwinner, hserved⟩ := hwon.served win hwin
  rw [getElem?_setIfInBounds_of_some hthread]
  by_cases heq : index = win.1
  · rw [if_pos heq]
    rw [← heq, hthread, Option.some.injEq] at hwinner
    subst hwinner
    refine ⟨next, rfl, ?_⟩
    rcases hserved with hlt | ⟨hnumber, hserved⟩
    · exact Or.inl (hlt.trans_le hmove.returns_length_le)
    · rcases hserved.move (fun own => hplaced.exists_own_outcome hthread) hmove with
        hlt | ⟨hreturns, hserved⟩
      · exact Or.inl (hnumber ▸ hlt)
      · exact Or.inr ⟨hreturns ▸ hnumber, hserved⟩
  · rw [if_neg heq]
    refine ⟨winner, hwinner, hserved.imp_right ?_⟩
    rintro ⟨hnumber, hholds | ⟨own, outcome, hactivity, hsome⟩⟩
    · exact ⟨hnumber, Or.inl hholds⟩
    · have hgrows := hmove.grows htends.toKeeps hplaced.work_valid
      exact ⟨hnumber, Or.inr ⟨own, outcome, hactivity, hgrows.outcome? hsome⟩⟩

/-- A call that wins the election was not served, so it has not won before. -/
theorem WonOnce.not_won (hwon : WonOnce writer valid won ensemble) {index : Nat}
    {thread next : Thread} {later : Coordinator ω μ}
    (hthread : ensemble.threads[index]? = some thread)
    (hmove : Thread.Move writer ensemble.coordinator thread later next)
    (hoff : ensemble.coordinator.elected = false) (hon : later.elected = true) :
    (index, thread.returns.length) ∉ won := by
  intro hmem
  obtain ⟨winner, hwinner, hserved⟩ := hwon.served _ hmem
  rw [hthread, Option.some.injEq] at hwinner
  subst hwinner
  rcases hserved with hlt | ⟨_, hserved⟩
  · exact Nat.lt_irrefl _ hlt
  · rw [hserved.elected_le hmove hoff] at hon
    contradiction

theorem WonOnce.step (htends : writer.Tends valid) (won : List (Nat × Nat))
    (ensemble : Ensemble ω μ) (index : Nat) (hwon : WonOnce writer valid won ensemble) :
    WonOnce writer valid (won ++ (ensemble.win? writer index).toList)
      (ensemble.step writer index) := by
  obtain ⟨log, hplaced⟩ := hwon.placed
  have hlater := hplaced.step htends log ensemble index
  rcases ensemble.step_cases writer index with
    ⟨hnone, hstep⟩ | ⟨thread, later, next, hthread, hmove, hstep⟩
  · have hwin : ensemble.win? writer index = none := by
      rw [win?, hstep]
      simp
    rw [hwin, Option.toList_none, List.append_nil, hstep]
    exact hwon
  · have hserved := hwon.served_move htends hthread hmove
    have hreturns : (ensemble.returns index).length = thread.returns.length := by
      rw [returns, hthread, List.length_reverse]
    by_cases hwins : ensemble.coordinator.elected = false ∧ later.elected = true
    · obtain ⟨hoff, hon⟩ := hwins
      have hwin : ensemble.win? writer index = some (index, thread.returns.length) := by
        rw [win?, hstep, hreturns, hoff, hon]
        rfl
      rw [hwin, Option.toList_some]
      refine ⟨⟨_, hlater⟩, ?_, ?_⟩
      · refine hwon.nodup.append (List.nodup_singleton _) ?_
        rw [List.disjoint_singleton]
        exact hwon.not_won hthread hmove hoff hon
      · intro win hmem
        rw [hstep]
        rcases List.mem_append.mp hmem with hold | hnew
        · exact hserved win hold
        · rw [List.mem_singleton.mp hnew]
          refine ⟨next, ?_, hmove.served_of_wins hoff hon⟩
          rw [getElem?_setIfInBounds_of_some hthread, if_pos rfl]
    · have hwin : ensemble.win? writer index = none := by
        rw [win?, hstep, if_neg]
        simpa using hwins
      rw [hwin, Option.toList_none, List.append_nil, hstep]
      rw [hstep] at hlater
      exact ⟨⟨_, hlater⟩, hwon.nodup, hserved⟩

/-! ## Runs -/

/-- Where the requests are that were pushed in a run, and what becomes of
them. -/
structure StrandsNone (writer : RequestWriter ω μ) (log : List Push)
    (ensemble : Ensemble ω μ) : Prop where
  one_holder : ∀ (first second : Nat) (thread other : Thread),
    ensemble.threads[first]? = some thread → ensemble.threads[second]? = some other →
      thread.activity.holds = true → other.activity.holds = true → first = second
  /-- Every request is in one of three places, in the order of the pushes. -/
  places : ∃ removed flying waiting : List Push, log = removed ++ flying ++ waiting ∧
    removed.map Push.label =
      ensemble.coordinator.settled.toList.map Pending.label ∧
    flying.map Push.label =
      (ensemble.coordinator.inFlight writer).map Pending.label ∧
    waiting.map Push.label = ensemble.coordinator.queue.map Pending.label
  removed_completed : ∀ pending ∈ ensemble.coordinator.settled.toList,
    pending.isCompleted = true
  flight_held : ensemble.coordinator.inFlight writer ≠ [] →
    ∃ (index : Nat) (thread : Thread), ensemble.threads[index]? = some thread ∧
      thread.activity.holds = true
  outcome_kept : ∀ (schedule : List Nat) (ticket : Nat) (outcome : Outcome),
    ensemble.coordinator.outcome? writer ticket = some outcome →
      (ensemble.run writer schedule).coordinator.outcome? writer ticket = some outcome
  /-- A flush that a thread has won for a request of its own has settled that
  request by the time the election is given up. -/
  own_completed : ∀ (index : Nat) (thread : Thread) (own : Nat),
    ensemble.threads[index]? = some thread → thread.activity = .releasing own →
      (∃ request, log[own]? = some ⟨index, thread.returns.length, request⟩) ∧
        ∃ outcome, ensemble.coordinator.outcome? writer own = some outcome ∧
          (ensemble.step writer index).coordinator.outcome? writer own = some outcome

theorem Placed.exists_places {log : List Push}
    (hplaced : Placed writer valid log ensemble) :
    ∃ removed flying waiting : List Push, log = removed ++ flying ++ waiting ∧
      removed.map Push.label =
        ensemble.coordinator.settled.toList.map Pending.label ∧
      flying.map Push.label =
        (ensemble.coordinator.inFlight writer).map Pending.label ∧
      waiting.map Push.label = ensemble.coordinator.queue.map Pending.label := by
  have hrow := hplaced.row
  rw [Coordinator.pushed, List.map_append, List.map_append] at hrow
  obtain ⟨known, waiting, hlog, hknown, hwaiting⟩ := List.map_eq_append_iff.mp hrow
  obtain ⟨removed, flying, hsplit, hremoved, hflying⟩ := List.map_eq_append_iff.mp hknown
  exact ⟨removed, flying, waiting, by rw [hlog, hsplit], hremoved, hflying, hwaiting⟩

theorem Placed.strandsNone (htends : writer.Tends valid) {log : List Push}
    (hplaced : Placed writer valid log ensemble) : StrandsNone writer log ensemble := by
  obtain ⟨holder, helected, hflushes⟩ := hplaced.flushes
  constructor
  · intro first second thread other hthread hother hholds hholdsToo
    have hfirst := (helected.holds_iff first thread hthread).mp hholds
    have hsecond := (helected.holds_iff second other hother).mp hholdsToo
    exact Option.some.inj (hfirst.symm.trans hsecond)
  · exact hplaced.exists_places
  · exact hplaced.completed
  · intro hflight
    cases holder with
    | none =>
        obtain ⟨state, hlanded⟩ := hflushes
        rw [Coordinator.inFlight, hlanded] at hflight
        contradiction
    | some index =>
        have hthread := Array.getElem?_eq_getElem (helected.lt_size index rfl)
        exact ⟨index, _, hthread, (helected.holds_iff index _ hthread).mpr rfl⟩
  · intro schedule ticket outcome hsome
    exact Placed.outcome_run htends schedule hplaced hsome
  · intro index thread own hthread hactivity
    obtain ⟨outcome, hsome⟩ := hplaced.exists_own_outcome hthread hactivity
    refine ⟨hplaced.own index thread own hthread (by rw [hactivity]; rfl), outcome,
      hsome, ?_⟩
    exact Placed.outcome_run htends [index] hplaced hsome

/-- However the steps of threads that persist and close are interleaved, over
whatever writer: every request that was pushed waits in the queue, is in
flight, or was handed back settled, and none of them is forgotten when a thread
gives the election up.  No call wins the election twice. -/
theorem no_request_is_stranded (htends : writer.Tends valid) (state : ω)
    (plans : List (List Call)) (schedule : List Nat) :
    let start := calling state plans
    StrandsNone writer (start.pushes writer schedule) (start.run writer schedule) ∧
      (start.wins writer schedule).Nodup := by
  intro start
  have hstart : Placed writer valid [] start := Placed.start state plans
  have hplaced : Placed writer valid (start.pushes writer schedule)
      (start.run writer schedule) :=
    run_induction writer (fun log ensemble index => Placed.step htends log ensemble index)
      hstart schedule
  have hwon : WonOnce writer valid (start.wins writer schedule)
      (start.run writer schedule) := by
    refine trace_induction writer (WonOnce.step htends) ⟨⟨_, hstart⟩, List.nodup_nil, ?_⟩
      schedule
    intro win hmem
    contradiction
  exact ⟨hplaced.strandsNone htends, hwon.nodup⟩

end Ensemble

theorem TableWriter.behaviour_tends {σ E : Type} (table : Table σ E) (shape : Shape E) :
    (behaviour table shape).Tends fun delivery =>
      ∃ calls current, Chronicle.Tidy (E := E) ⟨delivery, calls, current⟩ where
  toKeeps := behaviour_keeps table shape
  label_step := by
    rintro delivery ⟨calls, current, htidy⟩
    have hmove := Chronicle.step_move table shape ⟨delivery, calls, current⟩
    have hlabel := hmove.requests_label htidy
    rwa [Chronicle.step_delivery] at hlabel

namespace Ensemble

/-- Two threads, of which the second closes after its request. -/
def closingPlans : List (List Call) :=
  [[.persist (.ofTexts ⟨"space", "a"⟩ ["x"])],
    [.persist (.ofTexts ⟨"space", "b"⟩ ["u"]), .close]]

/-- The writer for messages over a table in memory. -/
def messageWriter : RequestWriter (TableWriter (MemoryTable MessageEntry))
    (Delivery (MemoryTable MessageEntry)) :=
  TableWriter.behaviour MemoryTable.behaviour Shape.message

def closingStart :
    Ensemble (TableWriter (MemoryTable MessageEntry)) (Delivery (MemoryTable MessageEntry)) :=
  calling { table := {}, clock := .counting 5 } closingPlans

def lateSchedule : List Nat :=
  [0, 0, 0, 0, 0, 0, 0, 1, 1, 1, 1]

/-- The first thread has counted and taken its own request when the second one
pushes.  That request waits, with nothing in front of it but the first one. -/
theorem second_request_waits :
    ∃ first second : Push,
      closingStart.pushes messageWriter lateSchedule = [first, second] ∧
      ((closingStart.run messageWriter lateSchedule).coordinator.inFlight
        messageWriter).map Pending.label = [first.label] ∧
      (closingStart.run messageWriter lateSchedule).coordinator.queue.map
        Pending.label = [second.label] ∧
      (closingStart.wins messageWriter lateSchedule).Nodup := by
  obtain ⟨hstranded, hnodup⟩ := no_request_is_stranded
    (TableWriter.behaviour_tends MemoryTable.behaviour Shape.message)
    { table := {}, clock := .counting 5 } closingPlans lateSchedule
  obtain ⟨removed, flying, waiting, hlog, hremoved, hflying, hwaiting⟩ := hstranded.places
  have hsettled :
      (closingStart.run messageWriter lateSchedule).coordinator.settled.size = 0 := by
    decide +kernel
  have hflight : ((closingStart.run messageWriter lateSchedule).coordinator.inFlight
      messageWriter).length = 1 := by
    decide +kernel
  have hqueue :
      (closingStart.run messageWriter lateSchedule).coordinator.queue.length = 1 := by
    decide +kernel
  have hnone := (List.length_map _).symm.trans (congrArg List.length hremoved)
  have hone := (List.length_map _).symm.trans (congrArg List.length hflying)
  have hother := (List.length_map _).symm.trans (congrArg List.length hwaiting)
  rw [List.length_map] at hnone hone hother
  obtain rfl := List.eq_nil_of_length_eq_zero (hnone.trans hsettled)
  obtain ⟨first, rfl⟩ := List.length_eq_one_iff.mp (hone.trans hflight)
  obtain ⟨second, rfl⟩ := List.length_eq_one_iff.mp (hother.trans hqueue)
  exact ⟨first, second, hlog, hflying.symm, hwaiting.symm, hnodup⟩

end Ensemble

end MessageStore
