import MessageStore.Proofs.DeliverySettlement
import MessageStore.Proofs.RequestPlaces
import MessageStore.Writer.Rehearsed
import Mathlib.Tactic

/-!
# A flush settles what it has counted

A flush reads the length of the queue once and is about the requests counted
then, its snapshot.  It goes through a fixed row of points, one for each step of
its own thread: it takes the snapshot out of the queue, has it written or
refuses it, and hands it back.  Only how long the writer is at work is left to
the writer.

The other threads have no election, so all that they do to the queue, the flight
and the requests handed back is to push: whatever the schedule, the flush stands
at the point that its own steps have brought it to.
-/

namespace MessageStore

/-- What a flush leaves behind. -/
structure Flushed (ω : Type) where
  /-- The requests of the snapshot as the writer left them. -/
  left : List Pending
  handedBack : List Pending
  state : ω
  result : Except StoreError Unit

section Points

variable {ω μ : Type} (writer : RequestWriter ω μ)

namespace RequestWriter

/-- The work on a batch after so many steps. -/
def worked (state : ω) (batch : List Pending) (n : Nat) : μ :=
  writer.step^[n] (writer.start state batch)

/-- The writer has not come to a result in fewer steps. -/
def IsBusyFor (state : ω) (batch : List Pending) (n : Nat) : Prop :=
  ∀ m < n, writer.result? (writer.worked state batch m) = none

end RequestWriter

/-- What a flush of a snapshot comes to, and how many steps of its thread that
takes. -/
inductive FlushEnds (shut : Bool) (state : ω) (snapshot : List Pending) :
    Nat → Flushed ω → Prop
  /-- Neither the writer nor a request is touched. -/
  | nothing (hnone : snapshot = []) : FlushEnds shut state snapshot 3 ⟨[], [], state, .ok ()⟩
  | refused (hsome : snapshot ≠ []) (hshut : shut = true) :
      FlushEnds shut state snapshot (4 + 2 * snapshot.length)
        ⟨snapshot, snapshot.map (·.fail .closed), state, .ok ()⟩
  | written {n : Nat} {result : Except StoreError Unit} {later : ω} (hsome : snapshot ≠ [])
      (hopen : shut = false) (hbusy : writer.IsBusyFor state snapshot n)
      (hresult : writer.result? (writer.worked state snapshot n) = some (result, later)) :
      FlushEnds shut state snapshot (5 + 2 * snapshot.length + n)
        ⟨writer.requests (writer.worked state snapshot n),
          (writer.requests (writer.worked state snapshot n)).map (Pending.conclude result),
          later, result⟩

/-- The point that a flush has reached after so many steps of its thread: what
the thread does next, what is still queued of the snapshot, the flight, and what
has been handed back. -/
inductive FlushPoint (shut : Bool) (state : ω) (snapshot : List Pending)
    (ticket : Option Ticket) (own : Nat) :
    Activity → List Pending → Flight ω μ → List Pending → Prop
  | popping (taken rest : List Pending) (hsplit : taken ++ rest = snapshot)
      (hown : own = 1 + taken.length) :
      FlushPoint shut state snapshot ticket own (.flushing (.popping rest.length) ticket) rest
        (.resting state taken) []
  | deciding (hown : own = 2 + snapshot.length) :
      FlushPoint shut state snapshot ticket own (.flushing .deciding ticket) []
        (.resting state snapshot) []
  | refusing (done rest : List Pending) (hsplit : done ++ rest = snapshot)
      (hsome : snapshot ≠ []) (hshut : shut = true)
      (hown : own = 3 + snapshot.length + done.length) :
      FlushPoint shut state snapshot ticket own (.flushing .rejecting ticket) []
        (.resting state rest) (done.map (·.fail .closed))
  | writing (n : Nat) (hsome : snapshot ≠ []) (hopen : shut = false)
      (hbusy : writer.IsBusyFor state snapshot n) (hown : own = 3 + snapshot.length + n) :
      FlushPoint shut state snapshot ticket own (.flushing .writing ticket) []
        (.writing (writer.worked state snapshot n)) []
  | landing {n : Nat} {result : Except StoreError Unit} {later : ω} (done rest : List Pending)
      (hsome : snapshot ≠ []) (hopen : shut = false) (hbusy : writer.IsBusyFor state snapshot n)
      (hresult : writer.result? (writer.worked state snapshot n) = some (result, later))
      (hsplit : done ++ rest = writer.requests (writer.worked state snapshot n))
      (hown : own = 4 + snapshot.length + n + done.length) :
      FlushPoint shut state snapshot ticket own (.flushing (.landing result) ticket) []
        (.resting later rest) (done.map (Pending.conclude result))
  | ended {flushed : Flushed ω} (hends : FlushEnds writer shut state snapshot own flushed) :
      FlushPoint shut state snapshot ticket own (Thread.afterFlush flushed.result ticket) []
        (.resting flushed.state []) flushed.handedBack

end Points

section Ends

variable {ω μ : Type} {writer : RequestWriter ω μ} {shut : Bool} {state : ω}
  {snapshot : List Pending} {ticket : Option Ticket} {steps own : Nat} {flushed : Flushed ω}

theorem RequestWriter.IsBusyFor.unique {n m : Nat} {result result' : Except StoreError Unit × ω}
    (hbusy : writer.IsBusyFor state snapshot n) (hbusy' : writer.IsBusyFor state snapshot m)
    (hresult : writer.result? (writer.worked state snapshot n) = some result)
    (hresult' : writer.result? (writer.worked state snapshot m) = some result') :
    n = m ∧ result = result' := by
  have hle : ¬n < m := fun hlt => by
    rw [hbusy' n hlt] at hresult
    contradiction
  have hge : ¬m < n := fun hlt => by
    rw [hbusy m hlt] at hresult'
    contradiction
  obtain rfl : n = m := Nat.le_antisymm (Nat.not_lt.mp hge) (Nat.not_lt.mp hle)
  exact ⟨rfl, Option.some.inj (hresult.symm.trans hresult')⟩

theorem FlushEnds.unique {steps' : Nat} {flushed' : Flushed ω}
    (hends : FlushEnds writer shut state snapshot steps flushed)
    (hends' : FlushEnds writer shut state snapshot steps' flushed') :
    steps = steps' ∧ flushed = flushed' := by
  cases hends with
  | nothing hnone =>
      cases hends' with
      | nothing => exact ⟨rfl, rfl⟩
      | refused hsome | written hsome => contradiction
  | refused hsome hshut =>
      cases hends' with
      | refused => exact ⟨rfl, rfl⟩
      | nothing hnone => contradiction
      | written _ hopen =>
          rw [hshut] at hopen
          contradiction
  | written hsome hopen hbusy hresult =>
      cases hends' with
      | nothing hnone => contradiction
      | refused _ hshut =>
          rw [hshut] at hopen
          contradiction
      | written _ _ hbusy' hresult' =>
          obtain ⟨rfl, hsame⟩ := hbusy.unique hbusy' hresult hresult'
          cases hsame
          exact ⟨rfl, rfl⟩

/-- A point that is not the last one lies before the end. -/
theorem FlushPoint.end_cases {activity : Activity} {queued done : List Pending}
    {flight : Flight ω μ} (hlength : ∀ n,
      (writer.requests (writer.worked state snapshot n)).length = snapshot.length)
    (hpoint : FlushPoint writer shut state snapshot ticket own activity queued flight done)
    (hends : FlushEnds writer shut state snapshot steps flushed) :
    (own < steps ∧ ∃ stage, activity = .flushing stage ticket) ∨
      own = steps ∧ activity = Thread.afterFlush flushed.result ticket ∧ queued = [] ∧
        flight = .resting flushed.state [] ∧ done = flushed.handedBack := by
  cases hpoint with
  | ended hends' =>
      obtain ⟨rfl, rfl⟩ := hends'.unique hends
      exact Or.inr ⟨rfl, rfl, rfl, rfl, rfl⟩
  | popping taken rest hsplit hown =>
      refine Or.inl ⟨?_, _, rfl⟩
      have hsum := congrArg List.length hsplit
      rw [List.length_append] at hsum
      cases hends with
      | nothing hnone =>
          rw [hnone, List.length_nil] at hsum
          omega
      | refused | written => omega
  | deciding hown =>
      refine Or.inl ⟨?_, _, rfl⟩
      cases hends with
      | nothing hnone =>
          rw [hnone, List.length_nil] at hown
          omega
      | refused | written => omega
  | refusing done rest hsplit hsome hshut hown =>
      refine Or.inl ⟨?_, _, rfl⟩
      have hsum := congrArg List.length hsplit
      rw [List.length_append] at hsum
      cases hends with
      | nothing hnone => contradiction
      | written _ hopen =>
          rw [hshut] at hopen
          contradiction
      | refused => omega
  | writing n hsome hopen hbusy hown =>
      refine Or.inl ⟨?_, _, rfl⟩
      cases hends with
      | nothing hnone => contradiction
      | refused _ hshut =>
          rw [hshut] at hopen
          contradiction
      | @written m _ _ _ _ _ hresult =>
          have hle : n ≤ m := Nat.not_lt.mp fun hlt => by
            rw [hbusy m hlt] at hresult
            contradiction
          omega
  | landing done rest hsome hopen hbusy hresult hsplit hown =>
      refine Or.inl ⟨?_, _, rfl⟩
      have hsum := congrArg List.length hsplit
      rw [List.length_append, hlength] at hsum
      cases hends with
      | nothing hnone => contradiction
      | refused _ hshut =>
          rw [hshut] at hopen
          contradiction
      | written _ _ hbusy' hresult' =>
          obtain ⟨rfl, -⟩ := hbusy.unique hbusy' hresult hresult'
          omega

theorem FlushPoint.resting {activity : Activity} {queued done : List Pending}
    {flight : Flight ω μ}
    (hpoint : FlushPoint writer shut state snapshot ticket own activity queued flight done)
    (hidle : snapshot = [] ∨ shut = true) : ∃ requests, flight = .resting state requests := by
  have hnone : ¬(snapshot ≠ [] ∧ shut = false) := by
    rintro ⟨hsome, hopen⟩
    rcases hidle with hnone | hshut
    · exact hsome hnone
    · rw [hshut] at hopen
      contradiction
  cases hpoint with
  | popping | deciding | refusing => exact ⟨_, rfl⟩
  | writing n hsome hopen => exact absurd ⟨hsome, hopen⟩ hnone
  | landing done rest hsome hopen => exact absurd ⟨hsome, hopen⟩ hnone
  | ended hends =>
      cases hends with
      | nothing | refused => exact ⟨_, rfl⟩
      | written hsome hopen => exact absurd ⟨hsome, hopen⟩ hnone

end Ends

namespace Coordinator

variable {ω μ : Type} {writer : RequestWriter ω μ} {valid : μ → Prop}
  {begun now : Coordinator ω μ} {state : ω} {ticket : Option Ticket} {own : Nat}
  {pushed : List Pending} {thread : Thread}

/-- So much of the snapshot is still queued in front of what was pushed since the
beginning, and so much is handed back behind what was settled by then. -/
structure Passes (begun : Coordinator ω μ) (pushed queued done : List Pending)
    (now : Coordinator ω μ) : Prop where
  queue_eq : now.queue = queued ++ pushed
  settled_eq : now.settled.toList = begun.settled.toList ++ done
  sealed_eq : now.sealed = begun.sealed

/-- A flush of what was queued at the beginning has come to a point, and what
was pushed since then waits behind. -/
def IsFlushed (writer : RequestWriter ω μ) (begun : Coordinator ω μ) (state : ω)
    (ticket : Option Ticket) (own : Nat) (pushed : List Pending) (now : Coordinator ω μ)
    (activity : Activity) : Prop :=
  ∃ queued done,
    FlushPoint writer begun.sealed state begun.queue ticket own activity queued now.flight done ∧
      Passes begun pushed queued done now

section Steps

variable {taken done rest : List Pending} {n : Nat} {result : Except StoreError Unit}
  {after : ω}

theorem IsFlushed.pop (hsplit : taken ++ rest = begun.queue) (hown : own = 1 + taken.length)
    (hflight : now.flight = .resting state taken) (hpasses : Passes begun pushed rest [] now) :
    IsFlushed writer begun state ticket (own + 1) pushed
      (thread.flushStep writer now ticket (.popping rest.length)).1
      (thread.flushStep writer now ticket (.popping rest.length)).2.activity := by
  cases rest with
  | nil =>
      rw [List.append_nil] at hsplit
      subst hsplit
      exact ⟨[], [], hflight ▸ .deciding (by omega), hpasses⟩
  | cons pending rest =>
      have hpop : now.pop = { now with
          queue := rest ++ pushed, flight := .resting state (taken ++ [pending]) } := by
        rw [Coordinator.pop, hpasses.queue_eq, hflight]
        rfl
      rw [List.length_cons, Thread.flushStep, hpop]
      refine ⟨rest, [], .popping (taken ++ [pending]) rest ?_ ?_, rfl, hpasses.settled_eq,
        hpasses.sealed_eq⟩
      · rw [List.append_assoc]
        exact hsplit
      · rw [List.length_append, List.length_singleton]
        omega

theorem IsFlushed.decide (hown : own = 2 + begun.queue.length)
    (hflight : now.flight = .resting state begun.queue)
    (hpasses : Passes begun pushed [] [] now) :
    IsFlushed writer begun state ticket (own + 1) pushed
      (thread.flushStep writer now ticket .deciding).1
      (thread.flushStep writer now ticket .deciding).2.activity := by
  simp only [Thread.flushStep, hflight]
  split
  next hnone =>
    rw [List.isEmpty_iff] at hnone
    rw [hnone, List.length_nil] at hown
    have hends : FlushEnds writer begun.sealed state begun.queue (own + 1)
        ⟨[], [], state, .ok ()⟩ := by
      rw [hown]
      exact .nothing hnone
    rw [hnone] at hflight
    exact ⟨[], [], hflight ▸ .ended hends, hpasses⟩
  next hsome =>
    rw [List.isEmpty_iff] at hsome
    split
    next hshut =>
      exact ⟨[], [], hflight ▸ .refusing [] begun.queue rfl hsome (hpasses.sealed_eq ▸ hshut)
        (by rw [List.length_nil]; omega), hpasses⟩
    next hopen =>
      rw [Bool.not_eq_true, hpasses.sealed_eq] at hopen
      exact ⟨[], [], .writing 0 hsome hopen (fun m hm => absurd hm (Nat.not_lt_zero m))
        (by omega), hpasses.queue_eq, hpasses.settled_eq, hpasses.sealed_eq⟩

theorem Passes.land {pending : Pending} {settle : Pending → Pending}
    (hpasses : Passes begun pushed [] (done.map settle) now)
    (hflight : now.flight = .resting after (pending :: rest)) :
    (now.land settle).flight = .resting after rest ∧
      Passes begun pushed [] ((done ++ [pending]).map settle) (now.land settle) := by
  rw [Coordinator.land_of_resting_cons hflight]
  refine ⟨rfl, hpasses.queue_eq, ?_, hpasses.sealed_eq⟩
  rw [Array.toList_push, hpasses.settled_eq, List.map_append, List.append_assoc]
  rfl

theorem IsFlushed.refuse (hactivity : thread.activity = .flushing .rejecting ticket)
    (hsplit : done ++ rest = begun.queue) (hsome : begun.queue ≠ [])
    (hshut : begun.sealed = true) (hown : own = 3 + begun.queue.length + done.length)
    (hflight : now.flight = .resting state rest)
    (hpasses : Passes begun pushed [] (done.map (·.fail .closed)) now) :
    IsFlushed writer begun state ticket (own + 1) pushed
      (thread.flushStep writer now ticket .rejecting).1
      (thread.flushStep writer now ticket .rejecting).2.activity := by
  simp only [Thread.flushStep, Coordinator.inFlight, hflight]
  cases rest with
  | nil =>
      rw [List.append_nil] at hsplit
      subst hsplit
      have hends : FlushEnds writer begun.sealed state begun.queue (own + 1)
          ⟨begun.queue, begun.queue.map (·.fail .closed), state, .ok ()⟩ := by
        rw [show own + 1 = 4 + 2 * begun.queue.length by omega]
        exact .refused hsome hshut
      exact ⟨[], _, hflight ▸ .ended hends, hpasses⟩
  | cons pending rest =>
      obtain ⟨hlater, hlanded⟩ := hpasses.land hflight
      rw [List.isEmpty_cons, if_neg Bool.false_ne_true]
      refine ⟨[], _, ?_, hlanded⟩
      rw [hlater, hactivity]
      refine .refusing (done ++ [pending]) rest ?_ hsome hshut ?_
      · rw [List.append_assoc]
        exact hsplit
      · rw [List.length_append, List.length_singleton]
        omega

theorem IsFlushed.work (hactivity : thread.activity = .flushing .writing ticket)
    (hsome : begun.queue ≠ []) (hopen : begun.sealed = false)
    (hbusy : writer.IsBusyFor state begun.queue n) (hown : own = 3 + begun.queue.length + n)
    (hflight : now.flight = .writing (writer.worked state begun.queue n))
    (hpasses : Passes begun pushed [] [] now) :
    IsFlushed writer begun state ticket (own + 1) pushed
      (thread.flushStep writer now ticket .writing).1
      (thread.flushStep writer now ticket .writing).2.activity := by
  simp only [Thread.flushStep, hflight]
  split
  next result later hresult =>
    exact ⟨[], [], .landing [] _ hsome hopen hbusy hresult rfl
      (by rw [List.length_nil, hown]; omega), hpasses.queue_eq, hpasses.settled_eq,
      hpasses.sealed_eq⟩
  next hresult =>
    have hnext : writer.step (writer.worked state begun.queue n) =
        writer.worked state begun.queue (n + 1) :=
      (Function.iterate_succ_apply' _ _ _).symm
    simp only [hnext, hactivity]
    refine ⟨[], [], .writing (n + 1) hsome hopen (fun m hm => ?_) (by omega),
      hpasses.queue_eq, hpasses.settled_eq, hpasses.sealed_eq⟩
    rcases Nat.lt_succ_iff_lt_or_eq.mp hm with hlt | rfl
    · exact hbusy m hlt
    · exact hresult

theorem IsFlushed.land
    (hlength : (writer.requests (writer.worked state begun.queue n)).length =
      begun.queue.length)
    (hactivity : thread.activity = .flushing (.landing result) ticket)
    (hsome : begun.queue ≠ []) (hopen : begun.sealed = false)
    (hbusy : writer.IsBusyFor state begun.queue n)
    (hresult : writer.result? (writer.worked state begun.queue n) = some (result, after))
    (hsplit : done ++ rest = writer.requests (writer.worked state begun.queue n))
    (hown : own = 4 + begun.queue.length + n + done.length)
    (hflight : now.flight = .resting after rest)
    (hpasses : Passes begun pushed [] (done.map (Pending.conclude result)) now) :
    IsFlushed writer begun state ticket (own + 1) pushed
      (thread.flushStep writer now ticket (.landing result)).1
      (thread.flushStep writer now ticket (.landing result)).2.activity := by
  simp only [Thread.flushStep, Coordinator.inFlight, hflight]
  cases rest with
  | nil =>
      rw [List.append_nil] at hsplit
      have hcount := congrArg List.length hsplit
      rw [hlength] at hcount
      have hends : FlushEnds writer begun.sealed state begun.queue (own + 1)
          ⟨done, done.map (Pending.conclude result), after, result⟩ := by
        rw [hsplit, show own + 1 = 5 + 2 * begun.queue.length + n by omega]
        exact .written hsome hopen hbusy hresult
      exact ⟨[], _, hflight ▸ .ended hends, hpasses⟩
  | cons pending rest =>
      obtain ⟨hlater, hlanded⟩ := hpasses.land hflight
      rw [List.isEmpty_cons, if_neg Bool.false_ne_true]
      refine ⟨[], _, ?_, hlanded⟩
      rw [hlater, hactivity]
      refine .landing (done ++ [pending]) rest hsome hopen hbusy hresult ?_ ?_
      · rw [List.append_assoc]
        exact hsplit
      · rw [List.length_append, List.length_singleton]
        omega

end Steps

/-- Each step of the thread brings the flush to the next point. -/
theorem IsFlushed.step
    (hflushed : IsFlushed writer begun state ticket own pushed now thread.activity)
    {stage : FlushStage} (hstage : thread.activity = .flushing stage ticket)
    (hlength : ∀ n,
      (writer.requests (writer.worked state begun.queue n)).length = begun.queue.length) :
    IsFlushed writer begun state ticket (own + 1) pushed (thread.step writer now).1
      (thread.step writer now).2.activity := by
  obtain ⟨queued, done, hpoint, hpasses⟩ := hflushed
  have hstep : thread.step writer now = thread.flushStep writer now ticket stage := by
    rw [Thread.step, hstage]
  rw [hstep]
  generalize hactivity : thread.activity = activity at hpoint hstage
  generalize hflight : now.flight = flight at hpoint
  cases hpoint with
  | popping taken rest hsplit hown =>
      cases hstage
      exact .pop hsplit hown hflight hpasses
  | deciding hown =>
      cases hstage
      exact .decide hown hflight hpasses
  | refusing done rest hsplit hsome hshut hown =>
      cases hstage
      exact .refuse hactivity hsplit hsome hshut hown hflight hpasses
  | writing n hsome hopen hbusy hown =>
      cases hstage
      exact .work hactivity hsome hopen hbusy hown hflight hpasses
  | landing done rest hsome hopen hbusy hresult hsplit hown =>
      cases hstage
      exact .land (hlength _) hactivity hsome hopen hbusy hresult hsplit hown hflight hpasses
  | ended hends => cases ticket <;> contradiction

theorem IsFlushed.push {later : Coordinator ω μ} {more : List Pending} {activity : Activity}
    (hflushed : IsFlushed writer begun state ticket own pushed now activity)
    (hqueue : later.queue = now.queue ++ more) (hflight : later.flight = now.flight)
    (hsettled : later.settled = now.settled) (hsealed : later.sealed = now.sealed) :
    IsFlushed writer begun state ticket own (pushed ++ more) later activity := by
  obtain ⟨queued, done, hpoint, hqueued, hdone, hshut⟩ := hflushed
  refine ⟨queued, done, hflight ▸ hpoint, ?_, hsettled ▸ hdone, hsealed.trans hshut⟩
  rw [hqueue, hqueued, List.append_assoc]

theorem IsFlushed.activity_cases {activity : Activity}
    (hflushed : IsFlushed writer begun state ticket own pushed now activity) :
    (∃ stage, activity = .flushing stage ticket) ∨
      ∃ flushed, FlushEnds writer begun.sealed state begun.queue own flushed ∧
        activity = Thread.afterFlush flushed.result ticket := by
  obtain ⟨queued, done, hpoint, -⟩ := hflushed
  generalize now.flight = flight at hpoint
  cases hpoint with
  | popping | deciding | refusing | writing | landing => exact Or.inl ⟨_, rfl⟩
  | ended hends => exact Or.inr ⟨_, hends, rfl⟩

end Coordinator

namespace Ensemble

variable {ω μ : Type} {writer : RequestWriter ω μ} {valid : μ → Prop}

/-- The requests that a schedule has the threads push, as they wait in the
queue. -/
def pushedBy (writer : RequestWriter ω μ) (ensemble : Ensemble ω μ) (schedule : List Nat) :
    List Pending :=
  (ensemble.pushes writer schedule).map fun push => Pending.fresh push.request

/-- The flush of the only thread with the election has come to a point. -/
structure Flushing (writer : RequestWriter ω μ) (begun : Coordinator ω μ) (state : ω)
    (ticket : Option Ticket) (index own : Nat) (pushed : List Pending) (now : Ensemble ω μ) :
    Prop where
  elected : now.Elected (some index)
  flushed : ∃ thread, now.threads[index]? = some thread ∧
    Coordinator.IsFlushed writer begun state ticket own pushed now.coordinator thread.activity

section

variable {begun : Coordinator ω μ} {now : Ensemble ω μ} {state : ω} {ticket : Option Ticket}
  {index own : Nat} {pushed : List Pending}

theorem pushedBy_cons (now : Ensemble ω μ) (first : Nat) (schedule : List Nat) :
    now.pushedBy writer (first :: schedule) =
      (now.push? first).toList.map (fun push => Pending.fresh push.request) ++
        (now.step writer first).pushedBy writer schedule := by
  rw [pushedBy, pushes, List.map_append]
  rfl

/-- A thread without the election changes nothing but the end of the queue as
long as another one has it. -/
theorem Elected.step_other (writer : RequestWriter ω μ) (helected : now.Elected (some index))
    {other : Nat}
    (hother : other ≠ index) :
    (now.step writer other).Elected (some index) ∧
      (now.step writer other).threads[index]? = now.threads[index]? ∧
      (now.step writer other).coordinator.queue = now.coordinator.queue ++
        (now.push? other).toList.map (fun push => Pending.fresh push.request) ∧
      (now.step writer other).coordinator.flight = now.coordinator.flight ∧
      (now.step writer other).coordinator.settled = now.coordinator.settled ∧
      (now.step writer other).coordinator.sealed = now.coordinator.sealed := by
  rcases now.step_cases writer other with
    ⟨hnone, hstep⟩ | ⟨thread, later, next, hthread, hmove, hstep⟩
  · rw [hstep, push?, hnone]
    exact ⟨helected, rfl, (List.append_nil _).symm, rfl, rfl, rfl⟩
  · have hholds : thread.activity.holds = false :=
      helected.holds_eq_false hthread fun heq => hother (Option.some.inj heq).symm
    have hsealed : later.sealed = now.coordinator.sealed := by
      rcases hmove.flags_cases with ⟨-, -, hsame⟩ | ⟨-, -, rfl, -⟩ | ⟨flushed, hactivity, -⟩
      · exact hsame
      · rfl
      · rw [hactivity] at hholds
        contradiction
    have hkept := helected.move hthread hmove
    rw [hstep, push?_of_some hthread]
    have hsame : (now.threads.setIfInBounds other next)[index]? = now.threads[index]? := by
      rw [getElem?_setIfInBounds_of_some hthread, if_neg hother]
    rcases hmove.bystander_cases hholds with
      ⟨-, hoff, -⟩ | ⟨request, hpushing, hnext, rfl⟩ | ⟨hpushing, hnext, hqueue, hsettled, hflight⟩
    · have hon := helected.elected_eq
      rw [hoff] at hon
      contradiction
    · rw [holderAfter, hnext, hholds] at hkept
      rw [hpushing]
      exact ⟨hkept, hsame, rfl, rfl, rfl, hsealed⟩
    · rw [holderAfter, hnext, hholds] at hkept
      rw [hpushing]
      exact ⟨hkept, hsame, by simpa using hqueue, hflight, hsettled, hsealed⟩

theorem Flushing.other (hflushing : Flushing writer begun state ticket index own pushed now)
    {other : Nat} (hother : other ≠ index) :
    Flushing writer begun state ticket index own
      (pushed ++ (now.push? other).toList.map fun push => Pending.fresh push.request)
      (now.step writer other) := by
  obtain ⟨helected, thread, hthread, hflushed⟩ := hflushing
  obtain ⟨hkept, hsame, hqueue, hflight, hsettled, hsealed⟩ :=
    helected.step_other writer hother
  exact ⟨hkept, thread, hsame.trans hthread, hflushed.push hqueue hflight hsettled hsealed⟩

theorem Flushing.self (hflushing : Flushing writer begun state ticket index own pushed now)
    (hlength : ∀ n,
      (writer.requests (writer.worked state begun.queue n)).length = begun.queue.length)
    (hwork : ∀ flushed, ¬FlushEnds writer begun.sealed state begun.queue own flushed) :
    Flushing writer begun state ticket index (own + 1)
      (pushed ++ (now.push? index).toList.map fun push => Pending.fresh push.request)
      (now.step writer index) := by
  obtain ⟨helected, thread, hthread, hflushed⟩ := hflushing
  rcases hflushed.activity_cases with ⟨stage, hstage⟩ | ⟨flushed, hends, -⟩
  · have hnext := hflushed.step hstage hlength
    have hholds : (thread.step writer now.coordinator).2.activity.holds = true := by
      rcases hnext.activity_cases with ⟨stage, hactivity⟩ | ⟨flushed, -, hactivity⟩
      · rw [hactivity]
        rfl
      · rw [hactivity]
        exact Thread.holds_afterFlush _ _
    have hstep : now.step writer index = ⟨(thread.step writer now.coordinator).1,
        now.threads.setIfInBounds index (thread.step writer now.coordinator).2⟩ := by
      rw [Ensemble.step, hthread]
    have hkept := helected.move hthread (thread.step_move writer now.coordinator)
    rw [holderAfter, if_pos hholds] at hkept
    rw [hstep, push?_of_some hthread, hstage]
    refine ⟨hkept, (thread.step writer now.coordinator).2, ?_, ?_⟩
    · rw [getElem?_setIfInBounds_of_some hthread, if_pos rfl]
    · exact (List.append_nil pushed).symm ▸ hnext
  · exact absurd hends (hwork flushed)

theorem Flushing.run (hflushing : Flushing writer begun state ticket index own pushed now)
    (hlength : ∀ n,
      (writer.requests (writer.worked state begun.queue n)).length = begun.queue.length)
    (schedule : List Nat)
    (hwork : ∀ steps flushed, FlushEnds writer begun.sealed state begun.queue steps flushed →
      own + schedule.count index ≤ steps) :
    Flushing writer begun state ticket index (own + schedule.count index)
      (pushed ++ now.pushedBy writer schedule) (now.run writer schedule) := by
  induction schedule generalizing now own pushed with
  | nil =>
      rw [List.count_nil, pushedBy, pushes, List.map_nil, List.append_nil]
      exact hflushing
  | cons first schedule ih =>
      rw [pushedBy_cons, ← List.append_assoc]
      by_cases hfirst : first = index
      · subst hfirst
        rw [List.count_cons_self, Nat.add_comm (schedule.count first), ← Nat.add_assoc] at hwork ⊢
        refine ih (hflushing.self hlength fun flushed hends => ?_) hwork
        have hle := hwork own flushed hends
        omega
      · rw [List.count_cons_of_ne hfirst] at hwork ⊢
        exact ih (hflushing.other hfirst) hwork

end

end Ensemble

/-! ## What a writer makes of its batch -/

theorem RequestWriter.Tends.valid_worked {ω μ : Type} {writer : RequestWriter ω μ}
    {valid : μ → Prop} (htends : writer.Tends valid) (state : ω) (batch : List Pending) (n : Nat) :
    valid (writer.worked state batch n) ∧
      (writer.requests (writer.worked state batch n)).map Pending.label =
        batch.map Pending.label := by
  induction n with
  | zero =>
      refine ⟨htends.valid_start state batch, ?_⟩
      rw [RequestWriter.worked, Function.iterate_zero_apply, htends.requests_start]
  | succ n ih =>
      have hnext : writer.worked state batch (n + 1) =
          writer.step (writer.worked state batch n) :=
        Function.iterate_succ_apply' _ _ _
      rw [hnext]
      exact ⟨htends.valid_step ih.1, (htends.label_step ih.1).trans ih.2⟩

theorem RequestWriter.Tends.length_worked {ω μ : Type} {writer : RequestWriter ω μ}
    {valid : μ → Prop} (htends : writer.Tends valid) (state : ω) (batch : List Pending) (n : Nat) :
    (writer.requests (writer.worked state batch n)).length = batch.length := by
  have hlabels := congrArg List.length (htends.valid_worked state batch n).2
  rwa [List.length_map, List.length_map] at hlabels

/-- A request that is settled keeps its outcome; any other one is told what the
batch came to. -/
structure Pending.Concludes (result : Except StoreError Unit) (pending final : Pending) :
    Prop where
  label_eq : final.label = pending.label
  kept : ∀ outcome, pending.outcome = some outcome → final.outcome = some outcome
  succeeded : pending.outcome = none → result = .ok () →
    final.outcome = some (.ok pending.receipt)
  failed : pending.outcome = none → ∀ cause, result = .error cause →
    final.outcome = some (.error (.storage pending.topic cause))

theorem Pending.concludes (result : Except StoreError Unit) (pending : Pending) :
    pending.Concludes result (pending.conclude result) where
  label_eq := pending.label_conclude result
  kept := pending.keeps_conclude result
  succeeded := by
    rintro hopen rfl
    exact settle_outcome hopen _
  failed := by
    rintro hopen cause rfl
    exact settle_outcome hopen _

/-- Every request of the snapshot is handed back settled, in its place. -/
structure Flushed.Settles {ω : Type} (flushed : Flushed ω) (shut : Bool)
    (snapshot : List Pending) : Prop where
  labels_eq : flushed.handedBack.map Pending.label = snapshot.map Pending.label
  completed : ∀ final ∈ flushed.handedBack, final.isCompleted = true
  refused : shut = true →
    List.Forall₂ (fun pending final =>
      pending.outcome = none → final.outcome = some (.error .closed)) snapshot flushed.handedBack
  concluded : shut = false →
    List.Forall₂ (Pending.Concludes flushed.result) flushed.left flushed.handedBack

theorem FlushEnds.settles {ω μ : Type} {writer : RequestWriter ω μ} {valid : μ → Prop}
    (htends : writer.Tends valid) {shut : Bool} {state : ω} {snapshot : List Pending}
    {steps : Nat} {flushed : Flushed ω}
    (hends : FlushEnds writer shut state snapshot steps flushed) :
    flushed.Settles shut snapshot := by
  cases hends with
  | nothing hnone =>
      rw [hnone]
      exact ⟨rfl, List.forall_mem_nil _, fun _ => .nil, fun _ => .nil⟩
  | refused hsome hshut =>
      refine ⟨?_, ?_, fun _ => ?_, fun hnot => ?_⟩
      · rw [List.map_map]
        exact List.map_congr_left fun pending _ => pending.label_settle _
      · exact List.forall_mem_map.mpr fun pending _ => pending.isCompleted_settle _
      · rw [List.forall₂_map_right_iff]
        exact List.forall₂_same.mpr fun pending _ hopen => Pending.settle_outcome hopen _
      · rw [hshut] at hnot
        contradiction
  | @written n result later hsome hnot hbusy hresult =>
      refine ⟨?_, ?_, fun hshut => ?_, fun _ => ?_⟩
      · rw [← (htends.valid_worked state snapshot n).2, List.map_map]
        exact List.map_congr_left fun pending _ => pending.label_conclude result
      · exact List.forall_mem_map.mpr fun pending _ => pending.isCompleted_conclude result
      · rw [hshut] at hnot
        contradiction
      · rw [List.forall₂_map_right_iff]
        exact List.forall₂_same.mpr fun pending _ => pending.concludes result

namespace Ensemble

variable {ω μ : Type} {writer : RequestWriter ω μ} {valid : μ → Prop}

/-- The flush is at its first point when its thread has read the length of the
queue. -/
theorem Flushing.counted {before : Ensemble ω μ} {index : Nat} {thread : Thread}
    {ticket : Option Ticket} {state : ω} (helected : before.Elected (some index))
    (hthread : before.threads[index]? = some thread)
    (hactivity : thread.activity = .flushing .counting ticket)
    (hflight : before.coordinator.flight = .resting state []) :
    Flushing writer before.coordinator state ticket index 1 [] (before.step writer index) := by
  have hstep : before.step writer index = ⟨before.coordinator,
      before.threads.setIfInBounds index
        (thread.next (.flushing (.popping before.coordinator.queue.length) ticket))⟩ := by
    rw [Ensemble.step, hthread]
    simp only [Thread.step, hactivity]
    rfl
  have hmove : Thread.Move writer before.coordinator thread _ _ := .count hactivity
  have hkept := helected.move hthread hmove
  have hpoint : FlushPoint writer before.coordinator.sealed state before.coordinator.queue ticket 1
      (.flushing (.popping before.coordinator.queue.length) ticket) before.coordinator.queue
      before.coordinator.flight [] := by
    rw [hflight]
    exact .popping [] before.coordinator.queue rfl rfl
  rw [hstep]
  refine ⟨hkept, thread.next (.flushing (.popping before.coordinator.queue.length) ticket), ?_,
    before.coordinator.queue, [], hpoint, (List.append_nil _).symm, (List.append_nil _).symm, rfl⟩
  rw [getElem?_setIfInBounds_of_some hthread, if_pos rfl]

/-- A flush takes what was queued when it read the length of the queue, all of
it and nothing else, and hands it back settled.

Its thread is the only one with the election, nothing is in flight, and the next
step reads the length; after that the threads take steps in any order.  The flush
is at work until its thread has made the steps that it takes, whatever the others
do.  At that moment the snapshot has left the queue in order and stands settled
behind what was settled before, nothing is in flight, and what was pushed since
then waits in order.  The writer is not at work at any moment if the snapshot is
empty or the writer is closed.  Only a writer that comes to no result keeps a
flush from its end. -/
theorem flush_settles_its_snapshot (htends : writer.Tends valid) {before : Ensemble ω μ}
    {index : Nat} {thread : Thread} {ticket : Option Ticket} {state : ω}
    (helected : before.Elected (some index)) (hthread : before.threads[index]? = some thread)
    (hactivity : thread.activity = .flushing .counting ticket)
    (hflight : before.coordinator.flight = .resting state []) (rest : List Nat) :
    let snapshot := before.coordinator.queue
    let shut := before.coordinator.sealed
    let own := rest.count index + 1
    let after := before.run writer (index :: rest)
    let activity := after.threads[index]?.map Thread.activity
    (∀ steps flushed, FlushEnds writer shut state snapshot steps flushed →
      flushed.Settles shut snapshot ∧
      (own < steps → ∃ stage, activity = some (.flushing stage ticket)) ∧
      (own = steps → activity = some (Thread.afterFlush flushed.result ticket) ∧
        after.coordinator.queue = before.pushedBy writer (index :: rest) ∧
        after.coordinator.flight = .resting flushed.state [] ∧
        after.coordinator.settled.toList =
          before.coordinator.settled.toList ++ flushed.handedBack) ∧
      (own ≤ steps → snapshot = [] ∨ shut = true →
        ∃ requests, after.coordinator.flight = .resting state requests)) ∧
    ((∀ steps flushed, ¬FlushEnds writer shut state snapshot steps flushed) →
      ∃ stage, activity = some (.flushing stage ticket)) := by
  intro snapshot shut own after activity
  have hlength := htends.length_worked state snapshot
  have hpushed : before.pushedBy writer (index :: rest) =
      (before.step writer index).pushedBy writer rest := by
    rw [pushedBy_cons, push?_of_some hthread, hactivity]
    rfl
  have hrun : (∀ steps flushed, FlushEnds writer shut state snapshot steps flushed →
      own ≤ steps) →
      Flushing writer before.coordinator state ticket index own
        (before.pushedBy writer (index :: rest)) after := by
    intro hwork
    have hcounted : Flushing writer before.coordinator state ticket index 1 []
        (before.step writer index) := .counted helected hthread hactivity hflight
    have hafter := hcounted.run hlength rest fun steps flushed hends => by
      have hle := hwork steps flushed hends
      omega
    rw [List.nil_append, Nat.add_comm, ← hpushed] at hafter
    exact hafter
  refine ⟨fun steps flushed hends => ⟨hends.settles htends, ?_⟩, fun hnever => ?_⟩
  · have hstands : own ≤ steps → ∃ last queued done,
        after.threads[index]? = some last ∧
        FlushPoint writer shut state snapshot ticket own last.activity queued
          after.coordinator.flight done ∧
        after.coordinator.queue = queued ++ before.pushedBy writer (index :: rest) ∧
        after.coordinator.settled.toList = before.coordinator.settled.toList ++ done := by
      intro hle
      obtain ⟨-, last, hlast, queued, done, hpoint, hqueued, hdone, -⟩ :=
        hrun fun steps' flushed' hends' => (hends.unique hends').1 ▸ hle
      exact ⟨last, queued, done, hlast, hpoint, hqueued, hdone⟩
    refine ⟨fun hlt => ?_, fun heq => ?_, fun hle hidle => ?_⟩
    · obtain ⟨last, queued, done, hlast, hpoint, -, -⟩ := hstands hlt.le
      have hactive : activity = some last.activity := congrArg (Option.map Thread.activity) hlast
      rcases hpoint.end_cases hlength hends with ⟨-, stage, hstage⟩ | ⟨heq, -⟩
      · exact ⟨stage, hactive.trans (congrArg some hstage)⟩
      · exact absurd heq hlt.ne
    · obtain ⟨last, queued, done, hlast, hpoint, hqueued, hdone⟩ := hstands heq.le
      have hactive : activity = some last.activity := congrArg (Option.map Thread.activity) hlast
      rcases hpoint.end_cases hlength hends with
        ⟨hlt, -⟩ | ⟨-, hlast, rfl, hflown, rfl⟩
      · exact absurd heq hlt.ne
      · exact ⟨hactive.trans (congrArg some hlast), hqueued, hflown, hdone⟩
    · obtain ⟨last, queued, done, -, hpoint, -, -⟩ := hstands hle
      exact hpoint.resting hidle
  · obtain ⟨-, last, hlast, hflushed⟩ := hrun fun steps flushed hends =>
      absurd hends (hnever steps flushed)
    have hactive : activity = some last.activity := congrArg (Option.map Thread.activity) hlast
    rcases hflushed.activity_cases with ⟨stage, hstage⟩ | ⟨flushed, hends, -⟩
    · exact ⟨stage, hactive.trans (congrArg some hstage)⟩
    · exact absurd hends (hnever own flushed)

end Ensemble

theorem RehearsedWriter.behaviour_tends : behaviour.Tends fun _ => True where
  valid_start _ _ := trivial
  valid_step _ := trivial
  requests_start _ _ := rfl
  requests_step _ := Pending.forall₂_keeps_refl _
  label_step _ := rfl

namespace Ensemble

/-- Three threads with a request each over a writer that fails once. -/
def failingStart : Ensemble RehearsedWriter RehearsedWriter.Batch :=
  calling { results := [some (.injected "full")] }
    [[.persist (.ofTexts ⟨"space", "a"⟩ ["x"])], [.persist (.ofTexts ⟨"space", "b"⟩ ["y"])],
      [.persist (.ofTexts ⟨"space", "c"⟩ ["z"])]]

/-- The first thread has won the election, and two requests wait. -/
def countingStart : Ensemble RehearsedWriter RehearsedWriter.Batch :=
  failingStart.run RehearsedWriter.behaviour [0, 0, 0, 1, 1, 1, 0, 0]

theorem elected_countingStart : countingStart.Elected (some 0) := by
  have hplaced : Placed RehearsedWriter.behaviour _ _ countingStart :=
    run_induction RehearsedWriter.behaviour (Placed.step RehearsedWriter.behaviour_tends)
      (Placed.start _ _) _
  obtain ⟨holder, helected, -⟩ := hplaced.flushes
  obtain ⟨thread, hthread, hholds⟩ : ∃ thread, countingStart.threads[0]? = some thread ∧
      thread.activity.holds = true := ⟨_, rfl, rfl⟩
  rwa [(helected.holds_iff 0 thread hthread).mp hholds] at helected

/-- The third thread pushes while the first one flushes.  The two requests that
were counted are told why they were not stored, and the third one waits. -/
theorem late_request_is_left_queued :
    let after := countingStart.run RehearsedWriter.behaviour
      (0 :: ([2, 2, 2] ++ List.replicate 8 0))
    after.coordinator.settled.toList.map Pending.outcome =
        [some (.error (.storage ⟨"space", "a"⟩ (.injected "full"))),
          some (.error (.storage ⟨"space", "b"⟩ (.injected "full")))] ∧
      after.coordinator.queue.map Pending.topic = [⟨"space", "c"⟩] := by
  intro after
  obtain ⟨hsettles, -⟩ := flush_settles_its_snapshot RehearsedWriter.behaviour_tends
    elected_countingStart rfl rfl rfl ([2, 2, 2] ++ List.replicate 8 0)
  -- The writer is done as soon as it has started.
  obtain ⟨-, -, hended, -⟩ := hsettles 9 _ (.written (n := 0) (by decide +kernel) rfl
    (fun m hm => absurd hm m.not_lt_zero) rfl)
  obtain ⟨-, hqueue, -, hsettled⟩ := hended rfl
  exact ⟨(congrArg _ hsettled).trans rfl, (congrArg _ hqueue).trans rfl⟩

end Ensemble

end MessageStore
