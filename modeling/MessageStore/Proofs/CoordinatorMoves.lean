import MessageStore.Coordinator.Ensemble
import MessageStore.Proofs.PendingProgress
import Mathlib.Tactic

/-!
# The moves of publishers

Everything that one step of a thread can do to the coordinator and to the
thread itself.  A thread that waits for something and does not get it stays
where it is.  A run of an ensemble is recorded as its row of pushes: which
thread pushed which request, in which of its calls.
-/

namespace MessageStore

namespace Coordinator

/-! ## One request at a time -/

variable {ω μ : Type} {coordinator : Coordinator ω μ} {state : ω} {pending : Pending}
  {queue requests : List Pending}

theorem pop_of_queue_nil (hqueue : coordinator.queue = []) : coordinator.pop = coordinator := by
  unfold pop
  rw [hqueue]

theorem pop_of_resting (hqueue : coordinator.queue = pending :: queue)
    (hflight : coordinator.flight = .resting state requests) :
    coordinator.pop =
      { coordinator with queue, flight := .resting state (requests ++ [pending]) } := by
  unfold pop
  rw [hqueue, hflight]

/-- A pop either takes the first request of the queue into flight or does nothing. -/
theorem pop_cases (coordinator : Coordinator ω μ) :
    coordinator.pop = coordinator ∨
      ∃ pending queue state requests, coordinator.queue = pending :: queue ∧
        coordinator.flight = .resting state requests ∧
        coordinator.pop =
          { coordinator with queue, flight := .resting state (requests ++ [pending]) } := by
  unfold pop
  split
  next hqueue hflight => exact Or.inr ⟨_, _, _, _, hqueue, hflight, rfl⟩
  next => exact Or.inl rfl

theorem land_of_resting_nil (hflight : coordinator.flight = .resting state [])
    (settle : Pending → Pending) : coordinator.land settle = coordinator := by
  unfold land
  rw [hflight]

theorem land_of_resting_cons (hflight : coordinator.flight = .resting state (pending :: requests))
    (settle : Pending → Pending) :
    coordinator.land settle =
      { coordinator with
        flight := .resting state requests
        settled := coordinator.settled.push (settle pending) } := by
  unfold land
  rw [hflight]

/-- The first request in flight is handed back, or nothing is done. -/
theorem land_cases (coordinator : Coordinator ω μ) (settle : Pending → Pending) :
    coordinator.land settle = coordinator ∨
      ∃ state pending requests, coordinator.flight = .resting state (pending :: requests) ∧
        coordinator.land settle =
          { coordinator with
            flight := .resting state requests
            settled := coordinator.settled.push (settle pending) } := by
  unfold land
  split
  next hflight => exact Or.inr ⟨_, _, _, hflight, rfl⟩
  next => exact Or.inl rfl

theorem pop_settled (coordinator : Coordinator ω μ) :
    coordinator.pop.settled = coordinator.settled := by
  unfold pop
  split <;> rfl

theorem pop_flags (coordinator : Coordinator ω μ) :
    coordinator.pop.elected = coordinator.elected ∧
      coordinator.pop.closed = coordinator.closed ∧
      coordinator.pop.sealed = coordinator.sealed := by
  unfold pop
  split <;> exact ⟨rfl, rfl, rfl⟩

theorem land_queue (coordinator : Coordinator ω μ) (settle : Pending → Pending) :
    (coordinator.land settle).queue = coordinator.queue := by
  unfold land
  split <;> rfl

theorem land_flags (coordinator : Coordinator ω μ) (settle : Pending → Pending) :
    (coordinator.land settle).elected = coordinator.elected ∧
      (coordinator.land settle).closed = coordinator.closed ∧
      (coordinator.land settle).sealed = coordinator.sealed := by
  unfold land
  split <;> exact ⟨rfl, rfl, rfl⟩

end Coordinator

namespace Thread

variable {ω μ : Type} (writer : RequestWriter ω μ)

/-- A step of the thread would change nothing: it has no call to make, waits for the
election, or finds the flight where no thread with the election finds it. -/
inductive Stays (coordinator : Coordinator ω μ) (thread : Thread) : Prop
  | idle (hactivity : thread.activity = .idle) (hcalls : thread.calls = [])
  | acquiring (hactivity : thread.activity = .acquiring)
      (helected : coordinator.elected = true)
  | deciding {ticket : Option Ticket} {work : μ}
      (hactivity : thread.activity = .flushing .deciding ticket)
      (hflight : coordinator.flight = .writing work)
  | writing {ticket : Option Ticket} {state : ω} {requests : List Pending}
      (hactivity : thread.activity = .flushing .writing ticket)
      (hflight : coordinator.flight = .resting state requests)
  | closing {flushed : Except StoreError Unit} {work : μ}
      (hactivity : thread.activity = .closing flushed)
      (hflight : coordinator.flight = .writing work)

/-- How a coordinator and a thread can go on when the thread takes a step. -/
inductive Move (coordinator : Coordinator ω μ) (thread : Thread) :
    Coordinator ω μ → Thread → Prop
  | call {request : Request} {calls : List Call}
      (hactivity : thread.activity = .idle)
      (hcalls : thread.calls = .persist request :: calls) :
      Move coordinator thread coordinator
        { thread with activity := .checking request, calls }
  | callClose {calls : List Call} (hactivity : thread.activity = .idle)
      (hcalls : thread.calls = .close :: calls) :
      Move coordinator thread coordinator
        { thread with activity := .claiming, calls }
  | refuse {request : Request} (hactivity : thread.activity = .checking request)
      (hclosed : coordinator.closed = true) :
      Move coordinator thread coordinator
        (thread.return_ (.persisted (.error .closed)))
  | accept {request : Request} (hactivity : thread.activity = .checking request)
      (hopen : coordinator.closed = false) :
      Move coordinator thread coordinator (thread.next (.pushing request))
  | push {request : Request} (hactivity : thread.activity = .pushing request) :
      Move coordinator thread (coordinator.push request)
        (thread.next (.watching (coordinator.nextTicket writer)))
  | see {ticket : Ticket} {outcome : Outcome}
      (hactivity : thread.activity = .watching ticket)
      (hsome : coordinator.outcome? writer ticket = some outcome) :
      Move coordinator thread coordinator (thread.return_ (.persisted outcome))
  | miss {ticket : Ticket} (hactivity : thread.activity = .watching ticket)
      (hnone : coordinator.outcome? writer ticket = none) :
      Move coordinator thread coordinator (thread.next (.electing ticket))
  | lose {ticket : Ticket} (hactivity : thread.activity = .electing ticket)
      (helected : coordinator.elected = true) :
      Move coordinator thread coordinator (thread.next (.watching ticket))
  | win {activity : Activity} {ticket : Option Ticket}
      (hactivity : thread.activity = activity)
      (hwhy : (∃ own, activity = .electing own ∧ ticket = some own) ∨
        activity = .acquiring ∧ ticket = none)
      (helected : coordinator.elected = false) :
      Move coordinator thread { coordinator with elected := true }
        (thread.next (.flushing .counting ticket))
  | count {ticket : Option Ticket}
      (hactivity : thread.activity = .flushing .counting ticket) :
      Move coordinator thread coordinator
        (thread.next (.flushing (.popping coordinator.queue.length) ticket))
  | popEnd {ticket : Option Ticket}
      (hactivity : thread.activity = .flushing (.popping 0) ticket) :
      Move coordinator thread coordinator
        (thread.next (.flushing .deciding ticket))
  | pop {left : Nat} {ticket : Option Ticket}
      (hactivity : thread.activity = .flushing (.popping (left + 1)) ticket) :
      Move coordinator thread coordinator.pop
        (thread.next (.flushing (.popping left) ticket))
  | decideNothing {ticket : Option Ticket} {state : ω}
      (hactivity : thread.activity = .flushing .deciding ticket)
      (hflight : coordinator.flight = .resting state []) :
      Move coordinator thread coordinator
        (thread.next (afterFlush (.ok ()) ticket))
  | decideReject {ticket : Option Ticket} {state : ω} {requests : List Pending}
      (hactivity : thread.activity = .flushing .deciding ticket)
      (hflight : coordinator.flight = .resting state requests)
      (hrequests : requests ≠ []) (hsealed : coordinator.sealed = true) :
      Move coordinator thread coordinator
        (thread.next (.flushing .rejecting ticket))
  | decideWrite {ticket : Option Ticket} {state : ω} {requests : List Pending}
      (hactivity : thread.activity = .flushing .deciding ticket)
      (hflight : coordinator.flight = .resting state requests)
      (hrequests : requests ≠ []) (hsealed : coordinator.sealed = false) :
      Move coordinator thread
        { coordinator with flight := .writing (writer.start state requests) }
        (thread.next (.flushing .writing ticket))
  | rejectEnd {ticket : Option Ticket}
      (hactivity : thread.activity = .flushing .rejecting ticket)
      (hnone : coordinator.inFlight writer = []) :
      Move coordinator thread coordinator
        (thread.next (afterFlush (.ok ()) ticket))
  | reject {ticket : Option Ticket}
      (hactivity : thread.activity = .flushing .rejecting ticket)
      (hsome : coordinator.inFlight writer ≠ []) :
      Move coordinator thread (coordinator.land (·.fail .closed)) thread
  | write {ticket : Option Ticket} {work : μ}
      (hactivity : thread.activity = .flushing .writing ticket)
      (hflight : coordinator.flight = .writing work)
      (hresult : writer.result? work = none) :
      Move coordinator thread
        { coordinator with flight := .writing (writer.step work) } thread
  | written {ticket : Option Ticket} {work : μ} {state : ω}
      {result : Except StoreError Unit}
      (hactivity : thread.activity = .flushing .writing ticket)
      (hflight : coordinator.flight = .writing work)
      (hresult : writer.result? work = some (result, state)) :
      Move coordinator thread
        { coordinator with flight := .resting state (writer.requests work) }
        (thread.next (.flushing (.landing result) ticket))
  | landEnd {ticket : Option Ticket} {result : Except StoreError Unit}
      (hactivity : thread.activity = .flushing (.landing result) ticket)
      (hnone : coordinator.inFlight writer = []) :
      Move coordinator thread coordinator (thread.next (afterFlush result ticket))
  | land {ticket : Option Ticket} {result : Except StoreError Unit}
      (hactivity : thread.activity = .flushing (.landing result) ticket)
      (hsome : coordinator.inFlight writer ≠ []) :
      Move coordinator thread (coordinator.land (·.conclude result)) thread
  | release {ticket : Ticket} (hactivity : thread.activity = .releasing ticket) :
      Move coordinator thread { coordinator with elected := false }
        (thread.next (.watching ticket))
  | claimLate (hactivity : thread.activity = .claiming)
      (hclosed : coordinator.closed = true) :
      Move coordinator thread coordinator (thread.return_ (.closed (.ok ())))
  | claim (hactivity : thread.activity = .claiming)
      (hopen : coordinator.closed = false) :
      Move coordinator thread { coordinator with closed := true }
        (thread.next .acquiring)
  | forbid {flushed : Except StoreError Unit}
      (hactivity : thread.activity = .sealing flushed) :
      Move coordinator thread { coordinator with sealed := true }
        (thread.next (.closing flushed))
  | close {flushed : Except StoreError Unit} {state : ω} {requests : List Pending}
      (hactivity : thread.activity = .closing flushed)
      (hflight : coordinator.flight = .resting state requests) :
      Move coordinator thread
        { coordinator with flight := .resting (writer.close state).2 requests }
        (thread.next (.leaving (closeResult flushed (writer.close state).1)))
  | leave {result : Except WriteError Unit}
      (hactivity : thread.activity = .leaving result) :
      Move coordinator thread { coordinator with elected := false }
        (thread.return_ (.closed result))
  | stay (hstays : thread.Stays coordinator) :
      Move coordinator thread coordinator thread

theorem flushStep_move (thread : Thread) (coordinator : Coordinator ω μ)
    (ticket : Option Ticket) (stage : FlushStage)
    (hactivity : thread.activity = .flushing stage ticket) :
    Move writer coordinator thread
      (thread.flushStep writer coordinator ticket stage).1
      (thread.flushStep writer coordinator ticket stage).2 := by
  cases stage with
  | counting => exact .count hactivity
  | popping left =>
      cases left with
      | zero => exact .popEnd hactivity
      | succ left => exact .pop hactivity
  | deciding =>
      unfold flushStep
      cases hflight : coordinator.flight with
      | writing work =>
          exact .stay (.deciding hactivity hflight)
      | resting state requests =>
          cases requests with
          | nil => exact .decideNothing hactivity hflight
          | cons pending requests =>
              have hne : pending :: requests ≠ [] := List.cons_ne_nil _ _
              simp only [List.isEmpty_cons, Bool.false_eq_true, if_false]
              by_cases hsealed : coordinator.sealed = true
              · rw [if_pos hsealed]
                exact .decideReject hactivity hflight hne hsealed
              · rw [if_neg hsealed]
                rw [Bool.not_eq_true] at hsealed
                exact .decideWrite hactivity hflight hne hsealed
  | rejecting =>
      unfold flushStep
      cases hrequests : coordinator.inFlight writer with
      | nil => exact .rejectEnd hactivity hrequests
      | cons pending requests =>
          exact .reject hactivity (by simp [hrequests])
  | writing =>
      unfold flushStep
      cases hflight : coordinator.flight with
      | resting state requests =>
          exact .stay (.writing hactivity hflight)
      | writing work =>
          simp only
          cases hresult : writer.result? work with
          | none => exact .write hactivity hflight hresult
          | some finished => exact .written hactivity hflight hresult
  | landing result =>
      unfold flushStep
      cases hrequests : coordinator.inFlight writer with
      | nil => exact .landEnd hactivity hrequests
      | cons pending requests =>
          exact .land hactivity (by simp [hrequests])

theorem step_move (thread : Thread) (coordinator : Coordinator ω μ) :
    Move writer coordinator thread (thread.step writer coordinator).1
      (thread.step writer coordinator).2 := by
  unfold step
  cases hactivity : thread.activity with
  | idle =>
      cases hcalls : thread.calls with
      | nil => exact .stay (.idle hactivity hcalls)
      | cons call calls =>
          cases call with
          | persist request => exact .call hactivity hcalls
          | close => exact .callClose hactivity hcalls
  | checking request =>
      cases hclosed : coordinator.closed with
      | true => exact .refuse hactivity hclosed
      | false => exact .accept hactivity hclosed
  | pushing request => exact .push hactivity
  | watching ticket =>
      simp only
      cases houtcome : coordinator.outcome? writer ticket with
      | some outcome => exact .see hactivity houtcome
      | none => exact .miss hactivity houtcome
  | electing ticket =>
      cases helected : coordinator.elected with
      | true => exact .lose hactivity helected
      | false => exact .win hactivity (Or.inl ⟨ticket, rfl, rfl⟩) helected
  | flushing stage ticket =>
      exact thread.flushStep_move writer coordinator ticket stage hactivity
  | releasing ticket => exact .release hactivity
  | claiming =>
      cases hclosed : coordinator.closed with
      | true => exact .claimLate hactivity hclosed
      | false => exact .claim hactivity hclosed
  | acquiring =>
      cases helected : coordinator.elected with
      | true => exact .stay (.acquiring hactivity helected)
      | false => exact .win hactivity (Or.inr ⟨rfl, rfl⟩) helected
  | sealing flushed => exact .forbid hactivity
  | closing flushed =>
      simp only
      cases hflight : coordinator.flight with
      | resting state requests => exact .close hactivity hflight
      | writing work =>
          exact .stay (.closing hactivity hflight)
  | leaving result => exact .leave hactivity

end Thread

/-- A request as it was pushed, with the thread and the number of its call. -/
structure Push where
  thread : Nat
  number : Nat
  request : Request
  deriving DecidableEq, Repr

/-- The request that a thread is about to push. -/
def Activity.pushing? : Activity → Option Request
  | .pushing request => some request
  | _ => none

theorem Activity.pushing?_eq_some_iff (activity : Activity) (request : Request) :
    activity.pushing? = some request ↔ activity = .pushing request := by
  cases activity <;> simp [pushing?]

/-- A thread that is about to push does so. -/
theorem Thread.Move.of_pushing {ω μ : Type} {writer : RequestWriter ω μ}
    {coordinator later : Coordinator ω μ} {thread next : Thread}
    {request : Request} (hactivity : thread.activity = .pushing request)
    (hmove : Thread.Move writer coordinator thread later next) :
    later = coordinator.push request ∧
      next = thread.next (.watching (coordinator.nextTicket writer)) := by
  cases hmove with
  | push hother =>
      rw [hactivity, Activity.pushing.injEq] at hother
      subst hother
      exact ⟨rfl, rfl⟩
  | call hother | callClose hother | refuse hother | accept hother | see hother
  | miss hother | lose hother | count hother | popEnd hother | pop hother
  | decideNothing hother | decideReject hother | decideWrite hother
  | rejectEnd hother | reject hother | write hother | written hother
  | landEnd hother | land hother | release hother | claimLate hother
  | claim hother | forbid hother | close hother | leave hother =>
      rw [hactivity] at hother
      contradiction
  | win hother hwhy =>
      rw [hactivity] at hother
      rcases hwhy with ⟨own, rfl, _⟩ | ⟨rfl, _⟩ <;> contradiction
  | stay hstays =>
      rcases hstays with hother | hother | hother | hother | hother <;>
      · rw [hactivity] at hother
        contradiction

namespace Ensemble

variable {ω μ : Type} (writer : RequestWriter ω μ)

/-- The push that the next step of a thread makes. -/
def push? (ensemble : Ensemble ω μ) (index : Nat) : Option Push :=
  match ensemble.threads[index]? with
  | none => none
  | some thread =>
    thread.activity.pushing?.map fun request =>
      ⟨index, thread.returns.length, request⟩

theorem push?_of_some {ensemble : Ensemble ω μ} {index : Nat} {thread : Thread}
    (hthread : ensemble.threads[index]? = some thread) :
    ensemble.push? index = thread.activity.pushing?.map fun request =>
      ⟨index, thread.returns.length, request⟩ := by
  rw [push?, hthread]

/-- What is noted of the steps of a run, in order. -/
def trace {β : Type} (note : Ensemble ω μ → Nat → Option β) :
    Ensemble ω μ → List Nat → List β
  | _, [] => []
  | ensemble, index :: schedule =>
    (note ensemble index).toList ++
      trace note (ensemble.step writer index) schedule

theorem trace_append {β : Type} (note : Ensemble ω μ → Nat → Option β)
    (ensemble : Ensemble ω μ) (earlier later : List Nat) :
    ensemble.trace writer note (earlier ++ later) =
      ensemble.trace writer note earlier ++
        (ensemble.run writer earlier).trace writer note later := by
  induction earlier generalizing ensemble with
  | nil => rfl
  | cons index earlier ih =>
      rw [List.cons_append, trace, trace, ih, List.append_assoc]
      rfl

/-- What holds before anything is noted and is kept by every step holds after
every run, of what was noted and the ensemble. -/
theorem trace_induction {β : Type} {note : Ensemble ω μ → Nat → Option β}
    {holds : List β → Ensemble ω μ → Prop}
    (hstep : ∀ log ensemble index, holds log ensemble →
      holds (log ++ (note ensemble index).toList) (ensemble.step writer index))
    {ensemble : Ensemble ω μ} (hstart : holds [] ensemble) (schedule : List Nat) :
    holds (ensemble.trace writer note schedule) (ensemble.run writer schedule) := by
  have hrun : ∀ log ensemble, holds log ensemble →
      holds (log ++ trace writer note ensemble schedule)
        (ensemble.run writer schedule) := by
    induction schedule with
    | nil =>
        intro log ensemble hholds
        rw [trace, List.append_nil]
        exact hholds
    | cons index schedule ih =>
        intro log ensemble hholds
        rw [trace, ← List.append_assoc]
        exact ih _ _ (hstep log ensemble index hholds)
  exact hrun [] ensemble hstart

theorem run_append (ensemble : Ensemble ω μ) (earlier later : List Nat) :
    ensemble.run writer (earlier ++ later) = (ensemble.run writer earlier).run writer later :=
  List.foldl_append

def pushes : Ensemble ω μ → List Nat → List Push
  | _, [] => []
  | ensemble, index :: schedule =>
    (ensemble.push? index).toList ++
      pushes (ensemble.step writer index) schedule

theorem pushes_eq_trace (ensemble : Ensemble ω μ) (schedule : List Nat) :
    ensemble.pushes writer schedule = ensemble.trace writer push? schedule := by
  induction schedule generalizing ensemble with
  | nil => rfl
  | cons index schedule ih => rw [pushes, trace, ih]

theorem pushes_append (ensemble : Ensemble ω μ) (earlier later : List Nat) :
    ensemble.pushes writer (earlier ++ later) =
      ensemble.pushes writer earlier ++
        (ensemble.run writer earlier).pushes writer later := by
  simp only [pushes_eq_trace]
  exact trace_append writer push? ensemble earlier later

/-- What holds before the first push and is kept by every step holds after
every run, of the pushes so far and the ensemble. -/
theorem run_induction {holds : List Push → Ensemble ω μ → Prop}
    (hstep : ∀ log ensemble index, holds log ensemble →
      holds (log ++ (ensemble.push? index).toList) (ensemble.step writer index))
    {ensemble : Ensemble ω μ} (hstart : holds [] ensemble) (schedule : List Nat) :
    holds (ensemble.pushes writer schedule) (ensemble.run writer schedule) := by
  rw [pushes_eq_trace]
  exact trace_induction writer hstep hstart schedule

/-- A step moves the thread that takes it, and no other. -/
theorem step_cases (ensemble : Ensemble ω μ) (index : Nat) :
    (ensemble.threads[index]? = none ∧ ensemble.step writer index = ensemble) ∨
      ∃ thread coordinator next,
        ensemble.threads[index]? = some thread ∧
          Thread.Move writer ensemble.coordinator thread coordinator next ∧
          ensemble.step writer index =
            ⟨coordinator, ensemble.threads.setIfInBounds index next⟩ := by
  unfold step
  cases hthread : ensemble.threads[index]? with
  | none => exact Or.inl ⟨rfl, rfl⟩
  | some thread =>
      exact Or.inr ⟨thread, _, _, rfl, thread.step_move writer _, rfl⟩

theorem getElem?_setIfInBounds_of_some {threads : Array Thread} {index : Nat}
    {thread : Thread} (hthread : threads[index]? = some thread) (next : Thread)
    (other : Nat) :
    (threads.setIfInBounds index next)[other]? =
      if index = other then some next else threads[other]? := by
  have hlt : index < threads.size := (Array.getElem?_eq_some_iff.mp hthread).1
  rw [Array.getElem?_setIfInBounds]
  by_cases hother : index = other
  · rw [if_pos hother, if_pos hother, if_pos (hother ▸ hlt)]
  · rw [if_neg hother, if_neg hother]

/-- After a move of one thread every other is as it was. -/
theorem moved_cases {threads : Array Thread} {index other : Nat} {thread next moved : Thread}
    (hthread : threads[index]? = some thread)
    (hmoved : (threads.setIfInBounds index next)[other]? = some moved) :
    (index = other ∧ moved = next) ∨ index ≠ other ∧ threads[other]? = some moved := by
  rw [getElem?_setIfInBounds_of_some hthread] at hmoved
  by_cases hother : index = other
  · rw [if_pos hother, Option.some.injEq] at hmoved
    exact Or.inl ⟨hother, hmoved.symm⟩
  · rw [if_neg hother] at hmoved
    exact Or.inr ⟨hother, hmoved⟩

theorem isDone_cases {thread : Thread} (hdone : thread.isDone = true) :
    thread.activity = .idle ∧ thread.calls = [] := by
  unfold Thread.isDone at hdone
  split at hdone
  next hactivity hcalls => exact ⟨hactivity, hcalls⟩
  next => contradiction

theorem isDone_of_all {ensemble : Ensemble ω μ}
    (hdone : ensemble.threads.all Thread.isDone = true) {index : Nat} {thread : Thread}
    (hthread : ensemble.threads[index]? = some thread) :
    thread.activity = .idle ∧ thread.calls = [] := by
  obtain ⟨hlt, rfl⟩ := Array.getElem?_eq_some_iff.mp hthread
  exact isDone_cases (Array.all_eq_true.mp hdone index hlt)

end Ensemble

end MessageStore
