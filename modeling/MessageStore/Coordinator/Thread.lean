import MessageStore.Coordinator.Basic

/-!
# Publishers

A publisher is a thread that makes calls one after the other: it persists
requests and may close the coordinator.  What a thread is about to do next
is its activity, and one step carries out one action that other threads
cannot see half of: a look at a flag, a change of a flag, a push, the length
of the queue, one pop, one step of the writer, one request settled.

A thread that persists a request pushes it and then looks for its outcome
again and again; whenever it is not there yet, the thread stands for
election, and flushes the queue if it wins.
-/

namespace MessageStore

inductive Call where
  | persist (request : Request)
  | close

inductive Return where
  | persisted (outcome : Outcome)
  | closed (result : Except WriteError Unit)

def Return.outcome? : Return → Option Outcome
  | .persisted outcome => some outcome
  | .closed _ => none

def Return.closing? : Return → Option (Except WriteError Unit)
  | .persisted _ => none
  | .closed result => some result

/-- How far a flush has got. -/
inductive FlushStage where
  /-- About to read the length of the queue. -/
  | counting
  /-- About to take `left` more requests from the queue. -/
  | popping (left : Nat)
  /-- About to decide what becomes of the requests taken. -/
  | deciding
  /-- Refusing them, one by one, since the writer is closed. -/
  | rejecting
  /-- Driving the writer. -/
  | writing
  /-- Handing them back, one by one, with what the batch came to. -/
  | landing (result : Except StoreError Unit)

/-- What a thread does next. -/
inductive Activity where
  | idle
  /-- Looks whether the coordinator is closed. -/
  | checking (request : Request)
  | pushing (request : Request)
  /-- Looks for the outcome of its request. -/
  | watching (ticket : Ticket)
  /-- Tries to turn the flag on. -/
  | electing (ticket : Ticket)
  /-- Flushes the queue: for a request of its own, or to close. -/
  | flushing (stage : FlushStage) (ticket : Option Ticket)
  /-- Turns the flag off, and looks for the outcome again. -/
  | releasing (ticket : Ticket)
  /-- Tries to be the one that closes. -/
  | claiming
  /-- Tries to turn the flag on, in order to close. -/
  | acquiring
  /-- Forbids further batches. -/
  | sealing (flushed : Except StoreError Unit)
  /-- Closes the writer. -/
  | closing (flushed : Except StoreError Unit)
  /-- Turns the flag off, and returns. -/
  | leaving (result : Except WriteError Unit)

structure Thread where
  activity : Activity := .idle
  calls : List Call := []
  /-- What the calls made so far returned, the last one first. -/
  returns : List Return := []

/-- What closing comes to: a failure of the last flush goes first. -/
def closeResult (flushed closed : Except StoreError Unit) :
    Except WriteError Unit :=
  match flushed, closed with
  | .error cause, _ => .error (.flush cause)
  | .ok (), .error cause => .error (.closeTable cause)
  | .ok (), .ok () => .ok ()

namespace Thread

variable {ω μ : Type} (writer : RequestWriter ω μ)

def isDone (thread : Thread) : Bool :=
  match thread.activity, thread.calls with
  | .idle, [] => true
  | _, _ => false

def next (thread : Thread) (activity : Activity) : Thread :=
  { thread with activity }

def return_ (thread : Thread) (value : Return) : Thread :=
  { thread with activity := .idle, returns := value :: thread.returns }

/-- What comes after a flush. -/
def afterFlush (result : Except StoreError Unit) : Option Ticket → Activity
  | some ticket => .releasing ticket
  | none => .sealing result

def flushStep (thread : Thread) (coordinator : Coordinator ω μ)
    (ticket : Option Ticket) : FlushStage → Coordinator ω μ × Thread
  | .counting =>
    (coordinator,
      thread.next (.flushing (.popping coordinator.queue.length) ticket))
  | .popping 0 => (coordinator, thread.next (.flushing .deciding ticket))
  | .popping (left + 1) =>
    (coordinator.pop, thread.next (.flushing (.popping left) ticket))
  | .deciding =>
    match coordinator.flight with
    | .resting state requests =>
      if requests.isEmpty then
        (coordinator, thread.next (afterFlush (.ok ()) ticket))
      else if coordinator.sealed then
        (coordinator, thread.next (.flushing .rejecting ticket))
      else
        ({ coordinator with flight := .writing (writer.start state requests) },
          thread.next (.flushing .writing ticket))
    | .writing _ => (coordinator, thread)
  | .rejecting =>
    if (coordinator.inFlight writer).isEmpty then
      (coordinator, thread.next (afterFlush (.ok ()) ticket))
    else (coordinator.land (·.fail .closed), thread)
  | .writing =>
    match coordinator.flight with
    | .writing work =>
      match writer.result? work with
      | some (result, state) =>
        ({ coordinator with flight := .resting state (writer.requests work) },
          thread.next (.flushing (.landing result) ticket))
      | none => ({ coordinator with flight := .writing (writer.step work) }, thread)
    | .resting _ _ => (coordinator, thread)
  | .landing result =>
    if (coordinator.inFlight writer).isEmpty then
      (coordinator, thread.next (afterFlush result ticket))
    else (coordinator.land (·.conclude result), thread)

def step (thread : Thread) (coordinator : Coordinator ω μ) :
    Coordinator ω μ × Thread :=
  match thread.activity with
  | .idle =>
    match thread.calls with
    | [] => (coordinator, thread)
    | .persist request :: calls =>
      (coordinator, { thread with activity := .checking request, calls })
    | .close :: calls => (coordinator, { thread with activity := .claiming, calls })
  | .checking request =>
    if coordinator.closed then
      (coordinator, thread.return_ (.persisted (.error .closed)))
    else (coordinator, thread.next (.pushing request))
  | .pushing request =>
    (coordinator.push request,
      thread.next (.watching (coordinator.nextTicket writer)))
  | .watching ticket =>
    match coordinator.outcome? writer ticket with
    | some outcome => (coordinator, thread.return_ (.persisted outcome))
    | none => (coordinator, thread.next (.electing ticket))
  | .electing ticket =>
    if coordinator.elected then (coordinator, thread.next (.watching ticket))
    else
      ({ coordinator with elected := true },
        thread.next (.flushing .counting (some ticket)))
  | .flushing stage ticket => thread.flushStep writer coordinator ticket stage
  | .releasing ticket =>
    ({ coordinator with elected := false }, thread.next (.watching ticket))
  | .claiming =>
    if coordinator.closed then (coordinator, thread.return_ (.closed (.ok ())))
    else ({ coordinator with closed := true }, thread.next .acquiring)
  | .acquiring =>
    if coordinator.elected then (coordinator, thread)
    else
      ({ coordinator with elected := true },
        thread.next (.flushing .counting none))
  | .sealing flushed =>
    ({ coordinator with sealed := true }, thread.next (.closing flushed))
  | .closing flushed =>
    match coordinator.flight with
    | .resting state requests =>
      let (closed, state) := writer.close state
      ({ coordinator with flight := .resting state requests },
        thread.next (.leaving (closeResult flushed closed)))
    | .writing _ => (coordinator, thread)
  | .leaving result =>
    ({ coordinator with elected := false }, thread.return_ (.closed result))

end Thread

end MessageStore
