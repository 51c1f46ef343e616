import MessageStore.Writer.Basic

/-!
# The coordinator

Many publishers share one writer without blocking each other.  A request is
pushed onto a queue; whoever then wins the election, by turning a flag from
off to on, takes the requests that are queued at that moment and writes them
all, its own and those of others.

Requests leave the queue in the order in which they entered it, and are
settled in that order.  So all requests ever pushed stand in one row: those
settled, those in flight, those queued.  A request is known by its place in
that row, its ticket.
-/

namespace MessageStore

/-- The requests taken from the queue and not yet handed back. -/
inductive Flight (ω μ : Type) where
  /-- No batch is being written. -/
  | resting (writer : ω) (requests : List Pending)
  /-- The writer is at work on the requests. -/
  | writing (work : μ)

/-- What all publishers share. -/
structure Coordinator (ω μ : Type) where
  /-- The requests that wait, the first one first. -/
  queue : List Pending := []
  flight : Flight ω μ
  /-- The requests settled, in the order in which they were pushed. -/
  settled : Array Pending := #[]
  elected : Bool := false
  closed : Bool := false
  /-- Whether the writer takes no more batches.  Only whoever holds the
  election looks at this. -/
  sealed : Bool := false

/-- The place of a request among all those pushed. -/
abbrev Ticket := Nat

namespace Coordinator

variable {ω μ : Type} (writer : RequestWriter ω μ)

def ofWriter (state : ω) : Coordinator ω μ :=
  { flight := .resting state [] }

def inFlight (coordinator : Coordinator ω μ) : List Pending :=
  match coordinator.flight with
  | .resting _ requests => requests
  | .writing work => writer.requests work

/-- All requests ever pushed, in order. -/
def pushed (coordinator : Coordinator ω μ) : List Pending :=
  coordinator.settled.toList ++ coordinator.inFlight writer ++ coordinator.queue

def nextTicket (coordinator : Coordinator ω μ) : Ticket :=
  coordinator.settled.size + (coordinator.inFlight writer).length +
    coordinator.queue.length

def push (coordinator : Coordinator ω μ) (request : Request) :
    Coordinator ω μ :=
  { coordinator with queue := coordinator.queue ++ [{ request }] }

/-- The outcome of a request, once it is settled.  No request is settled
while it waits in the queue. -/
def outcome? (coordinator : Coordinator ω μ) (ticket : Ticket) :
    Option Outcome :=
  if h : ticket < coordinator.settled.size then coordinator.settled[ticket].outcome
  else
    match (coordinator.inFlight writer)[ticket - coordinator.settled.size]? with
    | some pending => pending.outcome
    | none => none

/-- Moves the first request of the queue into flight. -/
def pop (coordinator : Coordinator ω μ) : Coordinator ω μ :=
  match coordinator.queue, coordinator.flight with
  | pending :: queue, .resting state requests =>
    { coordinator with queue, flight := .resting state (requests ++ [pending]) }
  | _, _ => coordinator

/-- Hands the first request in flight back, settled. -/
def land (coordinator : Coordinator ω μ) (settle : Pending → Pending) :
    Coordinator ω μ :=
  match coordinator.flight with
  | .resting state (pending :: requests) =>
    { coordinator with
      flight := .resting state requests
      settled := coordinator.settled.push (settle pending) }
  | _ => coordinator

def mapWriter (coordinator : Coordinator ω μ) (change : ω → ω) :
    Coordinator ω μ :=
  match coordinator.flight with
  | .resting state requests =>
    { coordinator with flight := .resting (change state) requests }
  | .writing _ => coordinator

def writer? (coordinator : Coordinator ω μ) : Option ω :=
  match coordinator.flight with
  | .resting state _ => some state
  | .writing _ => none

end Coordinator

end MessageStore
