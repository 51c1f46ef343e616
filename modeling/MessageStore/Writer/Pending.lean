import MessageStore.Position
import MessageStore.Request
import MessageStore.Writer.Error

/-!
# Pending requests

A request on its way into a table.  One payload may have been pulled ahead
of its entry, and once the source has ended it is not polled again.  The
outcome is set once: whoever settles a request later changes nothing.
-/

namespace MessageStore

structure Receipt where
  topic : Topic
  /-- How many entries were written. -/
  entries : Nat
  /-- The positions of the first and the last entry. -/
  first : Option Position
  last : Option Position
  deriving DecidableEq, Repr, Inhabited

abbrev Outcome := Except WriteError Receipt

def Receipt.toJson (receipt : Receipt) : Json :=
  .ofMembers [("topic", receipt.topic.toJson), ("entries", .ofNat receipt.entries),
    ("first", .ofOption Position.toJson receipt.first),
    ("last", .ofOption Position.toJson receipt.last)]

structure Pending where
  request : Request
  /-- A payload that was pulled but has no entry yet. -/
  lookahead : Option Bytes := none
  /-- Whether the source has ended. -/
  exhausted : Bool := false
  entries : Nat := 0
  first : Option Position := none
  last : Option Position := none
  outcome : Option Outcome := none

namespace Pending

def topic (pending : Pending) : Topic :=
  pending.request.topic

def isCompleted (pending : Pending) : Bool :=
  pending.outcome.isSome

/-- Pulls a payload ahead, unless there is one already or the source has
ended. -/
def peek (pending : Pending) : Pending :=
  if pending.lookahead.isSome || pending.exhausted then pending
  else
    let (payload, request) := pending.request.poll
    { pending with request, lookahead := payload, exhausted := payload.isNone }

/-- Whether a look at the request pulls a payload. -/
def isPullable (pending : Pending) : Bool :=
  !pending.isCompleted && pending.lookahead.isNone && !pending.exhausted

/-- Takes the next payload; there is none once the source has ended. -/
def take (pending : Pending) : Option Bytes × Pending :=
  let pending := pending.peek
  (pending.lookahead, { pending with lookahead := none })

/-- Notes that an entry was made at a position. -/
def record (pending : Pending) (position : Position) : Pending :=
  { pending with
    entries := pending.entries + 1
    first := pending.first <|> some position
    last := some position }

def receipt (pending : Pending) : Receipt :=
  ⟨pending.topic, pending.entries, pending.first, pending.last⟩

/-- Sets the outcome, if it is not set yet. -/
def settle (pending : Pending) (outcome : Outcome) : Pending :=
  match pending.outcome with
  | some _ => pending
  | none => { pending with outcome := some outcome }

def succeed (pending : Pending) : Pending :=
  pending.settle (.ok pending.receipt)

def fail (pending : Pending) (error : WriteError) : Pending :=
  pending.settle (.error error)

/-- Fails the request for a failure of storage. -/
def failStorage (cause : StoreError) (pending : Pending) : Pending :=
  pending.fail (.storage pending.topic cause)

/-- Settles a request with what a whole batch came to. -/
def conclude (result : Except StoreError Unit) (pending : Pending) : Pending :=
  match result with
  | .ok () => pending.succeed
  | .error cause => pending.failStorage cause

theorem settle_of_isCompleted {pending : Pending} (h : pending.isCompleted)
    (outcome : Outcome) : pending.settle outcome = pending := by
  unfold settle
  cases hp : pending.outcome with
  | none => simp [isCompleted, hp] at h
  | some _ => rfl

theorem isCompleted_settle (pending : Pending) (outcome : Outcome) :
    (pending.settle outcome).isCompleted := by
  unfold settle
  cases hp : pending.outcome <;> simp [isCompleted, hp]

end Pending

end MessageStore
