import MessageStore.Json.Fields

/-!
# Positions

Every entry of a table stands at a position: the timestamp of its physical
write and a sequence id that counts the entries of that timestamp.
-/

namespace MessageStore

structure Position where
  /-- Milliseconds since the start of 1970. -/
  timestamp : UInt64
  sequence : UInt16
  deriving DecidableEq, Repr, Inhabited

namespace Position

/-- Positions are ordered by timestamp, then by sequence id. -/
def precedes (first second : Position) : Bool :=
  first.timestamp < second.timestamp ||
    (first.timestamp = second.timestamp && first.sequence ≤ second.sequence)

def sorted (positions : List Position) : List Position :=
  positions.mergeSort precedes

def text (position : Position) : String :=
  toString position.timestamp.toNat ++ "." ++ toString position.sequence.toNat

def toJson (position : Position) : Json :=
  .ofMembers [("timestamp", .ofNat position.timestamp.toNat),
    ("sequence_id", .ofNat position.sequence.toNat)]

/-- A position is an object with two members, or an array of their values. -/
def ofJson? : Json → Option Position
  | .array [timestamp, sequence] =>
    return ⟨← timestamp.asUInt64?, ← sequence.asUInt16?⟩
  | .object members => do
    let members ← Json.members? members
    return ⟨← Json.required? members "timestamp" Json.asUInt64?,
      ← Json.required? members "sequence_id" Json.asUInt16?⟩
  | _ => none

end Position

end MessageStore
