import MessageStore.Topic
import MessageStore.Position

/-!
# Table entries

There are two tables.  The message table holds what was published; an entry
without a payload there is a reference to data of the same transaction in
the payload table.  Every entry of the payload table has a payload.

The two kinds are written differently in JSON: a message leaves its write
pointer out when it has none, and may lack it and the payload when read,
while a payload entry always names its write pointer.
-/

namespace MessageStore

structure MessageEntry where
  topic : Topic
  transactional : Bool
  writePointer : Option UInt64
  payload : Option Bytes
  position : Position
  deriving DecidableEq, Repr, Inhabited

structure PayloadEntry where
  topic : Topic
  writePointer : Option UInt64
  payload : Bytes
  position : Position
  deriving DecidableEq, Repr, Inhabited

/-- What the entries of both tables have in common. -/
class TableEntry (E : Type) where
  topic : E → Topic
  position : E → Position
  payload : E → Option Bytes
  toJson : E → Json
  ofJson? : Json → Option E

namespace MessageEntry

/-- Whether the entry refers to data in the payload table. -/
def isReference (entry : MessageEntry) : Bool :=
  entry.payload.isNone

def toJson (entry : MessageEntry) : Json :=
  .ofMembers <|
    [("topic", entry.topic.toJson), ("transactional", .bool entry.transactional)] ++
      Json.optionalMember "transaction_write_pointer"
        (fun pointer => .ofNat pointer.toNat) entry.writePointer ++
      [("payload", .ofOption .ofBytes entry.payload),
        ("publish_timestamp", .ofNat entry.position.timestamp.toNat),
        ("sequence_id", .ofNat entry.position.sequence.toNat)]

def ofJson? : Json → Option MessageEntry
  | .array [topic, transactional, pointer, payload, timestamp, sequence] =>
    return ⟨← Topic.ofJson? topic, ← transactional.asBool?,
      ← pointer.asOption? Json.asUInt64?, ← payload.asOption? Json.asBytes?,
      ⟨← timestamp.asUInt64?, ← sequence.asUInt16?⟩⟩
  | .object members => do
    let members ← Json.members? members
    return ⟨← Json.required? members "topic" Topic.ofJson?,
      ← Json.required? members "transactional" Json.asBool?,
      ← Json.optional? members "transaction_write_pointer" Json.asUInt64?,
      ← Json.optional? members "payload" Json.asBytes?,
      ⟨← Json.required? members "publish_timestamp" Json.asUInt64?,
        ← Json.required? members "sequence_id" Json.asUInt16?⟩⟩
  | _ => none

instance : TableEntry MessageEntry where
  topic := (·.topic)
  position := (·.position)
  payload := (·.payload)
  toJson := toJson
  ofJson? := ofJson?

end MessageEntry

namespace PayloadEntry

def toJson (entry : PayloadEntry) : Json :=
  .ofMembers
    [("topic", entry.topic.toJson),
      ("transaction_write_pointer",
        .ofOption (fun pointer => .ofNat pointer.toNat) entry.writePointer),
      ("payload", .ofBytes entry.payload),
      ("write_timestamp", .ofNat entry.position.timestamp.toNat),
      ("sequence_id", .ofNat entry.position.sequence.toNat)]

def ofJson? : Json → Option PayloadEntry
  | .array [topic, pointer, payload, timestamp, sequence] =>
    return ⟨← Topic.ofJson? topic, ← pointer.asOption? Json.asUInt64?,
      ← payload.asBytes?, ⟨← timestamp.asUInt64?, ← sequence.asUInt16?⟩⟩
  | .object members => do
    let members ← Json.members? members
    return ⟨← Json.required? members "topic" Topic.ofJson?,
      ← Json.optional? members "transaction_write_pointer" Json.asUInt64?,
      ← Json.required? members "payload" Json.asBytes?,
      ⟨← Json.required? members "write_timestamp" Json.asUInt64?,
        ← Json.required? members "sequence_id" Json.asUInt16?⟩⟩
  | _ => none

instance : TableEntry PayloadEntry where
  topic := (·.topic)
  position := (·.position)
  payload := fun entry => some entry.payload
  toJson := toJson
  ofJson? := ofJson?

end PayloadEntry

end MessageStore
