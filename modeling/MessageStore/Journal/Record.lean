import MessageStore.Bytes.Crc32
import MessageStore.Entry

/-!
# Journal records

A journal holds one record per line.  A record is an entry with the checksum
of the entry's own text, so a line that was changed is found out even when
it still reads as a record.
-/

namespace MessageStore

structure Record (E : Type) where
  entry : E
  checksum : UInt32
  deriving DecidableEq, Repr

namespace Record

variable {E : Type} [TableEntry E]

/-- The checksum of the text of an entry. -/
def checksumOf (entry : E) : UInt32 :=
  Crc32.checksum (TableEntry.toJson entry).render

def ofEntry (entry : E) : Record E :=
  ⟨entry, checksumOf entry⟩

def verify (record : Record E) : Bool :=
  checksumOf record.entry = record.checksum

def toJson (record : Record E) : Json :=
  .ofMembers [("entry", TableEntry.toJson record.entry),
    ("checksum", .ofNat record.checksum.toNat)]

/-- A record is an object with two members, or an array of their values. -/
def ofJson? : Json → Option (Record E)
  | .array [entry, checksum] =>
    return ⟨← TableEntry.ofJson? entry, ← checksum.asUInt32?⟩
  | .object members => do
    let members ← Json.members? members
    return ⟨← Json.required? members "entry" TableEntry.ofJson?,
      ← Json.required? members "checksum" Json.asUInt32?⟩
  | _ => none

def parse? (text : Bytes) : Option (Record E) :=
  (Json.parse? text).bind ofJson?

/-- The line of an entry in a journal: its record and a line feed. -/
def line (entry : E) : Bytes :=
  (ofEntry entry).toJson.render ++ [0x0A]

end Record

end MessageStore
