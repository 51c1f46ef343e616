import MessageStore.Storage.Table

/-!
# A table in memory

Keeps every entry stored, in order, with the number of entries of each
physical write.  Failures can be queued: each makes one call fail after it
has taken its entries.  A closed table stores nothing and uses no failure up.
-/

namespace MessageStore

structure MemoryTable (E : Type) where
  entries : Array E := #[]
  /-- The number of entries of each physical write, in order. -/
  writeSizes : Array Nat := #[]
  /-- The failures still to come, the next one first. -/
  failures : List String := []
  closed : Bool := false
  /-- The entries that the call under way has taken. -/
  taken : Array E := #[]
  deriving Repr, Inhabited

namespace MemoryTable

variable {E : Type}

/-- Makes one more of the calls to come fail. -/
def failNext (table : MemoryTable E) (reason : String) : MemoryTable E :=
  { table with failures := table.failures ++ [reason] }

def size (table : MemoryTable E) : Nat :=
  table.entries.size

def lastWriteCount (table : MemoryTable E) : Option Nat :=
  table.writeSizes.back?

def take (table : MemoryTable E) (entry : E) : MemoryTable E :=
  { table with taken := table.taken.push entry }

/-- Stores what the call has taken, unless the table is closed or a failure
is due. -/
def finish (table : MemoryTable E) : Except StoreError Unit × MemoryTable E :=
  if table.closed then (.error .closed, { table with taken := #[] })
  else match table.failures with
    | reason :: failures =>
      (.error (.injected reason), { table with failures, taken := #[] })
    | [] =>
      (.ok (), { table with
        entries := table.entries ++ table.taken
        writeSizes := table.writeSizes.push table.taken.size
        taken := #[] })

def close (table : MemoryTable E) : MemoryTable E :=
  { table with closed := true }

/-- The behaviour: a call takes everything that it is offered. -/
def behaviour : Table (MemoryTable E) E where
  wants _ := true
  take := take
  finish := finish
  close table := (.ok (), table.close)

end MemoryTable

end MessageStore
