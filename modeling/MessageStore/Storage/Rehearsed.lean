import MessageStore.Storage.Memory

/-!
# Rehearsed tables

A table that goes through a list of calls laid down in advance: how many
entries each takes, and whether it then fails.  What a call takes without
failing goes to a table in memory, which also does the work once the list is
used up.
-/

namespace MessageStore

/-- One call laid down in advance. -/
structure RehearsedCall where
  /-- How many entries the call asks for; all of them if absent. -/
  take : Option Nat := none
  error : Option StoreError := none
  deriving Repr, Inhabited

structure RehearsedTable (E : Type) where
  memory : MemoryTable E := {}
  calls : List RehearsedCall := []
  closeError : Option StoreError := none
  deriving Inhabited

namespace RehearsedTable

variable {E : Type}

def wants (table : RehearsedTable E) : Bool :=
  match table.calls with
  | { take := some count, .. } :: _ => table.memory.taken.size < count
  | _ => true

def finish (table : RehearsedTable E) :
    Except StoreError Unit × RehearsedTable E :=
  match table.calls with
  | { error := some error, .. } :: calls =>
    (.error error,
      { table with calls, memory := { table.memory with taken := #[] } })
  | calls =>
    let (result, memory) := table.memory.finish
    (result, { table with memory, calls := calls.tail })

def close (table : RehearsedTable E) :
    Except StoreError Unit × RehearsedTable E :=
  let table := { table with memory := table.memory.close }
  match table.closeError with
  | some error => (.error error, table)
  | none => (.ok (), table)

def behaviour : Table (RehearsedTable E) E where
  wants := wants
  take table entry := { table with memory := table.memory.take entry }
  finish := finish
  close := close

end RehearsedTable

end MessageStore
