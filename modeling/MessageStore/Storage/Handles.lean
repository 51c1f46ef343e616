import MessageStore.Storage.Memory

/-!
# Handles of tables in memory

A table in memory is used through handles.  A clone of a handle stands for the
table that the handle stands for, so whatever is done through one of them
shows through all.
-/

namespace MessageStore

/-- What can be done to a table in memory. -/
inductive MemoryCall (E : Type) where
  | store (entries : List E)
  | failNext (reason : String)
  | close
  deriving Repr

inductive MemoryAnswer (E : Type) where
  /-- The result, and the entries that were not pulled. -/
  | stored (result : Except StoreError Unit) (left : List E)
  | noted
  | closed (result : Except StoreError Unit)

def MemoryTable.call {E : Type} (table : MemoryTable E) :
    MemoryCall E → MemoryAnswer E × MemoryTable E
  | .store entries =>
    let (result, table, left) := behaviour.store table entries
    (.stored result left, table)
  | .failNext reason => (.noted, table.failNext reason)
  | .close =>
    let (result, table) := behaviour.close table
    (.closed result, table)

/-- Tables, to begin with an empty one and its handle. -/
structure MemoryHandles (E : Type) where
  tables : Array (MemoryTable E) := #[{}]
  /-- For each handle the table that it stands for. -/
  handles : Array Nat := #[0]

/-- What can be done with handles. -/
inductive HandleStep (E : Type) where
  | call (handle : Nat) (call : MemoryCall E)
  | clone (handle : Nat)
  /-- Makes an empty table. -/
  | new
  deriving Repr

namespace MemoryHandles

variable {E : Type}

/-- What shows through a handle. -/
def table? (shared : MemoryHandles E) (handle : Nat) : Option (MemoryTable E) := do
  let place ← shared.handles[handle]?
  shared.tables[place]?

def call (shared : MemoryHandles E) (handle : Nat) (call : MemoryCall E) :
    Option (MemoryAnswer E × MemoryHandles E) := do
  let place ← shared.handles[handle]?
  let table ← shared.tables[place]?
  let (answer, table) := table.call call
  return (answer, { shared with tables := shared.tables.setIfInBounds place table })

/-- The clone gets the next number. -/
def clone (shared : MemoryHandles E) (handle : Nat) : Option (Nat × MemoryHandles E) := do
  let place ← shared.handles[handle]?
  return (shared.handles.size, { shared with handles := shared.handles.push place })

/-- The handle of the table gets the next number. -/
def new (shared : MemoryHandles E) : Nat × MemoryHandles E :=
  (shared.handles.size,
    { tables := shared.tables.push {}, handles := shared.handles.push shared.tables.size })

/-- A step with a handle that is not there does nothing. -/
def step (shared : MemoryHandles E) : HandleStep E → MemoryHandles E
  | .call handle call => ((shared.call handle call).map Prod.snd).getD shared
  | .clone handle => ((shared.clone handle).map Prod.snd).getD shared
  | .new => shared.new.2

def run (shared : MemoryHandles E) (steps : List (HandleStep E)) : MemoryHandles E :=
  steps.foldl step shared

end MemoryHandles

end MessageStore
