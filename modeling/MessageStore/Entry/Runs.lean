import MessageStore.Entry

/-!
# Runs of entries

A long list of entries is summed up by its runs: the entries of a run have
one topic and one timestamp, and their sequence ids follow each other.
-/

namespace MessageStore

structure EntryRun where
  topic : Topic
  first : Position
  count : Nat
  deriving DecidableEq, Repr, Inhabited

namespace EntryRun

variable {E : Type} [TableEntry E]

def ofEntry (entry : E) : EntryRun :=
  ⟨TableEntry.topic entry, TableEntry.position entry, 1⟩

def isContinuedBy (run : EntryRun) (entry : E) : Bool :=
  let position := TableEntry.position entry
  run.topic = TableEntry.topic entry &&
    run.first.timestamp = position.timestamp &&
    run.first.sequence.toNat + run.count = position.sequence.toNat

/-- Adds an entry to runs, the last one first. -/
def extend (runs : List EntryRun) (entry : E) : List EntryRun :=
  match runs with
  | run :: before =>
    if run.isContinuedBy entry then { run with count := run.count + 1 } :: before
    else ofEntry entry :: runs
  | [] => [ofEntry entry]

/-- The maximal runs of a list of entries, in order. -/
def ofEntries (entries : List E) : List EntryRun :=
  (entries.foldl extend []).reverse

end EntryRun

end MessageStore
