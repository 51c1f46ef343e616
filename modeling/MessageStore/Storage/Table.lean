import MessageStore.Storage.Error

/-!
# Tables

A table is described by how it goes through one call that stores entries.
The entries of a call are made on demand: the table asks for one after the
other as long as it wants more, and at the end of the call it says whether
it has stored what it took.  A table is driven by one party at a time.
-/

namespace MessageStore

/-- The behaviour of a table for entries `E` with the state `σ`. -/
structure Table (σ E : Type) where
  /-- Whether the call under way asks for another entry. -/
  wants : σ → Bool
  take : σ → E → σ
  finish : σ → Except StoreError Unit × σ
  close : σ → Except StoreError Unit × σ

namespace Table

variable {σ E : Type}

/-- Offers entries to a table until it wants no more or there are no more. -/
def offer (table : Table σ E) : σ → List E → σ × List E
  | state, [] => (state, [])
  | state, entry :: rest =>
    if table.wants state then table.offer (table.take state entry) rest
    else (state, entry :: rest)

/-- One whole call with a list of entries, and the entries not taken. -/
def store (table : Table σ E) (state : σ) (entries : List E) :
    Except StoreError Unit × σ × List E :=
  let (state, left) := table.offer state entries
  let (result, state) := table.finish state
  (result, state, left)

end Table

end MessageStore
