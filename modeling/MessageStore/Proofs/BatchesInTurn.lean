import MessageStore.Proofs.DeliveryShares

/-!
# Batches in turn

A writer writes batches one after the other, each with what the one before has
left of its table, clock and sequencer.  The table has been through the calls of
all of them, in order, and what was handed over are the entries of these calls
and of the one that is under way, if a batch does not end.
-/

namespace MessageStore

namespace TableWriter

variable {σ E : Type} (table : Table σ E) (shape : Shape E)

/-- All entries that a writer hands to its table while it writes batches one
after the other.  Each batch gets `limit` steps; a batch that is not done by
then is the last one. -/
def handedInTurn (limit : Nat) :
    TableWriter σ → List (List Pending) → List (HandedEntry E)
  | _, [] => []
  | writer, batch :: batches =>
    ((writer.chronicle batch).after table shape limit).handed ++
      match writer.write table shape limit batch with
      | some (_, _, later) => handedInTurn limit later batches
      | none => []

/-- The calls of the table while a writer writes batches one after the other, batch
by batch.  Each batch gets `limit` steps; a batch that is not done by then is the
last one. -/
def callsInTurn (limit : Nat) : TableWriter σ → List (List Pending) → List (List (StoreCall E))
  | _, [] => []
  | writer, batch :: batches =>
    ((writer.chronicle batch).after table shape limit).calls ::
      match writer.write table shape limit batch with
      | some (_, _, later) => callsInTurn limit later batches
      | none => []

/-- The table when these batches have been written, or when the last one has got as
far as it does. -/
def tableInTurn (limit : Nat) : TableWriter σ → List (List Pending) → σ
  | writer, [] => writer.table
  | writer, batch :: batches =>
    match writer.write table shape limit batch with
    | some (_, _, later) => tableInTurn limit later batches
    | none => ((writer.chronicle batch).after table shape limit).delivery.table

variable {table shape}

/-- When a write has ended no call is under way. -/
theorem received_of_write {writer later : TableWriter σ} {batch requests : List Pending}
    {limit : Nat} {result : Except StoreError Unit}
    (hwrite : writer.write table shape limit batch = some (result, requests, later)) :
    let now := (writer.chronicle batch).after table shape limit
    now.current = [] ∧ Chronicle.Received table writer.table now.calls [] later.table := by
  intro now
  obtain ⟨hfinished, -, -, rfl⟩ :=
    (write_eq_some_iff table shape limit writer later batch requests result).mp hwrite
  have hcurrent : now.current = [] :=
    ((Chronicle.tidy_after table shape writer batch limit).eq_nil_of_isFinished hfinished).2
  have hreceived : Chronicle.Received table writer.table now.calls now.current
      now.delivery.table := received_after table shape writer batch limit
  rw [hcurrent] at hreceived
  exact ⟨hcurrent, hreceived⟩

/-- The table has been through the calls of all batches, and what was handed over are
their entries and those of a call that is under way. -/
theorem exists_receivedInTurn (limit : Nat) (writer : TableWriter σ)
    (batches : List (List Pending)) :
    ∃ current, Chronicle.Received table writer.table
        (callsInTurn table shape limit writer batches).flatten current
        (tableInTurn table shape limit writer batches) ∧
      handedInTurn table shape limit writer batches =
        (callsInTurn table shape limit writer batches).flatten.flatMap StoreCall.handed ++
          current := by
  induction batches generalizing writer with
  | nil => exact ⟨[], .start, rfl⟩
  | cons batch batches ih =>
      simp only [callsInTurn, tableInTurn, handedInTurn, Chronicle.handed]
      cases hwrite : writer.write table shape limit batch with
      | none =>
          simp only [List.flatten_singleton, List.append_nil]
          refine ⟨_, ?_, rfl⟩
          exact received_after table shape writer batch limit
      | some returned =>
          obtain ⟨result, requests, later⟩ := returned
          obtain ⟨hcurrent, hreceived⟩ := received_of_write hwrite
          obtain ⟨current, hlater, hhanded⟩ := ih later
          simp only [List.flatten_cons]
          refine ⟨current, ?_, ?_⟩
          · exact hreceived.trans table hlater
          · rw [hcurrent, List.append_nil, hhanded, List.flatMap_append, List.append_assoc]

end TableWriter

end MessageStore
