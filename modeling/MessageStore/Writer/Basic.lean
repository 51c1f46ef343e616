import MessageStore.Writer.Delivery

/-!
# Writers

A writer takes drained batches of requests one after the other and brings
each into its table.  The coordinator works with any writer, whose single
batch may take many steps; the writer for a table does it with a delivery.
A writer is driven by one party at a time.
-/

namespace MessageStore

/-- A writer with the state `ω` between batches and `μ` during one. -/
structure RequestWriter (ω μ : Type) where
  start : ω → List Pending → μ
  step : μ → μ
  /-- The requests of the batch, in order. -/
  requests : μ → List Pending
  /-- Whether the next step pulls a payload from a request. -/
  isPulling : μ → Bool
  /-- What the batch came to, once it is done.  Requests that are not settled
  by then are settled by the caller with this result. -/
  result? : μ → Option (Except StoreError Unit × ω)
  close : ω → Except StoreError Unit × ω

structure TableWriter (σ : Type) where
  table : σ
  clock : Clock
  sequencer : Sequencer := {}

namespace TableWriter

variable {σ E : Type} (table : Table σ E) (shape : Shape E)

def deliver (writer : TableWriter σ) (batch : List Pending) : Delivery σ :=
  { table := writer.table, sequencer := writer.sequencer
    clock := writer.clock, ahead := batch }

/-- The writer as a delivery leaves it. -/
def ofDelivery (delivery : Delivery σ) : TableWriter σ :=
  ⟨delivery.table, delivery.clock, delivery.sequencer⟩

def close (writer : TableWriter σ) : Except StoreError Unit × TableWriter σ :=
  let (result, state) := table.close writer.table
  (result, { writer with table := state })

/-- Writes a batch, if that takes at most `limit` steps: what it came to, the
requests and the writer afterwards. -/
def write (limit : Nat) (writer : TableWriter σ) (batch : List Pending) :
    Option (Except StoreError Unit × List Pending × TableWriter σ) :=
  match (writer.deliver batch).run table shape limit with
  | none => none
  | some delivery =>
    some (delivery.result, delivery.requests, ofDelivery delivery)

/-- The writer for a table, as the coordinator drives it. -/
def behaviour : RequestWriter (TableWriter σ) (Delivery σ) where
  start := deliver
  step delivery := delivery.step table shape
  requests delivery := delivery.requests
  isPulling delivery := delivery.isPulling
  result? delivery :=
    if delivery.isFinished then some (delivery.result, ofDelivery delivery)
    else none
  close := close table

end TableWriter

end MessageStore
