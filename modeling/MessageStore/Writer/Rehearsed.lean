import MessageStore.Writer.Basic

/-!
# Rehearsed writers

A writer without a table.  It settles no request itself and answers each
batch with the next of the results laid down in advance, and with success
once they are used up.  It remembers what it was asked to do.
-/

namespace MessageStore

/-- Something that a rehearsed writer was asked to do. -/
inductive WriterCall where
  /-- To write a batch of requests with these topics. -/
  | write (topics : List Topic)
  | close
  deriving DecidableEq, Repr

structure RehearsedWriter where
  results : List (Option StoreError) := []
  closeError : Option StoreError := none
  /-- What the writer was asked to do, the last thing first. -/
  calls : List WriterCall := []

namespace RehearsedWriter

/-- The result laid down by a failure or its absence. -/
def resultOf : Option StoreError → Except StoreError Unit
  | none => .ok ()
  | some cause => .error cause

/-- A batch, what it will come to, and the writer after it. -/
structure Batch where
  requests : List Pending
  result : Except StoreError Unit
  writer : RehearsedWriter

def start (writer : RehearsedWriter) (requests : List Pending) : Batch :=
  { requests
    result := resultOf (writer.results.head?.join)
    writer := { writer with
      results := writer.results.tail
      calls := .write (requests.map Pending.topic) :: writer.calls } }

def close (writer : RehearsedWriter) :
    Except StoreError Unit × RehearsedWriter :=
  (resultOf writer.closeError, { writer with calls := .close :: writer.calls })

/-- The behaviour: a batch is done as soon as it is started, without a look
at any payload. -/
def behaviour : RequestWriter RehearsedWriter Batch where
  start := start
  step batch := batch
  requests batch := batch.requests
  isPulling _ := false
  result? batch := some (batch.result, batch.writer)
  close := close

end RehearsedWriter

end MessageStore
