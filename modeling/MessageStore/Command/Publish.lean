import MessageStore.Command.Arguments
import MessageStore.Command.Room
import MessageStore.Journal.Basic
import MessageStore.Writer.Basic

/-!
# Publishing

A request goes to the message journal.  If its payloads are meant for the
payload table, they go to the payload journal first, and only when all of
them are there does the message journal get a reference to them.

A journal is repaired before it is opened, so a line that was cut short is
not continued.
-/

namespace MessageStore

namespace Journal

variable (E : Type) [TableEntry E]

/-- Repairs a journal and opens it for a writer, which needs room for its
batches. -/
def openRepaired (config : Config) (volume : Volume) (path : String) :
    Except Failure Journal × Volume :=
  match repair E volume path with
  | (.error cause, volume) => (.error (.repairingJournal path cause), volume)
  | (.ok _, volume) =>
    match «open» volume path config.storage.synced with
    | (.error cause, volume) => (.error (.openingJournal path cause), volume)
    | (.ok journal, volume) =>
      ((Room.forBatch config.writer).map fun () => journal, volume)

end Journal

/-- Writes one request and closes the table behind the writer, if the write
takes at most `limit` steps. -/
def TableWriter.writeOnce {σ E : Type} (table : Table σ E) (shape : Shape E)
    (limit : Nat) (writer : TableWriter σ) (request : Request) :
    Option (Except WriteError Receipt × TableWriter σ) :=
  match writer.write table shape limit [{ request }] with
  | none => none
  | some (result, requests, writer) =>
    let (closed, writer) := writer.close table
    match closed, (requests.head?).bind fun pending => (pending.conclude result).outcome with
    | .error cause, _ => some (.error (.closeTable cause), writer)
    | .ok (), some outcome => some (outcome, writer)
    | .ok (), none => none

namespace PublishArguments

def payloadBytes (arguments : PublishArguments) : List Bytes :=
  arguments.payloads.map Utf8.encode

def messageRequest (arguments : PublishArguments) : Request :=
  .ofPayloads arguments.topic arguments.writePointer
    (if arguments.payloadTable then [] else arguments.payloadBytes)

def payloadRequest (arguments : PublishArguments) : Request :=
  .ofPayloads arguments.topic arguments.writePointer arguments.payloadBytes

end PublishArguments

namespace Publish

/-- Writes a request to the journal at a path, if that takes at most `limit`
steps. -/
def toJournal {E : Type} [TableEntry E] (shape : Shape E) (limit : Nat)
    (config : Config) (path : String) (request : Request) (clock : Clock)
    (volume : Volume) : Option (Except Failure Receipt × Clock × Volume) :=
  match Journal.openRepaired E config volume path with
  | (.error failure, volume) => some (.error failure, clock, volume)
  | (.ok journal, volume) =>
    let writer : TableWriter JournalTable := { table := { journal, volume }, clock }
    match writer.writeOnce (JournalTable.behaviour E) shape limit request with
    | none => none
    | some (outcome, writer) =>
      some (outcome.mapError .writing, writer.clock, writer.table.volume)

/-- Writes the request for the message table; `printed` is what has been
printed before. -/
def messagePhase (limit : Nat) (config : Config) (arguments : PublishArguments)
    (printed : List Printed) (clock : Clock) (volume : Volume) :
    Option Conclusion :=
  match toJournal Shape.message limit config config.messageJournal
      arguments.messageRequest clock volume with
  | none => none
  | some (.error failure, _, volume) =>
    some { printed, failure := some failure, volume }
  | some (.ok receipt, _, volume) =>
    some { printed := printed ++ [.json receipt.toJson], volume }

def run (limit : Nat) (config : Config) (arguments : PublishArguments)
    (clock : Clock) (volume : Volume) : Option Conclusion :=
  if !arguments.payloadTable then
    messagePhase limit config arguments [] clock volume
  else if arguments.writePointer.isNone then
    some { failure := some .pointerMissing, volume }
  else
    match toJournal Shape.payload limit config config.payloadJournal
        arguments.payloadRequest clock volume with
    | none => none
    | some (.error failure, _, volume) => some { failure := some failure, volume }
    | some (.ok receipt, clock, volume) =>
      messagePhase limit config arguments [.json receipt.toJson] clock volume

end Publish

end MessageStore
