import MessageStore.Command.Publish
import MessageStore.Coordinator.Ensemble
import MessageStore.Storage.Memory

/-!
# Measuring

A benchmark lets many publishers share one coordinator.  Every publisher
makes the same number of messages, cut into requests of one size, the last
of which may be smaller, and stops at the first request that fails.
-/

namespace MessageStore

namespace Bench

/-- The sizes of the requests of one publisher. -/
def sizes (messages batch : Nat) : List Nat :=
  let batch := max batch 1
  List.replicate (messages / batch) batch ++
    if messages % batch = 0 then [] else [messages % batch]

/-- The payload of a message: its publisher, its request, and its place in
the request. -/
def payload (publisher request place : Nat) : String :=
  "bench-" ++ toString publisher ++ "-" ++ toString request ++ "-" ++ toString place

def calls (arguments : BenchArguments) (publisher : Nat) : List Call :=
  (sizes arguments.messages arguments.batch).zipIdx.map fun (size, request) =>
    .persist <| .ofTexts arguments.topic <|
      (List.range size).map (payload publisher request)

variable {ω μ : Type}

def publishers (arguments : BenchArguments) (start : ω) : Ensemble ω μ :=
  (List.range arguments.threads).foldl
    (fun ensemble publisher => ensemble.spawn (calls arguments publisher))
    { coordinator := .ofWriter start }

/-- A publisher whose last call has failed makes no more calls. -/
def giveUp (publisher : Thread) : Thread :=
  match publisher.returns with
  | .persisted (.error _) :: _ => { publisher with calls := [] }
  | _ => publisher

def stepPublisher (writer : RequestWriter ω μ) (ensemble : Ensemble ω μ)
    (publisher : Nat) : Ensemble ω μ :=
  let ensemble := ensemble.step writer publisher
  { ensemble with threads := ensemble.threads.modify publisher giveUp }

def runPublishers (writer : RequestWriter ω μ) (ensemble : Ensemble ω μ)
    (schedule : List Nat) : Ensemble ω μ :=
  schedule.foldl (stepPublisher writer) ensemble

/-- How many messages the calls of a publisher wrote, unless one failed. -/
def written (returns : List Return) : Except WriteError Nat :=
  returns.foldlM (fun messages value =>
    match value with
    | .persisted (.ok receipt) => .ok (messages + receipt.entries)
    | .persisted (.error error) => .error error
    | .closed _ => .ok messages) 0

/-- What the publishers came to.  Of several that failed the first one
counts. -/
def report (arguments : BenchArguments) (ensemble : Ensemble ω μ) :
    Except WriteError Report := do
  let counts ← (List.range arguments.threads).mapM fun publisher =>
    written (ensemble.returns publisher)
  return {
    threads := arguments.threads
    requests := (sizes arguments.messages arguments.batch).length * arguments.threads
    messages := counts.foldl (· + ·) 0 }

/-- Runs all publishers, and closes the coordinator if none failed; there is
no answer if that takes more than `limit` rounds. -/
def measure (writer : RequestWriter ω μ) (limit : Nat) (arguments : BenchArguments)
    (start : ω) : Option (Except WriteError Report × Coordinator ω μ) := do
  let ensemble ← (publishers arguments start).runRounds (runPublishers writer) limit
  match report arguments ensemble with
  | .error error => return (.error error, ensemble.coordinator)
  | .ok report =>
    let closing := ensemble.threads.size
    let ensemble ← (ensemble.spawn [.close]).runThread writer closing limit
    match ensemble.returns closing with
    | [.closed (.error error)] => return (.error error, ensemble.coordinator)
    | _ => return (.ok report, ensemble.coordinator)

def conclude (volume : Volume) : Except WriteError Report → Conclusion
  | .error error => { failure := some (.writing error), volume }
  | .ok report => { printed := [.report report], volume }

/-- Makes room for the sizes of the requests, for the publishers, and for the
first request of each of them.  A publisher that cannot have its room stops;
if it is the only one, the benchmark tells so. -/
def makeRoom (arguments : BenchArguments) : Except Failure Unit := do
  let batch := max arguments.batch 1
  Room.reserve (arguments.messages / batch) 8
  Room.reserve arguments.threads 24
  let payloads := if arguments.threads = 0 then 0 else min arguments.messages batch
  match Room.reserve payloads 24 with
  | .error .oversized =>
    .error (if arguments.threads = 1 then .publisherLost else .oversized)
  | result => result

def inMemory (limit : Nat) (arguments : BenchArguments) (clock : Clock)
    (volume : Volume) : Option Conclusion := do
  let table : Table (MemoryTable MessageEntry) MessageEntry := MemoryTable.behaviour
  let (report, coordinator) ←
    measure (TableWriter.behaviour table Shape.message) limit arguments { table := {}, clock }
  let writer ← coordinator.writer?
  return conclude volume (report.map fun report =>
    { report with physicalWrites := some writer.table.writeSizes.size })

def onJournal (limit : Nat) (arguments : BenchArguments) (journal : Journal)
    (clock : Clock) (volume : Volume) : Option Conclusion := do
  let table := JournalTable.behaviour MessageEntry
  let (report, coordinator) ←
    measure (TableWriter.behaviour table Shape.message) limit arguments
      { table := { journal, volume }, clock }
  let writer ← coordinator.writer?
  return conclude writer.table.volume report

/-- Carries the command out, if it takes at most `limit` rounds. -/
def run (limit : Nat) (config : Config) (arguments : BenchArguments)
    (clock : Clock) (volume : Volume) : Option Conclusion :=
  let stopped (failure : Failure) (volume : Volume) : Option Conclusion :=
    some { failure := some failure, volume }
  if arguments.inMemory then
    match Room.forBatch config.writer *> makeRoom arguments with
    | .error failure => stopped failure volume
    | .ok () => inMemory limit arguments clock volume
  else
    match Journal.openRepaired MessageEntry config volume config.messageJournal with
    | (.error failure, volume) => stopped failure volume
    | (.ok journal, volume) =>
      match makeRoom arguments with
      | .error failure => stopped failure volume
      | .ok () => onJournal limit arguments journal clock volume

end Bench

end MessageStore
