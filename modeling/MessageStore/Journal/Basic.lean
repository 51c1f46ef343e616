import MessageStore.Journal.Scan
import MessageStore.Storage.Table

/-!
# The journal table

A table that appends its entries to a journal.  All lines of one call are
written at once, so a crash leaves at most one cut line behind what was
written before, and readers stop in front of it.  Opening a journal never
changes what it holds; `repair` cuts it back to its valid part.
-/

namespace MessageStore

structure Journal where
  path : String
  /-- The open file; none once the journal is closed. -/
  file : Option Nat
  synced : Bool
  /-- The records written since the journal was opened. -/
  recordsWritten : Nat := 0
  /-- The octets written since the journal was opened. -/
  bytesWritten : Nat := 0
  deriving Repr, Inhabited

namespace Journal

/-- Opens a journal, with the directories above it and the file itself
created if they are missing. -/
def «open» (volume : Volume) (path : String) (synced : Bool) :
    Except StoreError Journal × Volume :=
  match volume.makeDirectories (Path.above path) with
  | (.error error, volume) => (.error (.io error), volume)
  | (.ok (), volume) =>
    match volume.openForAppend path with
    | (.error error, volume) => (.error (.io error), volume)
    | (.ok file, volume) => (.ok { path, file := some file, synced }, volume)

def append (journal : Journal) (volume : Volume) (count : Nat) (lines : Bytes) :
    Except StoreError Unit × Journal × Volume :=
  match journal.file with
  | none => (.error .closed, journal, volume)
  | some file =>
    if lines.isEmpty then (.ok (), journal, volume)
    else
      let counted := { journal with
        recordsWritten := journal.recordsWritten + count
        bytesWritten := journal.bytesWritten + lines.length }
      match volume.append file lines with
      | (.error error, volume) => (.error (.io error), journal, volume)
      | (.ok (), volume) =>
        if journal.synced then
          match volume.sync file with
          | (.error error, volume) => (.error (.io error), journal, volume)
          | (.ok (), volume) => (.ok (), counted, volume)
        else (.ok (), counted, volume)

/-- Closes a journal.  Only the first time does anything. -/
def close (journal : Journal) (volume : Volume) :
    Except StoreError Unit × Journal × Volume :=
  match journal.file with
  | none => (.ok (), journal, volume)
  | some file =>
    let journal := { journal with file := none }
    match volume.sync file with
    | (.error error, volume) => (.error (.io error), journal, volume)
    | (.ok (), volume) => (.ok (), journal, volume)

/-! ## Reading and repairing -/

variable {E : Type} [TableEntry E]

def scan (volume : Volume) (path : String) :
    Except ReadError (Scan E) × Volume :=
  match volume.read path with
  | (.ok reading, volume) => (.ok (.ofReading reading), volume)
  | (.error error, volume) =>
    if error.kind = .notFound then (.ok .empty, volume)
    else (.error (.io error), volume)

/-- The entries of the journal at a path up to the first invalid line. -/
def readValid (volume : Volume) (path : String) :
    Except ReadError (List E) × Volume :=
  match scan volume path with
  | (.ok scan, volume) => (scan.readValid, volume)
  | (.error error, volume) => (.error error, volume)

/-- Cuts a file down and waits until that is durable. -/
def cutTo (volume : Volume) (path : String) (size : Nat) :
    Except IoError Unit × Volume :=
  match volume.openForWriting path with
  | (.error error, volume) => (.error error, volume)
  | (.ok file, volume) =>
    match volume.truncate file size with
    | (.error error, volume) => (.error error, volume)
    | (.ok (), volume) => volume.sync file

variable (E) in
/-- Cuts the journal at a path back to its valid part, and says how many
octets that removed. -/
def repair (volume : Volume) (path : String) :
    Except StoreError Nat × Volume :=
  match volume.fileSize path with
  | (.error error, volume) =>
    if error.kind = .notFound then (.ok 0, volume) else (.error (.io error), volume)
  | (.ok size, volume) =>
    match scan (E := E) volume path with
    | (.error error, volume) => (.error (.read error), volume)
    | (.ok scan, volume) =>
      if size ≤ scan.valid then (.ok 0, volume)
      else
        match cutTo volume path scan.valid with
        | (.error error, volume) => (.error (.io error), volume)
        | (.ok (), volume) => (.ok (size - scan.valid), volume)

end Journal

/-! ## As a table -/

/-- A journal with the volume that it is on and the lines that the call
under way has made, the last one first. -/
structure JournalTable where
  journal : Journal
  volume : Volume
  lines : List Bytes := []

namespace JournalTable

/-- The behaviour: a call makes a line of every entry that it is offered,
and writes them at its end. -/
def behaviour (E : Type) [TableEntry E] : Table JournalTable E where
  wants _ := true
  take table entry := { table with lines := Record.line entry :: table.lines }
  finish table :=
    let (result, journal, volume) :=
      table.journal.append table.volume table.lines.length
        table.lines.reverse.flatten
    (result, { journal, volume })
  close table :=
    let (result, journal, volume) := table.journal.close table.volume
    (result, { table with journal, volume })

end JournalTable

end MessageStore
