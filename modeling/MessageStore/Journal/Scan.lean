import MessageStore.Journal.Record
import MessageStore.Volume

/-!
# Scanning a journal

A scan goes through a journal line by line and stops at the first line that
is not a valid record.  Its result is the valid part, entry by entry, and
what stopped it.  A last line without a line feed is a write that was cut
short, whatever it holds.
-/

namespace MessageStore

/-- Cuts octets into the lines that end, without their line feeds, and what
follows the last line feed.  Lines and octets so far are kept last first. -/
def cutLinesFrom (lines : List Bytes) (line : Bytes) :
    Bytes → List Bytes × Bytes
  | [] => (lines.reverse, line.reverse)
  | octet :: rest =>
    if octet = 0x0A then cutLinesFrom (line.reverse :: lines) [] rest
    else cutLinesFrom lines (octet :: line) rest

/-- The lines that end, and what follows the last line feed. -/
def cutLines (bytes : Bytes) : List Bytes × Bytes :=
  cutLinesFrom [] [] bytes

structure Scan (E : Type) where
  /-- The entries of the valid part in order, each with the offset just past
  its line. -/
  entries : List (E × Nat)
  /-- What stopped the scan before the end of the journal. -/
  fault : Option ReadError
  deriving Repr

namespace Scan

variable {E : Type} [TableEntry E]

def valid (scan : Scan E) : Nat :=
  match scan.entries.getLast? with
  | some (_, offset) => offset
  | none => 0

/-- Reads one line: the entry of a valid record, or what is wrong with the
line of that number. -/
def readLine (number : Nat) (line : Bytes) : Except ReadError E :=
  match Record.parse? line with
  | none => .error (.corrupted number .malformed)
  | some record =>
    if Record.verify record then .ok record.entry
    else .error (.checksumMismatch number)

/-- What a scan finds after the last line that ends. -/
def ending (number : Nat) (tail : Bytes) : Option IoError → Option ReadError
  | some error => some (.io error)
  | none => if tail.isEmpty then none else some (.corrupted number .truncated)

/-- Goes through the lines left.  `number` and `offset` are those of the
next line; the entries found are kept last first. -/
def walk (tail : Bytes) (failure : Option IoError) :
    (number offset : Nat) → (found : List (E × Nat)) → List Bytes → Scan E
  | number, _, found, [] => ⟨found.reverse, ending number tail failure⟩
  | number, offset, found, line :: rest =>
    match readLine number line with
    | .error error => ⟨found.reverse, some error⟩
    | .ok entry =>
      let offset := offset + line.length + 1
      walk tail failure (number + 1) offset ((entry, offset) :: found) rest

def ofReading (reading : Reading) : Scan E :=
  let (lines, tail) := cutLines reading.bytes
  walk tail reading.failure 1 0 [] lines

/-- A journal that is missing scans as an empty one. -/
def empty : Scan E :=
  ⟨[], none⟩

/-- The entries of the valid part.  A failure to read is passed on; any
other fault just ends the journal. -/
def readValid (scan : Scan E) : Except ReadError (List E) :=
  match scan.fault with
  | some (.io error) => .error (.io error)
  | _ => .ok (scan.entries.map (·.1))

end Scan

end MessageStore
