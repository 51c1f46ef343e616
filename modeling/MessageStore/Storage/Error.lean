/-!
# Failures of storage

What can go wrong between a table and the medium that it keeps its entries
on, and how each failure is put into words.
-/

namespace MessageStore

inductive IoKind where
  | notFound
  | permissionDenied
  | writeZero
  | storageFull
  | interrupted
  | unexpectedEof
  | invalidData
  | notConnected
  | timedOut
  | brokenPipe
  | other
  | invalidInput
  | isADirectory
  | notADirectory
  | alreadyExists
  | invalidFilename
  deriving DecidableEq, Repr, Inhabited

def IoKind.all : List IoKind :=
  [.notFound, .permissionDenied, .writeZero, .storageFull, .interrupted,
    .unexpectedEof, .invalidData, .notConnected, .timedOut, .brokenPipe, .other,
    .invalidInput, .isADirectory, .notADirectory, .alreadyExists, .invalidFilename]

/-- The words of the operating system for a kind of failure. -/
def IoKind.systemText : IoKind → String
  | .notFound => "No such file or directory (os error 2)"
  | .permissionDenied => "Permission denied (os error 13)"
  | .writeZero => "failed to write whole buffer"
  | .storageFull => "No space left on device (os error 28)"
  | .interrupted => "Interrupted system call (os error 4)"
  | .unexpectedEof => "failed to fill whole buffer"
  | .invalidData => "stream did not contain valid UTF-8"
  | .notConnected => "Transport endpoint is not connected (os error 107)"
  | .timedOut => "Connection timed out (os error 110)"
  | .brokenPipe => "Broken pipe (os error 32)"
  | .other => "Input/output error (os error 5)"
  | .invalidInput => "Invalid argument (os error 22)"
  | .isADirectory => "Is a directory (os error 21)"
  | .notADirectory => "Not a directory (os error 20)"
  | .alreadyExists => "File exists (os error 17)"
  | .invalidFilename => "File name too long (os error 36)"

inductive IoError where
  /-- Reported by the operating system, in its words. -/
  | system (kind : IoKind)
  /-- Reported by a table, in words of its own. -/
  | described (kind : IoKind) (text : String)
  deriving DecidableEq, Repr, Inhabited

def IoError.kind : IoError → IoKind
  | .system kind => kind
  | .described kind _ => kind

def IoError.message : IoError → String
  | .system kind => kind.systemText
  | .described _ text => text

/-- What makes a line of a journal unreadable. -/
inductive Flaw where
  /-- The line does not end. -/
  | truncated
  /-- The line does not hold a record. -/
  | malformed
  /-- Anything else, in words. -/
  | described (text : String)
  deriving DecidableEq, Repr, Inhabited

def Flaw.message : Flaw → String
  | .truncated => "truncated record"
  | .malformed => "malformed record"
  | .described text => text

/-- Why reading a journal stopped before its end. -/
inductive ReadError where
  | corrupted (line : Nat) (flaw : Flaw)
  | checksumMismatch (line : Nat)
  | io (error : IoError)
  deriving DecidableEq, Repr, Inhabited

def ReadError.message : ReadError → String
  | .corrupted line flaw =>
    "corrupted record at line " ++ toString line ++ ": " ++ flaw.message
  | .checksumMismatch line => "checksum mismatch at line " ++ toString line
  | .io error => "IO error: " ++ error.message

/-- Why a table did not store, read or repair. -/
inductive StoreError where
  | io (error : IoError)
  /-- An entry could not be written as a record. -/
  | json
  | read (error : ReadError)
  | closed
  /-- A failure that was asked for in advance. -/
  | injected (reason : String)
  deriving DecidableEq, Repr, Inhabited

def StoreError.message : StoreError → String
  | .io error => "IO error: " ++ error.message
  | .json => "JSON error: malformed record"
  | .read error => "journal read error: " ++ error.message
  | .closed => "table is closed"
  | .injected reason => "injected failure: " ++ reason

end MessageStore
