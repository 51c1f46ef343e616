import MessageStore.Command.Report
import MessageStore.Config
import MessageStore.Json.Basic
import MessageStore.Writer.Error

/-!
# How a command ends

A command prints lines and then succeeds, or stops with one failure.  What
it printed before the failure stays printed.  A failure shows in the exit
code of the program, unless the program is ended from outside.
-/

namespace MessageStore

inductive Failure where
  | loadingConfig (path : String) (cause : ConfigError)
  | repairingJournal (path : String) (cause : StoreError)
  | openingJournal (path : String) (cause : StoreError)
  | reading (cause : ReadError)
  | writing (cause : WriteError)
  /-- Payloads were meant for the payload table, outside any transaction. -/
  | pointerMissing
  /-- The only publisher of a benchmark stopped in the middle of its work. -/
  | publisherLost
  /-- A block of memory was asked for that is larger than any can be. -/
  | oversized
  /-- There is less memory than was asked for. -/
  | outOfMemory
  deriving DecidableEq, Repr

def Failure.message : Failure → String
  | .loadingConfig path _ => "loading config from " ++ path
  | .repairingJournal path _ => "repairing journal " ++ path
  | .openingJournal path _ => "opening journal " ++ path
  | .reading cause => cause.message
  | .writing cause => cause.message
  | .pointerMissing =>
    "--payload-table needs a transaction write pointer (--tx)"
  | .publisherLost => "bench thread panicked"
  | .oversized => "capacity overflow"
  | .outOfMemory => "memory allocation failed"

/-- The exit code of a program that stops with a failure; none if it is ended
from outside. -/
def Failure.exitCode : Failure → Option Nat
  | .oversized => some 101
  | .outOfMemory => none
  | _ => some 1

inductive Printed where
  | json (value : Json)
  | report (results : Report)

def Printed.lines (elapsed : Duration) : Printed → List String
  | .json value => [Utf8.decodeLossy value.render]
  | .report results => results.lines elapsed

structure Conclusion where
  printed : List Printed := []
  failure : Option Failure := none
  /-- The volume as the command leaves it. -/
  volume : Volume

def Conclusion.exitCode (conclusion : Conclusion) : Option Nat :=
  match conclusion.failure with
  | none => some 0
  | some failure => failure.exitCode

end MessageStore
