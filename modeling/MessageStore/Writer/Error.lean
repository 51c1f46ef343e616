import MessageStore.Storage.Error
import MessageStore.Topic

/-!
# Failures of a write

What a publisher is told when its request was not written, or when the
writer could not be closed.  One failure of storage can fail many requests;
each of them carries the same cause.
-/

namespace MessageStore

inductive WriteError where
  /-- The writer was closed before. -/
  | closed
  | invalidRequest (topic : Topic) (reason : String)
  | storage (topic : Topic) (cause : StoreError)
  /-- What was still queued at the close could not be written. -/
  | flush (cause : StoreError)
  | closeTable (cause : StoreError)
  deriving DecidableEq, Repr, Inhabited

namespace WriteError

def message : WriteError → String
  | .closed => "message writer is already closed"
  | .invalidRequest topic reason =>
    "invalid publish request for " ++ topic.text ++ ": " ++ reason
  | .storage topic cause =>
    "unable to write messages to " ++ topic.text ++ ": " ++ cause.message
  | .flush cause =>
    "failed to flush pending messages on close: " ++ cause.message
  | .closeTable cause => "failed to close storage table: " ++ cause.message

/-- The failure of storage behind a failed write. -/
def cause? : WriteError → Option StoreError
  | .closed => none
  | .invalidRequest _ _ => none
  | .storage _ cause => some cause
  | .flush cause => some cause
  | .closeTable cause => some cause

/-- The kind of input and output failure that a failed write counts as. -/
def ioKind : WriteError → IoKind
  | .closed => .notConnected
  | .invalidRequest _ _ => .invalidInput
  | .storage _ (.io error) => error.kind
  | .flush (.io error) => error.kind
  | .closeTable (.io error) => error.kind
  | .storage _ _ => .other
  | .flush _ => .other
  | .closeTable _ => .other

end WriteError

end MessageStore
