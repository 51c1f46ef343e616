import MessageStore.Entry
import MessageStore.Request
import MessageStore.Writer.Error

/-!
# The shape of entries

How the payloads of a request become entries of one of the two tables, and
what becomes of a request that has none.  In the message table a request of
a transaction without payloads leaves one reference to the payload table,
and any other request without payloads is refused.  In the payload table it
leaves nothing.
-/

namespace MessageStore

/-- What to write for a request without payloads. -/
inductive EmptyRequest where
  /-- One entry without a payload. -/
  | reference
  /-- Nothing; the request succeeds. -/
  | skip
  deriving DecidableEq, Repr

/-- How requests become entries `E`. -/
structure Shape (E : Type) where
  /-- Decides about a request without payloads.  An error fails that request
  alone. -/
  onEmpty : Request → Except WriteError EmptyRequest
  /-- The entry for one payload, or for none in a reference. -/
  entry : Request → Option Bytes → Position → E

namespace Shape

def message : Shape MessageEntry where
  onEmpty request :=
    if request.isTransactional then .ok .reference
    else .error (.invalidRequest request.topic
      "only transactional messages can have an empty payload")
  entry request payload position :=
    ⟨request.topic, request.isTransactional, request.writePointer, payload, position⟩

def payload : Shape PayloadEntry where
  onEmpty _ := .ok .skip
  entry request payload position :=
    ⟨request.topic, request.writePointer, payload.getD [], position⟩

end Shape

end MessageStore
