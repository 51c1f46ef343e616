/-!
# Bytes

Payloads, journal files and encoded text are sequences of octets.  They are
kept as lists, so that every scanner in the library is a recursion on its
input and every statement about a file is a statement about a list.
-/

namespace MessageStore

abbrev Bytes := List UInt8

/-- The octets of a text that holds ASCII characters alone. -/
def Bytes.ofAscii (text : String) : Bytes :=
  text.toList.map fun c => c.toNat.toUInt8

end MessageStore
