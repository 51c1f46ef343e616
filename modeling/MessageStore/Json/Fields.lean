import MessageStore.Json.Parser
import MessageStore.Json.Quoted

/-!
# Typed values in JSON

How the scalar types of the library are written in JSON, and how they and
the members of an object are read.  Integers are numerals in range without
sign, fraction or exponent; a byte string is an array of integers.  Members
of no known name are skipped, but a known name must not occur twice.
-/

namespace MessageStore.Json

/-! ## Writing -/

def ofNat (n : Nat) : Json :=
  .number (Decimal.digits n)

def ofString (text : String) : Json :=
  .string (escape text)

def ofBytes (bytes : Bytes) : Json :=
  .array (bytes.map fun octet => ofNat octet.toNat)

def ofMembers (members : List (String × Json)) : Json :=
  .object (members.map fun (name, value) => (escape name, value))

def ofOption {α : Type} (write : α → Json) : Option α → Json
  | none => .null
  | some value => write value

/-- A member that is left out when there is no value. -/
def optionalMember {α : Type} (name : String) (write : α → Json) :
    Option α → List (String × Json)
  | none => []
  | some value => [(name, write value)]

/-! ## Reading -/

def asBool? : Json → Option Bool
  | .bool value => some value
  | _ => none

/-- An unsigned integer below `bound`. -/
def asNat? (bound : Nat) : Json → Option Nat
  | .number numeral =>
    match Decimal.read? numeral with
    | some n => if n < bound then some n else none
    | none => none
  | _ => none

def asUInt8? (value : Json) : Option UInt8 :=
  (value.asNat? UInt8.size).map Nat.toUInt8

def asUInt16? (value : Json) : Option UInt16 :=
  (value.asNat? UInt16.size).map Nat.toUInt16

def asUInt32? (value : Json) : Option UInt32 :=
  (value.asNat? UInt32.size).map Nat.toUInt32

def asUInt64? (value : Json) : Option UInt64 :=
  (value.asNat? UInt64.size).map Nat.toUInt64

def asString? : Json → Option String
  | .string body => unescape? body
  | _ => none

def asBytes? : Json → Option Bytes
  | .array items => items.mapM asUInt8?
  | _ => none

def asOption? {α : Type} (read : Json → Option α) : Json → Option (Option α)
  | .null => some none
  | value => (read value).map some

/-- The members of an object with their names spelled out, if every name is
well formed. -/
def members? : List (Bytes × Json) → Option (List (String × Json)) :=
  List.mapM fun (key, value) => (unescape? key).map (·, value)

/-- The member of a name, if there is one; two of one name are refused. -/
def member? (members : List (String × Json)) (name : String) :
    Option (Option Json) :=
  match members.filter (·.1 = name) with
  | [] => some none
  | [(_, value)] => some (some value)
  | _ => none

/-- A member that must be there. -/
def required? {α : Type} (members : List (String × Json)) (name : String)
    (read : Json → Option α) : Option α :=
  match member? members name with
  | some (some value) => read value
  | _ => none

/-- A member that may be missing or `null`. -/
def optional? {α : Type} (members : List (String × Json)) (name : String)
    (read : Json → Option α) : Option (Option α) :=
  match member? members name with
  | some (some value) => asOption? read value
  | some none => some none
  | none => none

end MessageStore.Json
