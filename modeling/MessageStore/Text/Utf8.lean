import MessageStore.Bytes

/-!
# UTF-8

`encode` writes a text as octets.  Reading goes through `pieces`, which cuts
any octet sequence into characters and maximal ill-formed parts: a part ends
before the first octet that cannot continue the character begun.  Strict
reading accepts when there is no ill-formed part; lossy reading puts one
replacement character in the place of each.
-/

namespace MessageStore.Utf8

def encode (text : String) : Bytes :=
  text.toList.flatMap String.utf8EncodeChar

/-- A character begun but not complete: how many octets it still needs, the
bits read so far, and the range that the next octet must lie in. -/
structure Partial where
  owed : Nat
  bits : Nat
  low : UInt8
  high : UInt8

/-- What an octet that starts a character says about it. -/
inductive Lead where
  /-- The octet is a character by itself. -/
  | single
  /-- More octets belong to the character. -/
  | opens (begun : Partial)
  /-- No character starts with this octet. -/
  | invalid

/-- Classifies a first octet.  The narrowed ranges after `E0`, `ED`, `F0`
and `F4` exclude overlong forms, surrogates and values beyond `10FFFF`. -/
def lead (octet : UInt8) : Lead :=
  let bits := octet.toNat
  if octet < 0x80 then .single
  else if octet < 0xC2 then .invalid
  else if octet < 0xE0 then .opens ⟨1, bits - 0xC0, 0x80, 0xBF⟩
  else if octet = 0xE0 then .opens ⟨2, 0, 0xA0, 0xBF⟩
  else if octet = 0xED then .opens ⟨2, 0xD, 0x80, 0x9F⟩
  else if octet < 0xF0 then .opens ⟨2, bits - 0xE0, 0x80, 0xBF⟩
  else if octet = 0xF0 then .opens ⟨3, 0, 0x90, 0xBF⟩
  else if octet < 0xF4 then .opens ⟨3, bits - 0xF0, 0x80, 0xBF⟩
  else if octet = 0xF4 then .opens ⟨3, 4, 0x80, 0x8F⟩
  else .invalid

/-- Takes an octet that must start a character. -/
def start (octet : UInt8) (found : List (Option Char)) :
    Option Partial × List (Option Char) :=
  match lead octet with
  | .single => (none, some (Char.ofNat octet.toNat) :: found)
  | .opens begun => (some begun, found)
  | .invalid => (none, none :: found)

/-- Takes one octet.  An octet that cannot continue the character begun
ends an ill-formed part and is looked at afresh. -/
def step : Option Partial → List (Option Char) → UInt8 →
    Option Partial × List (Option Char)
  | none, found, octet => start octet found
  | some begun, found, octet =>
    if begun.low ≤ octet ∧ octet ≤ begun.high then
      let bits := begun.bits * 64 + (octet.toNat - 0x80)
      if begun.owed ≤ 1 then (none, some (Char.ofNat bits) :: found)
      else (some ⟨begun.owed - 1, bits, 0x80, 0xBF⟩, found)
    else start octet (none :: found)

/-- Cuts the rest of the octets, given the pieces found so far in reverse. -/
def piecesFrom : Option Partial → List (Option Char) → Bytes → List (Option Char)
  | none, found, [] => found.reverse
  | some _, found, [] => (none :: found).reverse
  | begun, found, octet :: rest =>
    let (begun, found) := step begun found octet
    piecesFrom begun found rest

/-- The characters of an octet sequence in order, with `none` for each
maximal ill-formed part. -/
def pieces (bytes : Bytes) : List (Option Char) :=
  piecesFrom none [] bytes

/-- The text that the octets encode, if all of them are well formed. -/
def decode? (bytes : Bytes) : Option String :=
  ((pieces bytes).mapM id).map String.ofList

/-- The text that the octets encode, with U+FFFD for each ill-formed part. -/
def decodeLossy (bytes : Bytes) : String :=
  String.ofList ((pieces bytes).map (·.getD '\uFFFD'))

-- A sequence cut short yields one ill-formed part.
example : decodeLossy [0x61, 0xE2, 0x82, 0x62] = "a\uFFFDb" := by rfl

end MessageStore.Utf8
