import MessageStore.Toml.Quoted

/-!
# Numbers in TOML

Integers are written in base ten with an optional sign, or in base sixteen,
eight or two behind `0x`, `0o` or `0b`; they are limited to 64 bits with
sign.  A floating-point number has decimals, an exponent or both, and must
not be too large for a binary64 number; or it is one of `inf` and `nan`.
Single underscores may stand between digits.
-/

namespace MessageStore.Toml.Grammar

open Text Text.Reader

/-! ## Digits -/

/-- Digits of a base, with single underscores between some of them. -/
def digitRow (base : Nat) : Reader (List Nat) := do
  let digit : Reader Nat := fun
    | c :: rest => do
      let value ← hexDigit? c
      if value < base then some (value, rest) else none
    | [] => none
  let first ← digit
  return first :: (← many (digit <|> (char '_' *> digit)))

def rowValue (base : Nat) (row : List Nat) : Nat :=
  row.foldl (fun n digit => n * base + digit) 0

/-- A sign or nothing; whether it is a minus sign. -/
def sign : Reader Bool :=
  (char '-' *> pure true) <|> (char '+' *> pure false) <|> pure false

/-- A whole number in base ten.  Only zero itself starts with a zero. -/
def wholePart : Reader (List Nat) := do
  let row ← digitRow 10
  if row.head? = some 0 ∧ row.length ≠ 1 then failure
  return row

/-! ## Integers -/

/-- An integer, if it fits 64 bits with its sign. -/
def limited (value : Int) : Reader Toml :=
  if Int64.minValue.toInt ≤ value ∧ value ≤ Int64.maxValue.toInt then
    pure (.integer value)
  else failure

/-- An integer behind the mark of its base. -/
def basedInteger (mark : String) (base : Nat) : Reader Toml := do
  literal mark
  limited (rowValue base (← digitRow base))

def decimalInteger : Reader Toml := do
  let negative ← sign
  let value : Int := rowValue 10 (← wholePart)
  limited (if negative then -value else value)

def integer : Reader Toml :=
  basedInteger "0x" 16 <|> basedInteger "0o" 8 <|> basedInteger "0b" 2 <|>
    decimalInteger

/-! ## Floating-point numbers -/

/-- Half a step beyond the largest finite binary64 number. -/
def binary64Bound : Nat :=
  Nat.pow 2 1024 - Nat.pow 2 970

/-- Whether `digits * 10 ^ exponent` is nearer to a finite binary64 number
than to infinity.  The count of digits decides unless the number has 309
digits before its point. -/
def isFinite (digits : List Nat) (exponent : Int) : Bool :=
  let value := rowValue 10 digits
  let size : Int := (Nat.toDigits 10 value).length + exponent
  if value = 0 ∨ size < 309 then true
  else if 309 < size then false
  else
    value * Nat.pow 10 exponent.toNat <
      binary64Bound * Nat.pow 10 (-exponent).toNat

def decimals : Reader (List Nat) :=
  char '.' *> digitRow 10

def exponent : Reader Int := do
  let _ ← char 'e' <|> char 'E'
  let negative ← sign
  let value : Int := rowValue 10 (← digitRow 10)
  return if negative then -value else value

/-- A floating-point number in digits.  Only a positive one can be too
large. -/
def digitsFloat : Reader Unit := do
  let negative ← sign
  let whole ← wholePart
  let (part, power) ←
    (do return (← decimals, (← optional exponent).getD 0)) <|>
      (do return ([], ← exponent))
  if negative || isFinite (whole ++ part) (power - part.length) then pure ()
  else failure

/-- One of the names of floating-point values that have no digits. -/
def namedFloat : Reader Unit := do
  let _ ← sign
  literal "inf" <|> literal "nan"

def float : Reader Toml := do
  return .float (String.ofList (← taken (digitsFloat <|> namedFloat)))

end MessageStore.Toml.Grammar
