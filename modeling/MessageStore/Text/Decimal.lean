import MessageStore.Bytes

/-!
# Decimal numerals

The numerals of this library are written in base ten without a sign, without
separators and, when printed, without leading zeros.
-/

namespace MessageStore.Decimal

def isDigit (octet : UInt8) : Bool :=
  48 ≤ octet && octet ≤ 57

def digits (n : Nat) : Bytes :=
  (Nat.toDigits 10 n).map fun c => c.toNat.toUInt8

/-- The number that a row of digits denotes, read from the left. -/
def value (numeral : Bytes) : Nat :=
  numeral.foldl (fun n octet => n * 10 + (octet.toNat - 48)) 0

/-- The number that a text denotes, if it is a numeral; leading zeros are
accepted. -/
def read? (numeral : Bytes) : Option Nat :=
  if numeral ≠ [] ∧ numeral.all isDigit then some (value numeral) else none

end MessageStore.Decimal
