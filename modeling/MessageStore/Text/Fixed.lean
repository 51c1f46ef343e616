/-!
# Numbers with a fixed count of decimals

A floating-point number is shown by the decimal number nearest to its exact
binary value; of two that are equally near, by the one whose last digit is
even.
-/

namespace MessageStore.Text

/-- The whole number nearest to a quotient.  Half a unit goes to the even
neighbour. -/
def roundDiv (numerator denominator : Nat) : Nat :=
  let quotient := numerator / denominator
  let twice := 2 * (numerator % denominator)
  if denominator < twice ∨ (twice = denominator ∧ quotient % 2 = 1) then quotient + 1
  else quotient

/-- A finite floating-point number without its sign, as a whole number of
units and the exponent of the unit, a power of two. -/
def binaryParts (x : Float) : Nat × Int :=
  let bits := x.toBits.toNat
  let exponent : Nat := bits / Nat.pow 2 52 % 2048
  let fraction : Nat := bits % Nat.pow 2 52
  if exponent = 0 then (fraction, -1074)
  else (Nat.pow 2 52 + fraction, (exponent : Int) - 1075)

/-- A number of units of the last of so many decimals. -/
def fixedOfUnits (places units : Nat) : String :=
  let scale := Nat.pow 10 places
  let whole := toString (units / scale)
  if places = 0 then whole
  else
    let decimals := toString (units % scale)
    whole ++ "." ++ String.ofList (List.replicate (places - decimals.length) '0') ++
      decimals

/-- A finite number that is not negative, with so many decimals. -/
def fixed (places : Nat) (x : Float) : String :=
  let (units, exponent) := binaryParts x
  fixedOfUnits places
    (roundDiv (units * Nat.pow 2 exponent.toNat * Nat.pow 10 places)
      (Nat.pow 2 (-exponent).toNat))

end MessageStore.Text
