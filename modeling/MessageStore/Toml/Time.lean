import MessageStore.Toml.Quoted

/-!
# Times in TOML

A time is a date, a time of day, or both; if it is both, an offset may
follow.  Every field has its range, and a date must exist in the calendar.
-/

namespace MessageStore.Toml.Grammar

open Text Text.Reader

/-- A field of exactly so many digits, within a range. -/
def field (digits low high : Nat) : Reader Nat := fun input =>
  let written := input.take digits
  let value := written.foldl (fun n c => n * 10 + (c.toNat - 48)) 0
  if written.length = digits ∧ written.all Char.isDigit ∧ low ≤ value ∧ value ≤ high then
    some (value, input.drop digits)
  else none

def isLeapYear (year : Nat) : Bool :=
  year % 4 = 0 && (year % 100 ≠ 0 || year % 400 = 0)

def daysOfMonth (year month : Nat) : Nat :=
  if month = 2 then if isLeapYear year then 29 else 28
  else if month ∈ [4, 6, 9, 11] then 30
  else 31

def date : Reader Unit := do
  let year ← field 4 0 9999
  let _ ← char '-'
  let month ← field 2 1 12
  let _ ← char '-'
  discard (field 2 1 (daysOfMonth year month))

/-- A time of day; its seconds may have decimals, and there may be a leap
second. -/
def timeOfDay : Reader Unit := do
  let _ ← field 2 0 23
  let _ ← char ':'
  let _ ← field 2 0 59
  let _ ← char ':'
  let _ ← field 2 0 60
  discard (optional (char '.' *> satisfying Char.isDigit *> takeWhile Char.isDigit))

def offset : Reader Unit :=
  discard (char 'Z' <|> char 'z') <|> do
    let _ ← char '+' <|> char '-'
    let _ ← field 2 0 23
    let _ ← char ':'
    discard (field 2 0 59)

def dateAndTime : Reader Unit := do
  date
  discard <| optional do
    let _ ← satisfying (fun c => c = 'T' || c = 't' || c = ' ')
    timeOfDay
    discard (optional offset)

def time : Reader Toml := do
  return .time (String.ofList (← taken (dateAndTime <|> timeOfDay)))

end MessageStore.Toml.Grammar
