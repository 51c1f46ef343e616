import MessageStore.Duration
import MessageStore.Text.Blank

/-!
# Spans of time as text

A span is written as groups of a number and a unit, such as `1h 30m`.  When
reading, blanks may stand around and inside a number, a group may follow
another directly, and a number may have decimals as long as they come to
whole nanoseconds, or to whole seconds from the hour on.  Years and months
have a fixed mean length.  Numbers and sums are limited to 64 bits.
-/

namespace MessageStore.Duration

/-! ## Units -/

/-- What amounts of a unit are counted in. -/
inductive Grain where
  | nanosecond
  | second
  deriving DecidableEq, Repr

/-- The length of a grain, in nanoseconds. -/
def Grain.length : Grain → Nat
  | .nanosecond => 1
  | .second => 1000000000

structure TimeUnit where
  names : List String
  length : Nat
  /-- What whole numbers of the unit are counted in. -/
  whole : Grain
  /-- What decimals are counted in, if the unit can have any. -/
  decimals : Option Grain

def units : List TimeUnit :=
  let second := 1000000000
  [⟨["nanos", "nsec", "ns"], 1, .nanosecond, none⟩,
    ⟨["usec", "us", "µs"], 1000, .nanosecond, some .nanosecond⟩,
    ⟨["millis", "msec", "ms"], 1000000, .nanosecond, some .nanosecond⟩,
    ⟨["seconds", "second", "secs", "sec", "s"], second, .second, some .nanosecond⟩,
    ⟨["minutes", "minute", "mins", "min", "m"], 60 * second, .second,
      some .nanosecond⟩,
    ⟨["hours", "hour", "hrs", "hr", "h"], 3600 * second, .second, some .second⟩,
    ⟨["days", "day", "d"], 86400 * second, .second, some .second⟩,
    ⟨["weeks", "week", "wks", "wk", "w"], 604800 * second, .second, some .second⟩,
    ⟨["months", "month", "M"], 2630016 * second, .second, some .second⟩,
    ⟨["years", "year", "yrs", "yr", "y"], 31557600 * second, .second, some .second⟩]

/-! ## Reading -/

/-- A number, if it fits 64 bits. -/
def limited? (n : Nat) : Option Nat :=
  if n < UInt64.size then some n else none

/-- Adds an amount of grains.  The whole seconds of the sum must fit 64 bits,
and so must the nanoseconds that are added to the rest of a second. -/
def addGrains? (span : Duration) (grain : Grain) (amount : Nat) :
    Option Duration := do
  if grain = .nanosecond then
    let _ ← limited? (span.subsecond + amount)
  let sum : Duration := ⟨span.nanoseconds + amount * grain.length⟩
  let _ ← limited? sum.seconds
  return sum

/-- A number: its whole part, and its decimals as `part` out of `scale`. -/
structure Amount where
  whole : Nat
  part : Nat := 0
  scale : Nat := 1

/-- Adds an amount of the unit of a name. -/
def addGroup? (span : Duration) (amount : Amount) (name : String) :
    Option Duration := do
  let unit ← units.find? (·.names.contains name)
  let whole ← limited? (amount.whole * (unit.length / unit.whole.length))
  let span ← span.addGrains? unit.whole whole
  if amount.scale = 1 then return span
  let grain ← unit.decimals
  let product ← limited? (amount.part * (unit.length / grain.length))
  if product % amount.scale = 0 then span.addGrains? grain (product / amount.scale)
  else none

/-- Which part of a group is being read. -/
inductive Group where
  /-- Nothing yet. -/
  | awaited
  | whole (n : Nat)
  | decimals (amount : Amount)
  /-- The unit, by its letters so far, the last one first. -/
  | unit (amount : Amount) (letters : List Char)

def isUnitLetter (c : Char) : Bool :=
  c.isAlpha || c = 'µ'

def endGroup? (span : Duration) (amount : Amount) (letters : List Char) :
    Option Duration :=
  span.addGroup? amount (String.ofList letters.reverse)

def readChar? (span : Duration) : Group → Char → Option (Duration × Group)
  | .awaited, c =>
    if c.isDigit then some (span, .whole (c.toNat - 48))
    else if Text.isBlank c then some (span, .awaited)
    else none
  | .whole n, c =>
    if c.isDigit then do
      return (span, .whole (← limited? (n * 10 + (c.toNat - 48))))
    else if Text.isBlank c then some (span, .whole n)
    else if isUnitLetter c then some (span, .unit ⟨n, 0, 1⟩ [c])
    else if c = '.' then some (span, .decimals ⟨n, 0, 1⟩)
    else none
  | .decimals amount, c =>
    if c.isDigit then do
      let scale ← limited? (amount.scale * 10)
      let part := amount.part * 10 + (c.toNat - 48)
      return (span, .decimals { amount with part, scale })
    else if Text.isBlank c then some (span, .decimals amount)
    else if isUnitLetter c && amount.scale ≠ 1 then some (span, .unit amount [c])
    else none
  | .unit amount letters, c =>
    if isUnitLetter c then some (span, .unit amount (c :: letters))
    else if c.isDigit then do
      return (← span.endGroup? amount letters, .whole (c.toNat - 48))
    else if Text.isBlank c then do
      return (← span.endGroup? amount letters, .awaited)
    else none

/-- Reads a span.  A zero may stand without a unit. -/
def parse? (text : String) : Option Duration :=
  if text = "0" then some ⟨0⟩
  else if text.toList.all Text.isBlank then none
  else
    let read := text.toList.foldlM
      (fun (span, group) c => readChar? span group c) (⟨0⟩, Group.awaited)
    match read with
    | some (span, .awaited) => some span
    | some (span, .unit amount letters) => span.endGroup? amount letters
    | _ => none

/-! ## Writing -/

/-- The units that a span is written in, the longest first: the length, the
name for one, and the name for several. -/
def writtenUnits : List (Nat × String × String) :=
  let second := 1000000000
  [(31557600 * second, "year", "years"), (2630016 * second, "month", "months"),
    (86400 * second, "day", "days"), (3600 * second, "h", "h"),
    (60 * second, "m", "m"), (second, "s", "s"), (1000000, "ms", "ms"),
    (1000, "us", "us"), (1, "ns", "ns")]

/-- The groups of a number of nanoseconds: of each unit as many as there
are, and none of a unit that there are none of. -/
def groups : Nat → List (Nat × String × String) → List String
  | _, [] => []
  | left, (length, one, several) :: rest =>
    let count := left / length
    if count = 0 then groups left rest
    else
      (toString count ++ if count = 1 then one else several) ::
        groups (left % length) rest

def text (span : Duration) : String :=
  if span.nanoseconds = 0 then "0s"
  else " ".intercalate (groups span.nanoseconds writtenUnits)

end MessageStore.Duration
