/-!
# TOML tables

The values of a TOML text, and how its statements fill tables.  A statement
gives a key a value, or is the header of a table or of one more table of an
array.  A table remembers how it came about, since that decides what later
statements may add to it.
-/

namespace MessageStore

/-- How a table came about. -/
inductive TableOrigin where
  /-- It was written in braces, and is complete. -/
  | inline
  | header
  /-- A header named it on the way to another table. -/
  | implied
  /-- A dotted key named it on the way to a value. -/
  | dotted
  deriving DecidableEq, Repr

/-- A TOML value.  Floating-point numbers and times keep the characters they
were written with. -/
inductive Toml where
  | string (text : String)
  | integer (value : Int)
  | float (text : String)
  | bool (value : Bool)
  | time (text : String)
  | array (items : List Toml)
  | table (origin : TableOrigin) (entries : List (String × Toml))
  /-- An array of tables with headers, the last one first. -/
  | tables (elements : List (List (String × Toml)))

namespace Toml

/-- What the keys of a table stand for, in the order of the text. -/
abbrev Entries := List (String × Toml)

namespace Entries

def get? (entries : Entries) (key : String) : Option Toml :=
  (entries.find? (·.1 = key)).map (·.2)

/-- Changes what a key stands for.  A key that is missing is added. -/
def alter? (key : String) (change : Option Toml → Option Toml) :
    Entries → Option Entries
  | [] => (change none).map fun value => [(key, value)]
  | (name, value) :: rest =>
    if name = key then (change (some value)).map fun value => (name, value) :: rest
    else (alter? key change rest).map ((name, value) :: ·)

/-- Gives a key a value.  A dotted key may lead through tables that have no
header of their own and through the last table of an array; but the table
that gets the value must have come about by dotted keys. -/
def assign? (value : Toml) : List String → Entries → Option Entries
  | [], _ => none
  | [key], entries =>
    entries.alter? key fun
      | none => some value
      | some _ => none
  | key :: path, entries =>
    let isLast := path.length = 1
    entries.alter? key fun
      | none => (assign? value path []).map (.table .dotted)
      | some (.table .dotted inner) =>
        (assign? value path inner).map (.table .dotted)
      | some (.table .implied inner) =>
        if isLast then none else (assign? value path inner).map (.table .implied)
      | some (.tables (element :: before)) =>
        if isLast then none
        else (assign? value path element).map fun element =>
          .tables (element :: before)
      | some _ => none

/-- Follows the keys of a header, and changes what the last one stands for.
Tables on the way that are missing are implied; an array of tables stands
for its last table. -/
def follow? (change : Option Toml → Option Toml) :
    List String → Entries → Option Entries
  | [], _ => none
  | [key], entries => entries.alter? key change
  | key :: path, entries =>
    entries.alter? key fun
      | none => (follow? change path []).map (.table .implied)
      | some (.table .inline _) => none
      | some (.table origin inner) =>
        (follow? change path inner).map (.table origin)
      | some (.tables (element :: before)) =>
        (follow? change path element).map fun element =>
          .tables (element :: before)
      | some _ => none

/-- The header of a table: the table must be new or implied. -/
def openTable? (header : List String) : Entries → Option Entries :=
  follow? (fun
    | none => some (.table .header [])
    | some (.table .implied inner) => some (.table .header inner)
    | some _ => none) header

/-- The header of one more table of an array. -/
def openElement? (header : List String) : Entries → Option Entries :=
  follow? (fun
    | none => some (.tables [[]])
    | some (.tables elements) => some (.tables ([] :: elements))
    | some _ => none) header

/-- Gives a key a value in the table of a header; the empty header stands
for the whole text. -/
def assignBelow? (header key : List String) (value : Toml) (entries : Entries) :
    Option Entries :=
  if header.isEmpty then entries.assign? value key
  else follow? (fun
    | some (.table origin inner) => (assign? value key inner).map (.table origin)
    | some (.tables (element :: before)) =>
      (assign? value key element).map fun element => .tables (element :: before)
    | _ => none) header entries

end Entries

end Toml

end MessageStore
