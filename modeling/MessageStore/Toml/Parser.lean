import MessageStore.Toml.Number
import MessageStore.Toml.Time

/-!
# Reading TOML

A text is a row of statements, each on a line of its own.  Containers nest
less than 80 deep, and a dotted key has less than 80 parts.
-/

namespace MessageStore.Toml

namespace Grammar

open Text Text.Reader

/-- Neither containers nor dotted keys reach this depth. -/
def depthLimit : Nat := 80

/-! ## Keys -/

def isBareKeyChar (c : Char) : Bool :=
  c.isAlphanum || c = '_' || c = '-'

/-- One part of a key: a string on one line, or bare characters. -/
def keyPart : Reader String := do
  spaces
  let bare : Reader String := do
    let first ← satisfying isBareKeyChar
    return String.ofList (first :: (← takeWhile isBareKeyChar))
  let part ← oneLine '"' <|> oneLine '\'' <|> bare
  spaces
  return part

def key : Reader (List String) := do
  let parts ← separated keyPart (char '.')
  if parts.length < depthLimit then return parts else failure

/-! ## Values -/

/-- An array of values, which may stand on several lines and end with a
comma. -/
def array (value : Reader Toml) : Reader Toml := do
  let _ ← char '['
  let item : Reader Toml := gap *> value <* gap
  let items ← optional (separated item (char ',') <* optional (char ','))
  gap
  let _ ← char ']'
  return .array (items.getD [])

def assignment (value : Reader Toml) : Reader (List String × Toml) := do
  let key ← key
  let _ ← char '='
  spaces
  return (key, ← value)

/-- A table in braces, which stands on one line. -/
def inlineTable (value : Reader Toml) : Reader Toml := do
  let _ ← char '\x7b'
  let assignments ← optional (separated (assignment value <* spaces) (char ','))
  spaces
  let _ ← char '\x7d'
  let entries := (assignments.getD []).foldlM
    (fun (entries : Entries) (key, value) => entries.assign? value key) []
  match entries with
  | some entries => return .table .inline entries
  | none => failure

def scalar : Reader Toml :=
  (.string <$> string) <|> time <|> float <|> integer <|>
    (literal "true" *> pure (.bool true)) <|> (literal "false" *> pure (.bool false))

/-- A value, with at most so many containers around one another. -/
def value : Nat → Reader Toml
  | 0 => scalar
  | depth + 1 => scalar <|> array (value depth) <|> inlineTable (value depth)

/-! ## Statements -/

structure Document where
  entries : Entries := []
  /-- The header that the next keys belong to. -/
  header : List String := []

/-- What remains of a line after a statement. -/
def lineRest : Reader Unit := do
  spaces
  discard (optional comment)
  lineBreak <|> atEnd

/-- A step that the tables must admit. -/
def admitted {α : Type} : Option α → Reader α
  | some a => pure a
  | none => failure

def elementHeader (document : Document) : Reader Document := do
  literal "[["
  let header ← key
  literal "]]"
  lineRest
  return { header, entries := ← admitted (document.entries.openElement? header) }

def tableHeader (document : Document) : Reader Document := do
  let _ ← char '['
  let header ← key
  let _ ← char ']'
  lineRest
  return { header, entries := ← admitted (document.entries.openTable? header) }

def statement (document : Document) : Reader Document := do
  let (key, value) ← assignment (value (depthLimit - 1))
  lineRest
  return { document with
    entries := ← admitted (document.entries.assignBelow? document.header key value) }

/-- A line: blank, a comment, a header or a statement. -/
def line (document : Document) : Reader Document := do
  spaces
  (lineBreak *> pure document) <|>
    (comment *> (lineBreak <|> atEnd) *> pure document) <|>
    elementHeader document <|> tableHeader document <|> statement document

end Grammar

/-- The table that a text spells.  A mark of the byte order may come first. -/
def parse? (text : String) : Option Entries :=
  let input := match text.toList with
    | '\uFEFF' :: rest => rest
    | input => input
  match Text.Reader.iterate Grammar.line {} input with
  | (document, rest) => if rest.all Grammar.isSpace then some document.entries else none

end MessageStore.Toml
