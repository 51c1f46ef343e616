/-!
# Readers

A reader takes characters from the front of a text, or fails and takes
none.  `first <|> second` tries the second reader where the first one
failed.
-/

namespace MessageStore.Text

/-- A reader of values `α`. -/
abbrev Reader (α : Type) := StateT (List Char) Option α

namespace Reader

variable {α β σ : Type}

/-- One character that fulfils a condition. -/
def satisfying (condition : Char → Bool) : Reader Char
  | c :: rest => if condition c then some (c, rest) else none
  | [] => none

def char (c : Char) : Reader Char :=
  satisfying (· = c)

/-- The given characters, one after the other. -/
def literal (text : String) : Reader Unit :=
  text.toList.forM fun c => discard (char c)

/-- The longest row of characters that fulfil a condition. -/
def takeWhile (condition : Char → Bool) : Reader (List Char) := fun input =>
  some (input.takeWhile condition, input.dropWhile condition)

def atEnd : Reader Unit := fun input =>
  if input.isEmpty then some ((), []) else none

/-- Repeats a step as long as it succeeds and takes something. -/
def iterate (step : σ → Reader σ) (state : σ) (input : List Char) :
    σ × List Char :=
  match step state input with
  | none => (state, input)
  | some (next, rest) =>
    if rest.length < input.length then iterate step next rest else (next, rest)
termination_by input.length

/-- As many values as there are. -/
def many (item : Reader α) : Reader (List α) := fun input =>
  let (items, rest) := iterate (fun items => (· :: items) <$> item) [] input
  some (items.reverse, rest)

/-- Values with a separator between any two. -/
def separated (item : Reader α) (separator : Reader β) : Reader (List α) := do
  let first ← item
  return first :: (← many (separator *> item))

/-- The characters that a reader takes. -/
def taken (reader : Reader α) : Reader (List Char) := fun input =>
  (reader input).map fun (_, rest) =>
    (input.take (input.length - rest.length), rest)

end Reader

end MessageStore.Text
