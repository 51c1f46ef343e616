import MessageStore.Text.Reader
import MessageStore.Toml.Basic

/-!
# Strings in TOML

There are four ways to write a string: on one line or on several, and with
escapes or literally.  A string on several lines drops a line break right
after its opening; its breaks count as line feeds, and one or two of its
quotation marks may stand inside it.
-/

namespace MessageStore.Toml.Grammar

open Text Text.Reader

/-! ## Blanks, line breaks and comments -/

def isSpace (c : Char) : Bool :=
  c = ' ' || c = '\t'

/-- Whether a character may stand in a comment, or in a string as itself. -/
def isPlain (c : Char) : Bool :=
  c = '\t' || (0x20 ≤ c.toNat && c.toNat ≠ 0x7F)

def spaces : Reader Unit :=
  discard (takeWhile isSpace)

/-- A line feed, with or without a carriage return before it. -/
def lineBreak : Reader Unit :=
  literal "\n" <|> literal "\r\n"

/-- A comment, up to the end of its line. -/
def comment : Reader Unit :=
  discard (char '#' *> takeWhile isPlain)

/-- Blanks, line breaks and comments. -/
def gap : Reader Unit :=
  discard (many (discard (satisfying isSpace) <|> lineBreak <|> comment))

/-! ## Escapes -/

def hexDigit? (c : Char) : Option Nat :=
  if '0' ≤ c ∧ c ≤ '9' then some (c.toNat - 48)
  else if 'a' ≤ c ∧ c ≤ 'f' then some (c.toNat - 87)
  else if 'A' ≤ c ∧ c ≤ 'F' then some (c.toNat - 55)
  else none

/-- The character whose code point a number of hexadecimal digits spells.
Surrogates are no characters. -/
def codePoint (digits : Nat) : Reader Char := fun input => do
  let values ← (input.take digits).mapM hexDigit?
  let point := values.foldl (fun point value => point * 16 + value) 0
  if h : values.length = digits ∧ point.isValidChar then
    return (Char.ofNatAux point h.2, input.drop digits)
  else none

/-- A backslash, and what it stands for with the characters after it. -/
def escape : Reader Char := do
  let _ ← char '\\'
  match ← satisfying (fun _ => true) with
  | 'b' => return '\x08'
  | 't' => return '\t'
  | 'n' => return '\n'
  | 'f' => return '\x0c'
  | 'r' => return '\r'
  | '"' => return '"'
  | '\\' => return '\\'
  | 'u' => codePoint 4
  | 'U' => codePoint 8
  | _ => failure

/-- A backslash at the end of a line stands for nothing, with all blanks and
line breaks after it. -/
def lineEscape : Reader Unit := do
  let _ ← char '\\'
  spaces
  lineBreak
  discard (many (discard (satisfying isSpace) <|> lineBreak))

/-! ## Strings -/

/-- A character that stands for itself between the given quotation marks. -/
def verbatim (quote : Char) : Reader Char :=
  satisfying fun c => isPlain c && c ≠ quote && (quote = '\'' || c ≠ '\\')

/-- What stands for one character on one line. -/
def oneLineChar (quote : Char) : Reader Char :=
  verbatim quote <|> (if quote = '"' then escape else failure)

/-- What stands for at most one character on one of several lines. -/
def severalLinesChar (quote : Char) : Reader (List Char) :=
  (List.singleton <$> verbatim quote) <|> (lineBreak *> pure ['\n']) <|>
    (if quote = '"' then (lineEscape *> pure []) <|> (List.singleton <$> escape) else failure)

def oneLine (quote : Char) : Reader String := do
  let _ ← char quote
  let text ← many (oneLineChar quote)
  let _ ← char quote
  return String.ofList text

/-- The quotation marks that end a string on several lines, as what they
leave in the string: three of them end it, and up to two more before these
belong to it. -/
def closing (quote : Char) : Reader (List Char) := fun input =>
  let marks := (input.takeWhile (· = quote)).length
  if 3 ≤ marks then
    let inside := min (marks - 3) 2
    some (List.replicate inside quote, input.drop (inside + 3))
  else none

/-- One or two quotation marks inside a string on several lines. -/
def inside (quote : Char) : Reader (List Char) := fun input =>
  let marks := (input.takeWhile (· = quote)).length
  if marks = 1 ∨ marks = 2 then
    some (List.replicate marks quote, input.drop marks)
  else none

def severalLines (quote : Char) : Reader String := do
  literal (String.ofList [quote, quote, quote])
  let _ ← optional lineBreak
  let parts ← many (severalLinesChar quote <|> inside quote)
  let last ← closing quote
  return String.ofList (parts.flatten ++ last)

def string : Reader String :=
  severalLines '"' <|> oneLine '"' <|> severalLines '\'' <|> oneLine '\''

end MessageStore.Toml.Grammar
