import MessageStore.Json.Token
import MessageStore.Text.Utf8

/-!
# The text of a JSON string

`escape` gives the octets between the quotation marks for a text, and
`unescape?` reads them back.  Only what must be escaped is: the quotation
mark, the backslash and the characters below U+0020, five of which have a
short form.  Reading accepts every escape, but a surrogate only as half of a
pair.
-/

namespace MessageStore.Json

def hexOctet (digit : Nat) : UInt8 :=
  if digit < 10 then (48 + digit).toUInt8 else (87 + digit).toUInt8

/-- The octets that stand for a character inside a string. -/
def escapeChar (c : Char) : Bytes :=
  if c = '"' then [0x5C, 0x22]
  else if c = '\\' then [0x5C, 0x5C]
  else if c = '\x08' then [0x5C, 0x62]
  else if c = '\x0c' then [0x5C, 0x66]
  else if c = '\n' then [0x5C, 0x6E]
  else if c = '\r' then [0x5C, 0x72]
  else if c = '\t' then [0x5C, 0x74]
  else if c.toNat < 0x20 then
    [0x5C, 0x75, 0x30, 0x30, hexOctet (c.toNat / 16), hexOctet (c.toNat % 16)]
  else String.utf8EncodeChar c

def escape (text : String) : Bytes :=
  text.toList.flatMap escapeChar

def shortEscape? : Char → Option Char
  | '"' => some '"'
  | '\\' => some '\\'
  | '/' => some '/'
  | 'b' => some '\x08'
  | 'f' => some '\x0c'
  | 'n' => some '\n'
  | 'r' => some '\r'
  | 't' => some '\t'
  | _ => none

/-- The sixteen bits that four hexadecimal digits spell. -/
def codeUnit? (a b c d : Char) : Option Nat := do
  let digit (c : Char) : Option Nat :=
    if c.toNat < 0x80 then hexDigit? c.toNat.toUInt8 else none
  return (((← digit a) * 16 + (← digit b)) * 16 + (← digit c)) * 16 + (← digit d)

/-- Reads the rest of a string, given what it spells so far, last first. -/
def unescapeFrom? (spelled : List Char) : List Char → Option (List Char)
  | [] => some spelled.reverse
  | '\\' :: 'u' :: a :: b :: c :: d :: rest =>
    match codeUnit? a b c d with
    | none => none
    | some high =>
      if high < 0xD800 ∨ 0xDFFF < high then
        unescapeFrom? (Char.ofNat high :: spelled) rest
      else if 0xDC00 ≤ high then none
      else
        match rest with
        | '\\' :: 'u' :: e :: f :: g :: h :: rest =>
          match codeUnit? e f g h with
          | none => none
          | some low =>
            if 0xDC00 ≤ low ∧ low ≤ 0xDFFF then
              let point := 0x10000 + (high - 0xD800) * 0x400 + (low - 0xDC00)
              unescapeFrom? (Char.ofNat point :: spelled) rest
            else none
        | _ => none
  | '\\' :: c :: rest =>
    match shortEscape? c with
    | none => none
    | some c => unescapeFrom? (c :: spelled) rest
  | ['\\'] => none
  | c :: rest => unescapeFrom? (c :: spelled) rest

/-- The text that the octets between two quotation marks stand for. -/
def unescape? (body : Bytes) : Option String :=
  match Utf8.decode? body with
  | none => none
  | some written => (unescapeFrom? [] written.toList).map String.ofList

end MessageStore.Json
