import MessageStore.Text.Decimal

/-!
# JSON tokens

The lexical level of JSON: eight kinds of token, the octets each is written
with, and a lexer that reads one octet at a time.  Numbers and strings keep
the octets they were written with; what they mean is decided by whoever asks
for it, so a value that nobody asks for is checked for its form only.
-/

namespace MessageStore.Json

inductive Token where
  | openArray
  | closeArray
  | openObject
  | closeObject
  | comma
  | colon
  | null
  | bool (value : Bool)
  | number (numeral : Bytes)
  /-- A string, by the octets between its quotation marks. -/
  | string (body : Bytes)
  deriving DecidableEq, Repr

def Token.bytes : Token → Bytes
  | .openArray => [0x5B]
  | .closeArray => [0x5D]
  | .openObject => [0x7B]
  | .closeObject => [0x7D]
  | .comma => [0x2C]
  | .colon => [0x3A]
  | .null => Bytes.ofAscii "null"
  | .bool true => Bytes.ofAscii "true"
  | .bool false => Bytes.ofAscii "false"
  | .number numeral => numeral
  | .string body => 0x22 :: body ++ [0x22]

/-! ## Numbers -/

/-- After the exponent letter: an optional sign and at least one digit. -/
def isExponent : Bytes → Bool
  | [] => false
  | sign :: digits =>
    if sign = 0x2B ∨ sign = 0x2D then digits ≠ [] && digits.all Decimal.isDigit
    else (sign :: digits).all Decimal.isDigit

/-- After the integer and the fraction: nothing, or an exponent. -/
def isExponentPart : Bytes → Bool
  | [] => true
  | letter :: rest => (letter = 0x65 || letter = 0x45) && isExponent rest

/-- After the integer: an optional fraction and an optional exponent. -/
def isFractionPart : Bytes → Bool
  | 0x2E :: digit :: rest =>
    Decimal.isDigit digit && isExponentPart (rest.dropWhile Decimal.isDigit)
  | rest => isExponentPart rest

/-- A number without its sign.  Only zero itself starts with a zero. -/
def isUnsigned : Bytes → Bool
  | [] => false
  | digit :: rest =>
    if digit = 0x30 then isFractionPart rest
    else Decimal.isDigit digit && isFractionPart (rest.dropWhile Decimal.isDigit)

def isNumber : Bytes → Bool
  | 0x2D :: rest => isUnsigned rest
  | rest => isUnsigned rest

/-! ## Strings -/

def hexDigit? (octet : UInt8) : Option Nat :=
  if 0x30 ≤ octet ∧ octet ≤ 0x39 then some (octet.toNat - 0x30)
  else if 0x61 ≤ octet ∧ octet ≤ 0x66 then some (octet.toNat - 0x57)
  else if 0x41 ≤ octet ∧ octet ≤ 0x46 then some (octet.toNat - 0x37)
  else none

/-- Whether the octet may follow a backslash, `u` apart. -/
def isShortEscape (octet : UInt8) : Bool :=
  octet ∈ Bytes.ofAscii "\"\\/bfnrt"

/-- Whether every backslash starts an escape: a letter of the short escapes,
or `u` with four hexadecimal digits. -/
def hasEscapes : Bytes → Bool
  | 0x5C :: 0x75 :: a :: b :: c :: d :: rest =>
    (hexDigit? a).isSome && (hexDigit? b).isSome && (hexDigit? c).isSome &&
      (hexDigit? d).isSome && hasEscapes rest
  | 0x5C :: octet :: rest => isShortEscape octet && hasEscapes rest
  | [0x5C] => false
  | _ :: rest => hasEscapes rest
  | [] => true

/-! ## The lexer -/

/-- Where the lexer stands.  The octets of a token begun are kept last
first. -/
inductive LexState where
  | between
  | word (letters : Bytes)
  | number (numeral : Bytes)
  | string (body : Bytes)
  /-- Inside a string, after a backslash. -/
  | escape (body : Bytes)

def isSpace (octet : UInt8) : Bool :=
  octet = 0x20 || octet = 0x09 || octet = 0x0A || octet = 0x0D

/-- Lower-case letters make up the three literal names. -/
def isWordPart (octet : UInt8) : Bool :=
  0x61 ≤ octet && octet ≤ 0x7A

/-- Octets that may stand in a number.  Between two numbers there is always
another octet, so a run of these is one number or none. -/
def isNumberPart (octet : UInt8) : Bool :=
  Decimal.isDigit octet || octet ∈ Bytes.ofAscii "+-.eE"

/-- The literal name that the letters spell. -/
def wordToken? (letters : Bytes) : Option Token :=
  if letters = Bytes.ofAscii "null" then some .null
  else if letters = Bytes.ofAscii "true" then some (.bool true)
  else if letters = Bytes.ofAscii "false" then some (.bool false)
  else none

/-- The tokens after taking an octet outside any token. -/
def lexBetween? (tokens : List Token) (octet : UInt8) :
    Option (LexState × List Token) :=
  if isSpace octet then some (.between, tokens)
  else if octet = 0x5B then some (.between, .openArray :: tokens)
  else if octet = 0x5D then some (.between, .closeArray :: tokens)
  else if octet = 0x7B then some (.between, .openObject :: tokens)
  else if octet = 0x7D then some (.between, .closeObject :: tokens)
  else if octet = 0x2C then some (.between, .comma :: tokens)
  else if octet = 0x3A then some (.between, .colon :: tokens)
  else if octet = 0x22 then some (.string [], tokens)
  else if isWordPart octet then some (.word [octet], tokens)
  else if isNumberPart octet then some (.number [octet], tokens)
  else none

/-- Ends the token begun, at the end of the text or before an octet that
does not belong to it. -/
def lexEnd? (tokens : List Token) : LexState → Option (List Token)
  | .between => some tokens
  | .word letters => (wordToken? letters.reverse).map (· :: tokens)
  | .number numeral =>
    let numeral := numeral.reverse
    if isNumber numeral then some (.number numeral :: tokens) else none
  | .string _ => none
  | .escape _ => none

def lexStep? (tokens : List Token) (octet : UInt8) :
    LexState → Option (LexState × List Token)
  | .between => lexBetween? tokens octet
  | .word letters =>
    if isWordPart octet then some (.word (octet :: letters), tokens)
    else do lexBetween? (← lexEnd? tokens (.word letters)) octet
  | .number numeral =>
    if isNumberPart octet then some (.number (octet :: numeral), tokens)
    else do lexBetween? (← lexEnd? tokens (.number numeral)) octet
  | .string body =>
    if octet = 0x22 then
      let body := body.reverse
      if hasEscapes body then some (.between, .string body :: tokens) else none
    else if octet = 0x5C then some (.escape (octet :: body), tokens)
    else if octet < 0x20 then none
    else some (.string (octet :: body), tokens)
  | .escape body =>
    if octet < 0x20 then none else some (.string (octet :: body), tokens)

/-- Reads the rest of a text, given the tokens found so far, last first. -/
def lexFrom? : LexState → List Token → Bytes → Option (List Token)
  | state, tokens, [] => (lexEnd? tokens state).map List.reverse
  | state, tokens, octet :: rest =>
    match lexStep? tokens octet state with
    | none => none
    | some (state, tokens) => lexFrom? state tokens rest

/-- The tokens of a text, if it consists of tokens and white space. -/
def lex? (text : Bytes) : Option (List Token) :=
  lexFrom? .between [] text

end MessageStore.Json
