import MessageStore.Json.Token

/-!
# JSON values

The tree of a JSON text.  Object members keep their order and their
repetitions, and strings and numbers keep the octets they were written with.
The written form is compact: no white space, members in their order.
-/

namespace MessageStore

inductive Json where
  | null
  | bool (value : Bool)
  | number (numeral : Bytes)
  /-- A string, by the octets between its quotation marks. -/
  | string (body : Bytes)
  | array (items : List Json)
  | object (members : List (Bytes × Json))

namespace Json

/-- A separator goes before every part but the first. -/
def separate (started : Bool) (tokens : List Token) : List Token :=
  if started then .comma :: tokens else tokens

mutual

/-- Puts the tokens of a value, last first, on those before it. -/
def tokensOnto : Json → List Token → List Token
  | .null, tokens => .null :: tokens
  | .bool value, tokens => .bool value :: tokens
  | .number numeral, tokens => .number numeral :: tokens
  | .string body, tokens => .string body :: tokens
  | .array items, tokens =>
    .closeArray :: itemsOnto items false (.openArray :: tokens)
  | .object members, tokens =>
    .closeObject :: membersOnto members false (.openObject :: tokens)

def itemsOnto : List Json → Bool → List Token → List Token
  | [], _, tokens => tokens
  | item :: rest, started, tokens =>
    itemsOnto rest true (tokensOnto item (separate started tokens))

def membersOnto : List (Bytes × Json) → Bool → List Token → List Token
  | [], _, tokens => tokens
  | member :: rest, started, tokens =>
    membersOnto rest true (memberOnto member (separate started tokens))

def memberOnto : Bytes × Json → List Token → List Token
  | (key, value), tokens => tokensOnto value (.colon :: .string key :: tokens)

end

def tokens (value : Json) : List Token :=
  (value.tokensOnto []).reverse

/-- The compact text of a value. -/
def render (value : Json) : Bytes :=
  value.tokens.flatMap Token.bytes

end Json

end MessageStore
