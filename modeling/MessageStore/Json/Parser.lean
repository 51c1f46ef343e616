import MessageStore.Json.Basic

/-!
# Reading JSON

The parser takes one token at a time and keeps the containers that are still
open on a stack of its own, so the depth of nesting is not limited and the
whole reader is a recursion on the list of tokens.
-/

namespace MessageStore.Json

/-- A container that waits for a value inside it, with the parts before that
value, last first. -/
inductive Open where
  | array (items : List Json)
  | object (members : List (Bytes × Json)) (key : Bytes)

/-- What the text may go on with. -/
inductive ParseState where
  /-- A value. -/
  | valueDue (around : List Open)
  /-- A value, or the end of the array that was just opened. -/
  | itemDue (around : List Open)
  /-- The key of a member. -/
  | keyDue (members : List (Bytes × Json)) (around : List Open)
  /-- A key, or the end of the object that was just opened. -/
  | firstKeyDue (around : List Open)
  /-- The colon after a key. -/
  | colonDue (members : List (Bytes × Json)) (key : Bytes) (around : List Open)
  /-- A comma, or the end of the array. -/
  | afterItem (items : List Json) (around : List Open)
  /-- A comma, or the end of the object. -/
  | afterMember (members : List (Bytes × Json)) (around : List Open)
  /-- Nothing: the value is complete. -/
  | done (value : Json)

def ParseState.close (value : Json) : List Open → ParseState
  | [] => .done value
  | .array items :: around => .afterItem (value :: items) around
  | .object members key :: around => .afterMember ((key, value) :: members) around

/-- Takes the first token of a value. -/
def ParseState.begin? (around : List Open) : Token → Option ParseState
  | .null => some (.close .null around)
  | .bool value => some (.close (.bool value) around)
  | .number numeral => some (.close (.number numeral) around)
  | .string body => some (.close (.string body) around)
  | .openArray => some (.itemDue around)
  | .openObject => some (.firstKeyDue around)
  | _ => none

def ParseState.step? : ParseState → Token → Option ParseState
  | .valueDue around, token => begin? around token
  | .itemDue around, .closeArray => some (close (.array []) around)
  | .itemDue around, token => begin? (.array [] :: around) token
  | .keyDue members around, .string body => some (.colonDue members body around)
  | .firstKeyDue around, .string body => some (.colonDue [] body around)
  | .firstKeyDue around, .closeObject => some (close (.object []) around)
  | .colonDue members key around, .colon =>
    some (.valueDue (.object members key :: around))
  | .afterItem items around, .comma => some (.valueDue (.array items :: around))
  | .afterItem items around, .closeArray =>
    some (close (.array items.reverse) around)
  | .afterMember members around, .comma => some (.keyDue members around)
  | .afterMember members around, .closeObject =>
    some (close (.object members.reverse) around)
  | _, _ => none

def ParseState.run? : ParseState → List Token → Option ParseState
  | state, [] => some state
  | state, token :: rest =>
    match state.step? token with
    | none => none
    | some state => state.run? rest

def ofTokens? (tokens : List Token) : Option Json :=
  match ParseState.run? (.valueDue []) tokens with
  | some (.done value) => some value
  | _ => none

/-- The value that a text spells, with white space around its tokens. -/
def parse? (text : Bytes) : Option Json :=
  match lex? text with
  | none => none
  | some tokens => ofTokens? tokens

/-- A state reached over a first part of the tokens goes on with the rest. -/
theorem ParseState.run?_append (state : ParseState) (first second : List Token) :
    state.run? (first ++ second) =
      (state.run? first).bind (·.run? second) := by
  induction first generalizing state with
  | nil => rfl
  | cons token rest ih =>
    simp only [List.cons_append, run?]
    cases state.step? token with
    | none => rfl
    | some next => exact ih next

end MessageStore.Json
