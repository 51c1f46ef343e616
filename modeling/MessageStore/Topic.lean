import MessageStore.Json.Fields
import MessageStore.Text.Quoted

/-!
# Topics

A topic is a namespace and a name.  Its text joins the two with a colon; the
name may hold further colons, the namespace of a text that was read may not.
-/

namespace MessageStore

/-- Where a published message belongs. -/
structure Topic where
  space : String
  /-- The name within the namespace. -/
  name : String
  deriving DecidableEq, Repr, Inhabited

namespace Topic

/-- Why a text is not a topic.  Each cause carries the whole text. -/
inductive ParseError where
  | missingSeparator (text : String)
  | empty (text : String)
  deriving DecidableEq, Repr

def ParseError.message : ParseError → String
  | .missingSeparator text =>
    "missing ':' separator in topic id " ++ Text.quoted text
  | .empty text => "empty namespace or topic in topic id " ++ Text.quoted text

def text (topic : Topic) : String :=
  topic.space ++ ":" ++ topic.name

/-- What stands before and after the first colon. -/
def splitAtColon : List Char → Option (List Char × List Char)
  | [] => none
  | c :: rest =>
    if c = ':' then some ([], rest)
    else (splitAtColon rest).map fun (before, after) => (c :: before, after)

/-- Reads a topic: both sides of the first colon must hold something. -/
def parse (text : String) : Except ParseError Topic :=
  match splitAtColon text.toList with
  | none => .error (.missingSeparator text)
  | some (space, name) =>
    if space.isEmpty || name.isEmpty then .error (.empty text)
    else .ok ⟨String.ofList space, String.ofList name⟩

/-- Topics are ordered by namespace, then by name, both by code point. -/
def precedes (first second : Topic) : Bool :=
  first.space < second.space ||
    (first.space = second.space && first.name ≤ second.name)

/-- The topics in order, each once. -/
def sorted (topics : List Topic) : List Topic :=
  (topics.mergeSort precedes).eraseReps

/-! ## In JSON -/

def toJson (topic : Topic) : Json :=
  .ofMembers [("namespace", .ofString topic.space), ("topic", .ofString topic.name)]

/-- A topic is an object with two members, or an array of their values. -/
def ofJson? : Json → Option Topic
  | .array [space, name] => return ⟨← space.asString?, ← name.asString?⟩
  | .object members => do
    let members ← Json.members? members
    return ⟨← Json.required? members "namespace" Json.asString?,
      ← Json.required? members "topic" Json.asString?⟩
  | _ => none

end Topic

end MessageStore
