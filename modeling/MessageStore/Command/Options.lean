/-!
# Options on a command line

A command line is a row of arguments: options with a value, as `--name value`
or `--name=value`, flags as `--name`, and plain words.  Every option and
flag may be given once, and no value of an option is empty.  A lone dash is
a word; after `--` everything is.
-/

namespace MessageStore

structure OptionNames where
  /-- Options with a value. -/
  valued : List String
  flags : List String := []

structure Given where
  values : List (String × String) := []
  flags : List String := []
  /-- The plain words, the last one first. -/
  words : List String := []

/-- What the next argument is. -/
inductive Expecting where
  | argument
  | valueOf (name : String)
  /-- A word, whatever it looks like. -/
  | word

namespace Given

def value? (given : Given) (name : String) : Option String :=
  given.values.lookup name

def hasFlag (given : Given) (name : String) : Bool :=
  given.flags.contains name

def looksLikeOption (argument : String) : Bool :=
  argument.startsWith "-" && argument ≠ "-"

/-- What stands before and after the first equals sign. -/
def splitAtEquals : List Char → List Char × Option (List Char)
  | [] => ([], none)
  | c :: rest =>
    if c = '=' then ([], some rest)
    else
      let (before, after) := splitAtEquals rest
      (c :: before, after)

def addWord (given : Given) (word : String) : Given :=
  { given with words := word :: given.words }

def addValue? (given : Given) (name value : String) : Option Given :=
  if value = "" ∨ (given.value? name).isSome then none
  else some { given with values := (name, value) :: given.values }

def addFlag? (given : Given) (name : String) : Option Given :=
  if given.hasFlag name then none
  else some { given with flags := name :: given.flags }

def takeOption? (names : OptionNames) (given : Given) (argument : List Char) :
    Option (Expecting × Given) :=
  match splitAtEquals argument with
  | (name, value) =>
    let name := String.ofList name
    if names.valued.contains name then
      match value with
      | some value => (given.addValue? name (String.ofList value)).map (.argument, ·)
      | none => some (.valueOf name, given)
    else if names.flags.contains name && value.isNone then
      (given.addFlag? name).map (.argument, ·)
    else none

def take? (names : OptionNames) :
    Expecting × Given → String → Option (Expecting × Given)
  | (.word, given), argument => some (.word, given.addWord argument)
  | (.valueOf name, given), argument =>
    if looksLikeOption argument then none
    else (given.addValue? name argument).map (.argument, ·)
  | (.argument, given), argument =>
    if looksLikeOption argument then
      match argument.toList with
      | ['-', '-'] => some (.word, given)
      | '-' :: '-' :: rest => takeOption? names given rest
      | _ => none
    else some (.argument, given.addWord argument)

def ofArguments? (names : OptionNames) (arguments : List String) : Option Given :=
  match arguments.foldlM (take? names) (.argument, {}) with
  | some (.valueOf _, _) => none
  | some (_, given) => some { given with words := given.words.reverse }
  | none => none

end Given

end MessageStore
