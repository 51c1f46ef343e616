import MessageStore.Command.Options
import MessageStore.Topic

/-!
# Arguments

What the program is asked to do: publish a request, print the entries of a
journal, or measure how fast many publishers are.  The configuration file
and the directory of the journals may be given before and after the name of
the command; what comes after goes first.

The texts that describe the arguments are left out, and with them the help: who
asks for it, by `-h`, `--help` or `help`, is taken to misuse the program, which
would print such a text and succeed.
-/

namespace MessageStore

structure PublishArguments where
  topic : Topic
  /-- The write pointer of the transaction that publishes. -/
  writePointer : Option UInt64 := none
  /-- Whether the payloads go to the payload table, with a reference to them
  in the message table. -/
  payloadTable : Bool := false
  payloads : List String := []
  deriving DecidableEq, Repr

structure DumpArguments where
  topic : Option Topic := none
  payloads : Bool := false
  deriving DecidableEq, Repr

structure BenchArguments where
  threads : Nat := 4
  messages : Nat := 10000
  /-- The most payloads of one request. -/
  batch : Nat := 1
  topic : Topic := ⟨"bench", "messages"⟩
  inMemory : Bool := false
  deriving DecidableEq, Repr

inductive Command where
  | publish (arguments : PublishArguments)
  | dump (arguments : DumpArguments)
  | bench (arguments : BenchArguments)
  deriving DecidableEq, Repr

structure Arguments where
  config : Option String
  /-- The directory of the journals, in place of the configured one. -/
  directory : Option String
  command : Command
  deriving DecidableEq, Repr

inductive Invocation where
  | run (arguments : Arguments)
  | version
  /-- Nothing that the program knows, or a question for its help. -/
  | misuse
  deriving DecidableEq, Repr

/-! ## Values -/

/-- A whole number below `2 ^ 64`; a plus sign may stand before it. -/
def wordOf? (text : String) : Option Nat :=
  let digits : List Char := match text.toList with
    | '+' :: rest => rest
    | digits => digits
  let n : Nat := digits.foldl (fun n c => n * 10 + (c.toNat - 48)) 0
  if digits ≠ [] ∧ digits.all Char.isDigit ∧ n < UInt64.size then some n else none

def topicOf? (text : String) : Option Topic :=
  match Topic.parse text with
  | .ok topic => some topic
  | .error _ => none

def Given.read? {α : Type} (given : Given) (name : String)
    (read : String → Option α) : Option (Option α) :=
  match given.value? name with
  | none => some none
  | some text => (read text).map some

/-! ## Commands -/

/-- The options that stand on both sides of the name of a command. -/
def sharedOptions : List String :=
  ["config", "dir"]

def PublishArguments.read? (arguments : List String) :
    Option (Given × PublishArguments) := do
  let given ← Given.ofArguments?
    ⟨"topic" :: "tx" :: sharedOptions, ["payload-table"]⟩ arguments
  let topic ← topicOf? (← given.value? "topic")
  let pointer ← given.read? "tx" wordOf?
  let payloadTable := given.hasFlag "payload-table"
  if payloadTable && pointer.isNone then none
  return (given, ⟨topic, pointer.map Nat.toUInt64, payloadTable, given.words⟩)

def DumpArguments.read? (arguments : List String) :
    Option (Given × DumpArguments) := do
  let given ← Given.ofArguments? ⟨"topic" :: sharedOptions, ["payloads"]⟩ arguments
  if given.words ≠ [] then none
  return (given, ⟨← given.read? "topic" topicOf?, given.hasFlag "payloads"⟩)

def BenchArguments.read? (arguments : List String) :
    Option (Given × BenchArguments) := do
  let given ← Given.ofArguments?
    ⟨["threads", "messages", "batch", "topic"] ++ sharedOptions, ["memory"]⟩ arguments
  if given.words ≠ [] then none
  let absent : BenchArguments := {}
  return (given,
    ⟨(← given.read? "threads" wordOf?).getD absent.threads,
      (← given.read? "messages" wordOf?).getD absent.messages,
      (← given.read? "batch" wordOf?).getD absent.batch,
      (← given.read? "topic" topicOf?).getD absent.topic, given.hasFlag "memory"⟩)

def Command.read? (name : String) (arguments : List String) :
    Option (Given × Command) :=
  match name with
  | "publish" => do
    let (given, arguments) ← PublishArguments.read? arguments
    return (given, .publish arguments)
  | "dump" => do
    let (given, arguments) ← DumpArguments.read? arguments
    return (given, .dump arguments)
  | "bench" => do
    let (given, arguments) ← BenchArguments.read? arguments
    return (given, .bench arguments)
  | _ => none

namespace Invocation

def versionText : String :=
  "tms 0.1.0"

/-- A command after the options that were given before it. -/
def ofCommand (before : Given) (name : String) (arguments : List String) :
    Invocation :=
  match Command.read? name arguments with
  | none => .misuse
  | some (after, command) =>
    let value? (name : String) := after.value? name <|> before.value? name
    .run ⟨value? "config", value? "dir", command⟩

def asksVersion (argument : String) : Bool :=
  argument = "--version" || argument.startsWith "-V"

/-- Goes through the arguments before the name of a command. -/
def read (state : Expecting × Given) : List String → Invocation
  | [] => .misuse
  | argument :: rest =>
    match state with
    | (.argument, given) =>
      if asksVersion argument then .version
      else if !Given.looksLikeOption argument then ofCommand given argument rest
      else
        match Given.take? ⟨sharedOptions, []⟩ state argument with
        | some state => read state rest
        | none => .misuse
    | (.valueOf _, _) =>
      match Given.take? ⟨sharedOptions, []⟩ state argument with
      | some state => read state rest
      | none => .misuse
    | (.word, _) => .misuse

def ofCommandLine (arguments : List String) : Invocation :=
  read (.argument, {}) arguments

end Invocation

end MessageStore
