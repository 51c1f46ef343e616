import MessageStore.Duration.Text
import MessageStore.Text.Utf8
import MessageStore.Toml.Parser
import MessageStore.Volume

/-!
# Configuration

The settings of a store, as a TOML text gives them.  Every setting has a
default, so any part of the text may be missing, the whole file included;
what the text says about other things is passed over.
-/

namespace MessageStore

structure WriterConfig where
  /-- The pause between two readings of the clock while a timestamp is used
  up. -/
  stallBackoff : Duration := .ofMilliseconds 1
  /-- For how many requests a batch has room from the start. -/
  batchCapacity : Nat := 128
  deriving DecidableEq, Repr, Inhabited

structure StorageConfig where
  directory : String := ".tms"
  /-- Whether every physical write waits until it is durable. -/
  synced : Bool := true
  deriving DecidableEq, Repr, Inhabited

structure Config where
  writer : WriterConfig := {}
  storage : StorageConfig := {}
  deriving DecidableEq, Repr, Inhabited

/-! ## Settings in TOML -/

namespace Toml

/-- The values of named fields.  A table gives them by name, and an array in
order; a time has a form of its own, with none of the names. -/
def fields? (names : List String) : Toml → Option (List (Option Toml))
  | .table _ entries => some (names.map (Entries.get? entries))
  | .array items => some ((List.range names.length).map (items[·]?))
  | .tables elements =>
    let items := elements.reverse.map (Toml.table .header)
    some ((List.range names.length).map (items[·]?))
  | .time _ => some (names.map fun _ => none)
  | _ => none

def asString? : Toml → Option String
  | .string text => some text
  | _ => none

def asBool? : Toml → Option Bool
  | .bool value => some value
  | _ => none

/-- An integer that is not negative. -/
def asNat? : Toml → Option Nat
  | .integer (.ofNat n) => some n
  | _ => none

def asDuration? (value : Toml) : Option Duration :=
  value.asString?.bind Duration.parse?

/-- A setting, or its default where it is missing. -/
def settingOr {α : Type} (absent : α) (read : Toml → Option α) :
    Option Toml → Option α
  | none => some absent
  | some value => read value

end Toml

def WriterConfig.ofToml? (value : Toml) : Option WriterConfig := do
  match ← value.fields? ["stall_backoff", "batch_capacity"] with
  | [backoff, capacity] =>
    let absent : WriterConfig := {}
    return ⟨← Toml.settingOr absent.stallBackoff Toml.asDuration? backoff,
      ← Toml.settingOr absent.batchCapacity Toml.asNat? capacity⟩
  | _ => none

def StorageConfig.ofToml? (value : Toml) : Option StorageConfig := do
  match ← value.fields? ["dir", "sync"] with
  | [directory, synced] =>
    let absent : StorageConfig := {}
    return ⟨← Toml.settingOr absent.directory Toml.asString? directory,
      ← Toml.settingOr absent.synced Toml.asBool? synced⟩
  | _ => none

inductive ConfigError where
  | unreadable (path : String) (error : IoError)
  | malformed (path : String)
  deriving DecidableEq, Repr

def ConfigError.heading : ConfigError → String
  | .unreadable path _ => "failed to read config " ++ path ++ ": "
  | .malformed path => "invalid config " ++ path ++ ": "

namespace Config

def parse? (text : String) : Option Config := do
  let entries ← Toml.parse? text
  return ⟨← Toml.settingOr {} WriterConfig.ofToml? (entries.get? "writer"),
    ← Toml.settingOr {} StorageConfig.ofToml? (entries.get? "storage")⟩

/-- The configuration that a file gives; all defaults if the file is
missing. -/
def load (volume : Volume) (path : String) : Except ConfigError Config × Volume :=
  let failed (error : IoError) : Except ConfigError Config :=
    if error.kind = .notFound then .ok {} else .error (.unreadable path error)
  match volume.read path with
  | (.error error, volume) => (failed error, volume)
  | (.ok reading, volume) =>
    match reading.failure with
    | some error => (failed error, volume)
    | none =>
      match Utf8.decode? reading.bytes with
      | none => (.error (.unreadable path (.system .invalidData)), volume)
      | some text =>
        match parse? text with
        | some config => (.ok config, volume)
        | none => (.error (.malformed path), volume)

def messageJournal (config : Config) : String :=
  Path.join config.storage.directory "messages.jsonl"

def payloadJournal (config : Config) : String :=
  Path.join config.storage.directory "payloads.jsonl"

end Config

end MessageStore
