import MessageStore.Command.Arguments
import MessageStore.Command.Conclusion
import MessageStore.Journal.Basic

/-!
# Printing a journal

Every entry of the valid part of a journal is printed as one line of JSON.
Octets of a payload that are no text show as replacement characters.
-/

namespace MessageStore

namespace Dump

/-- The line of an entry.  A reference has no payload to show. -/
def line {E : Type} [TableEntry E] (entry : E) : Json :=
  let position := TableEntry.position entry
  .ofMembers <|
    [("topic", .ofString (TableEntry.topic entry).text),
      ("position", .ofString position.text),
      ("timestamp", .ofNat position.timestamp.toNat),
      ("sequence_id", .ofNat position.sequence.toNat)] ++
      Json.optionalMember "payload" (fun payload => .ofString (Utf8.decodeLossy payload))
        (TableEntry.payload entry)

def admits (filter : Option Topic) (topic : Topic) : Bool :=
  match filter with
  | none => true
  | some wanted => topic = wanted

def table (E : Type) [TableEntry E] (path : String) (filter : Option Topic)
    (volume : Volume) : Conclusion :=
  match Journal.readValid (E := E) volume path with
  | (.error cause, volume) => { failure := some (.reading cause), volume }
  | (.ok entries, volume) =>
    let shown := entries.filter fun entry => admits filter (TableEntry.topic entry)
    { printed := shown.map fun entry => .json (line entry), volume }

def run (config : Config) (arguments : DumpArguments) (volume : Volume) :
    Conclusion :=
  if arguments.payloads then
    table PayloadEntry config.payloadJournal arguments.topic volume
  else table MessageEntry config.messageJournal arguments.topic volume

end Dump

end MessageStore
