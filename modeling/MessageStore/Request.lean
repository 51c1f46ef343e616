import MessageStore.Topic

/-!
# Publish requests

A request names a topic, perhaps the write pointer of a transaction, and a
source of payloads.  The source is polled: each poll yields one payload or
says that the source has ended.  A source is given by its answers to the
polls to come, after which it has ended for good.  An answer in between may
say "ended" too, and a later poll would yield again; whoever pulls a request
decides whether to ask once more.
-/

namespace MessageStore

structure Request where
  topic : Topic
  /-- The write pointer of the transaction that publishes. -/
  writePointer : Option UInt64
  /-- The answers to the polls to come. -/
  answers : List (Option Bytes)
  polls : Nat := 0
  deriving DecidableEq, Repr, Inhabited

namespace Request

/-- A request that yields the given payloads and then ends. -/
def ofPayloads (topic : Topic) (writePointer : Option UInt64)
    (payloads : List Bytes) : Request :=
  { topic, writePointer, answers := payloads.map some }

/-- A request outside any transaction, with texts as payloads. -/
def ofTexts (topic : Topic) (texts : List String) : Request :=
  ofPayloads topic none (texts.map Utf8.encode)

def isTransactional (request : Request) : Bool :=
  request.writePointer.isSome

def poll (request : Request) : Option Bytes × Request :=
  match request.answers with
  | [] => (none, { request with polls := request.polls + 1 })
  | answer :: rest =>
    (answer, { request with answers := rest, polls := request.polls + 1 })

/-- The payloads before the first end of the source. -/
def payloads (request : Request) : List Bytes :=
  (request.answers.takeWhile Option.isSome).filterMap id

/-- How a request is shown in messages; the payloads are left out. -/
def description (request : Request) : String :=
  let pointer := match request.writePointer with
    | none => "None"
    | some pointer => "Some(" ++ toString pointer.toNat ++ ")"
  "PublishRequest \x7b topic: TopicId \x7b namespace: " ++
    Text.quoted request.topic.space ++ ", topic: " ++
    Text.quoted request.topic.name ++ " \x7d, write_pointer: " ++ pointer ++
    ", .. \x7d"

end Request

end MessageStore
