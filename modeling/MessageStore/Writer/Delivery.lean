import MessageStore.Sequencer
import MessageStore.Storage.Table
import MessageStore.Writer.Pending
import MessageStore.Writer.Shape

/-!
# Delivering a batch

A delivery carries one batch of requests into a table.  It goes through the
requests in order and makes their entries on demand, cut into physical
writes: each has one timestamp and at most as many entries as sequence ids
are left at it.

A request succeeds when the physical write with its last entry succeeds.  A
physical write that fails fails every request with an entry in it; the rest
of those requests is skipped, and the delivery goes on with the requests
after them.  A table that takes no entry at all ends the delivery, since
asking it again could go on for ever.

The delivery is a machine of small steps: every step reads the clock once,
asks the table once, looks at one request or settles one.  Whoever lets
several parties run at the same time can interleave them between any two
steps.
-/

namespace MessageStore

inductive Phase where
  /-- Looks for the first request with an entry to make. -/
  | seeking
  /-- Reads the clock for the next physical write, again and again while it
  gives no room. -/
  | refreshing
  /-- Asks the table whether it wants one more of at most `budget` entries. -/
  | offering (budget : Nat)
  /-- Looks for the next entry, which the table has asked for. -/
  | drawing (budget : Nat)
  /-- Settles the requests of a physical write that has ended. -/
  | settling (result : Except StoreError Unit) (left : List Pending)
  /-- Fails all requests that are left. -/
  | abandoning (cause : StoreError)
  | finished

/-- A batch on its way into a table with the state `σ`.  The requests stand
in three groups in the order of the batch: `behind`, `touched`, `ahead`. -/
structure Delivery (σ : Type) where
  table : σ
  sequencer : Sequencer
  clock : Clock
  /-- The requests passed before the physical write under way, the last one
  first. -/
  behind : List Pending := []
  /-- The requests passed since the first entry of the physical write under
  way, the last one first. -/
  touched : List Pending := []
  /-- The request that the delivery stands at, and those after it. -/
  ahead : List Pending
  /-- How many entries the physical write under way has. -/
  written : Nat := 0
  /-- The first failure of storage. -/
  failure : Option StoreError := none
  phase : Phase := .seeking

/-- What looking at a request shows. -/
inductive Sight where
  /-- It has an entry to make. -/
  | ready (pending : Pending)
  /-- It has none, now or later. -/
  | passed (pending : Pending)

/-- The failure of a table that takes no entry and does not fail. -/
def StoreError.nothingTaken : StoreError :=
  .io (.described .writeZero "storage table consumed no entries")

namespace Delivery

variable {σ E : Type} (table : Table σ E) (shape : Shape E)

/-- Looks at a request.  A request that turns out to be empty is settled
here. -/
def inspect (pending : Pending) : Sight :=
  if pending.isCompleted then .passed pending
  else
    let pending := pending.peek
    if pending.lookahead.isSome then .ready pending
    else if pending.entries = 0 then
      match shape.onEmpty pending.request with
      | .ok .reference => .ready pending
      | .ok .skip => .passed pending.succeed
      | .error error => .passed (pending.fail error)
    else .passed pending

def endWrite (delivery : Delivery σ) : Delivery σ :=
  let (result, state) := table.finish delivery.table
  let failure := match result with
    | .ok () => delivery.failure
    | .error cause => delivery.failure <|> some cause
  { delivery with
    table := state
    touched := []
    failure
    phase := .settling result delivery.touched.reverse }

/-- Makes the next entry of the request that the delivery stands at. -/
def makeEntry (delivery : Delivery σ) (pending : Pending) (rest : List Pending)
    (budget : Nat) : Delivery σ :=
  let (payload, pending) := pending.take
  let (position, sequencer) := delivery.sequencer.stamp
  let entry := shape.entry pending.request payload position
  { delivery with
    table := table.take delivery.table entry
    sequencer
    ahead := pending.record position :: rest
    written := delivery.written + 1
    phase := .offering (budget - 1) }

/-- Leaves a request behind that has no entry to make. -/
def pass (delivery : Delivery σ) (pending : Pending) (rest : List Pending) :
    Delivery σ :=
  if delivery.written = 0 then
    { delivery with behind := pending :: delivery.behind, ahead := rest }
  else { delivery with touched := pending :: delivery.touched, ahead := rest }

/-- Settles the request that the delivery stands at after a physical write
with an entry of it: it is complete if it has no more payloads. -/
def settleCurrent (result : Except StoreError Unit) (pending : Pending) :
    Pending :=
  match result with
  | .error cause => pending.failStorage cause
  | .ok () =>
    if pending.isCompleted then pending
    else
      let pending := pending.peek
      if pending.lookahead.isSome then pending else pending.succeed

/-- Goes on after all requests passed in a physical write are settled. -/
def afterWrite (delivery : Delivery σ) (result : Except StoreError Unit) :
    Delivery σ :=
  if delivery.written = 0 then
    let cause := match result with
      | .ok () => StoreError.nothingTaken
      | .error cause => cause
    { delivery with
      failure := delivery.failure <|> some cause
      phase := .abandoning cause }
  else
    let ahead := match delivery.ahead with
      | [] => []
      | pending :: rest => settleCurrent result pending :: rest
    { delivery with ahead, written := 0, phase := .seeking }

def step (delivery : Delivery σ) : Delivery σ :=
  match delivery.phase with
  | .seeking =>
    match delivery.ahead with
    | [] => { delivery with phase := .finished }
    | pending :: rest =>
      match inspect shape pending with
      | .ready pending =>
        { delivery with ahead := pending :: rest, phase := .refreshing }
      | .passed pending => delivery.pass pending rest
  | .refreshing =>
    let (reading, clock) := delivery.clock.read
    match delivery.sequencer.adopt? reading with
    | some sequencer =>
      { delivery with sequencer, clock, phase := .offering sequencer.remaining }
    | none => { delivery with clock }
  | .offering budget =>
    if table.wants delivery.table && budget ≠ 0 then
      { delivery with phase := .drawing budget }
    else delivery.endWrite table
  | .drawing budget =>
    match delivery.ahead with
    | [] => delivery.endWrite table
    | pending :: rest =>
      match inspect shape pending with
      | .ready pending => delivery.makeEntry table shape pending rest budget
      | .passed pending => delivery.pass pending rest
  | .settling result [] => delivery.afterWrite result
  | .settling result (pending :: left) =>
    { delivery with
      behind := pending.conclude result :: delivery.behind
      phase := .settling result left }
  | .abandoning cause =>
    match delivery.ahead with
    | [] => { delivery with phase := .finished }
    | pending :: rest =>
      { delivery with
        behind := pending.failStorage cause :: delivery.behind
        ahead := rest }
  | .finished => delivery

def isFinished (delivery : Delivery σ) : Bool :=
  match delivery.phase with
  | .finished => true
  | _ => false

/-- Whether the next step pulls a payload from the request that the delivery
stands at. -/
def isPulling (delivery : Delivery σ) : Bool :=
  match delivery.phase, delivery.ahead with
  | .seeking, pending :: _ => pending.isPullable
  | .drawing _, pending :: _ => pending.isPullable
  | _, _ => false

/-- The requests of the batch, in order. -/
def requests (delivery : Delivery σ) : List Pending :=
  let left := match delivery.phase with
    | .settling _ left => left
    | _ => []
  delivery.behind.reverse ++ left ++ delivery.touched.reverse ++ delivery.ahead

/-- What the batch came to: the first failure of storage, if there was one. -/
def result (delivery : Delivery σ) : Except StoreError Unit :=
  match delivery.failure with
  | none => .ok ()
  | some cause => .error cause

/-- The delivery when it has finished, if that takes at most `limit` steps. -/
def run : Nat → Delivery σ → Option (Delivery σ)
  | limit, delivery =>
    if delivery.isFinished then some delivery
    else match limit with
      | 0 => none
      | limit + 1 => run limit (delivery.step table shape)

end Delivery

end MessageStore
