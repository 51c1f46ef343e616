import MessageStore.Clock
import MessageStore.Position

/-!
# Assigning positions

The sequencer hands out positions.  A timestamp has room for 65536 of them;
when they are used up, the sequencer waits until the clock shows a later
one.  A reading earlier than the timestamp in use counts as that timestamp,
so positions never repeat.
-/

namespace MessageStore

structure Sequencer where
  /-- The timestamp in use; none before the first reading. -/
  last : Option UInt64 := none
  /-- The next sequence id; the limit when all are used up. -/
  next : Nat := 0
  deriving DecidableEq, Repr

namespace Sequencer

/-- How many sequence ids a timestamp has. -/
def limit : Nat := 65536

def timestamp (sequencer : Sequencer) : UInt64 :=
  sequencer.last.getD 0

/-- The sequence ids left at the timestamp in use. -/
def remaining (sequencer : Sequencer) : Nat :=
  limit - sequencer.next

/-- The timestamp that a reading stands for: time does not go back. -/
def clamp (sequencer : Sequencer) (reading : UInt64) : UInt64 :=
  match sequencer.last with
  | some last => if reading < last then last else reading
  | none => reading

/-- Adopts a reading of the clock.  There is no answer if the reading gives
no room: it stands for the timestamp in use, and that is used up. -/
def adopt? (sequencer : Sequencer) (reading : UInt64) : Option Sequencer :=
  let now := sequencer.clamp reading
  if sequencer.last = some now then
    if limit ≤ sequencer.next then none else some sequencer
  else some { last := some now, next := 0 }

/-- Reads the clock until a reading gives room, at most `patience` times. -/
def update : Nat → Sequencer → Clock → Option (Sequencer × Clock)
  | 0, _, _ => none
  | patience + 1, sequencer, clock =>
    let (reading, clock) := clock.read
    match sequencer.adopt? reading with
    | some sequencer => some (sequencer, clock)
    | none => update patience sequencer clock

def stamp (sequencer : Sequencer) : Position × Sequencer :=
  (⟨sequencer.timestamp, sequencer.next.toUInt16⟩,
    { sequencer with next := sequencer.next + 1 })

def stamps : Nat → Sequencer → List Position × Sequencer
  | 0, sequencer => ([], sequencer)
  | n + 1, sequencer =>
    let (position, sequencer) := sequencer.stamp
    let (positions, sequencer) := stamps n sequencer
    (position :: positions, sequencer)

end Sequencer

end MessageStore
