import MessageStore.Duration

/-!
# Clocks

A clock is known by its readings: what it shows when it is read for the
first time, the second time, and so on.  Nothing is assumed about them; they
may repeat, jump and go back.  Arithmetic on timestamps wraps at 64 bits.
-/

namespace MessageStore

/-- A source of timestamps, in milliseconds. -/
structure Clock where
  /-- What the clock shows at each reading, counted from zero. -/
  reading : Nat → UInt64
  reads : Nat := 0

namespace Clock

/-- Shows `start`, `start + 1` and so on. -/
def counting (start : UInt64) : Clock :=
  { reading := fun k => start + k.toUInt64 }

def stopped (at_ : UInt64) : Clock :=
  { reading := fun _ => at_ }

/-- Shows the listed timestamps, and the last of them from then on. -/
def listed (readings : Array UInt64) : Clock :=
  { reading := fun k =>
      (readings[k]?).getD ((readings.back?).getD 0) }

def read (clock : Clock) : UInt64 × Clock :=
  (clock.reading clock.reads, { clock with reads := clock.reads + 1 })

/-- Stops the clock at a timestamp, which may be an earlier one. -/
def set (clock : Clock) (at_ : UInt64) : Clock :=
  { clock with reading := fun _ => at_ }

/-- Moves a stopped clock on by the whole milliseconds of a span. -/
def advance (clock : Clock) (span : Duration) : Clock :=
  clock.set (clock.reading clock.reads + span.milliseconds.toUInt64)

end Clock

end MessageStore
