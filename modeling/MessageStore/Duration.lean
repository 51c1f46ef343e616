/-!
# Spans of time

A span of time, as a whole number of nanoseconds.
-/

namespace MessageStore

structure Duration where
  nanoseconds : Nat
  deriving DecidableEq, Repr, Inhabited

namespace Duration

def ofMilliseconds (n : Nat) : Duration :=
  ⟨n * 1000000⟩

/-- A span given by whole seconds and nanoseconds. -/
def ofParts (seconds nanoseconds : Nat) : Duration :=
  ⟨seconds * 1000000000 + nanoseconds⟩

def seconds (span : Duration) : Nat :=
  span.nanoseconds / 1000000000

/-- What is left of a span after its whole seconds, in nanoseconds. -/
def subsecond (span : Duration) : Nat :=
  span.nanoseconds % 1000000000

def milliseconds (span : Duration) : Nat :=
  span.nanoseconds / 1000000

end Duration

end MessageStore
