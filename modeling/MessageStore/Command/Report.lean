import MessageStore.Duration
import MessageStore.Text.Fixed

/-!
# Reports of a benchmark

How many publishers wrote how much, and how fast.
-/

namespace MessageStore

/-- The length of a span in seconds, as a floating-point number. -/
def Duration.toFloat (span : Duration) : Float :=
  span.seconds.toUInt64.toFloat + span.subsecond.toUInt64.toFloat / 1e9

structure Report where
  threads : Nat
  requests : Nat
  messages : Nat
  /-- How many physical writes there were, where that is known. -/
  physicalWrites : Option Nat := none
  deriving DecidableEq, Repr, Inhabited

namespace Report

/-- Messages per second; zero if no time has passed. -/
def throughput (report : Report) (elapsed : Duration) : Float :=
  let seconds := elapsed.toFloat
  if 0.0 < seconds then report.messages.toUInt64.toFloat / seconds else 0.0

def lines (report : Report) (elapsed : Duration) : List String :=
  ["threads:         " ++ toString report.threads,
    "requests:        " ++ toString report.requests,
    "messages:        " ++ toString report.messages,
    "elapsed:         " ++ Text.fixed 3 elapsed.toFloat ++ "s",
    "throughput:      " ++ Text.fixed 0 (report.throughput elapsed) ++ " msg/s"] ++
    match report.physicalWrites with
    | none => []
    | some writes => ["physical writes: " ++ toString writes]

def text (report : Report) (elapsed : Duration) : String :=
  "\n".intercalate (report.lines elapsed)

end Report

end MessageStore
