import MessageStore.Coordinator.Ensemble

/-!
# Scenarios

Schedules with a meaning.  In the gated scenario one publisher is stopped
where the writer is about to pull its first payload.  Others push their
requests behind it and may close the coordinator; then the first publisher
goes on and everybody finishes.  So the first request is written alone, and
the others are written together by whoever is elected next.

A publisher that is refused, or whose writer pulls no payload, is not
stopped.  Then nobody waits, and the publishers finish one after the other.
-/

namespace MessageStore

namespace Ensemble

variable {ω μ : Type} (writer : RequestWriter ω μ)

def activity (ensemble : Ensemble ω μ) (index : Nat) : Activity :=
  match ensemble.threads[index]? with
  | none => .idle
  | some thread => thread.activity

/-- Whether a thread drives the writer and the writer is about to pull a
payload. -/
def isPulling (index : Nat) (ensemble : Ensemble ω μ) : Bool :=
  match ensemble.activity index, ensemble.coordinator.flight with
  | .flushing .writing _, .writing work => writer.isPulling work
  | _, _ => false

def hasPushed (index : Nat) (ensemble : Ensemble ω μ) : Bool :=
  match ensemble.activity index with
  | .watching _ => true
  | _ => false

def hasClosed (index : Nat) (ensemble : Ensemble ω μ) : Bool :=
  match ensemble.activity index with
  | .acquiring => true
  | _ => false

/-- Starts a thread with one call and lets it run until it has come to a
certain place or has nothing left to do. -/
def startUntil (limit : Nat) (reached : Nat → Ensemble ω μ → Bool)
    (ensemble : Ensemble ω μ) (call : Call) : Option (Ensemble ω μ) :=
  let index := ensemble.threads.size
  (ensemble.spawn [call]).runUntil writer (reached index) index limit

def finishAll (limit : Nat) (ensemble : Ensemble ω μ) : Option (Ensemble ω μ) :=
  (List.range ensemble.threads.size).foldlM
    (fun ensemble index => ensemble.runThread writer index limit) ensemble

end Ensemble

structure Gated (ω μ : Type) where
  entered : Bool
  waiting : Nat
  ensemble : Ensemble ω μ

/-- Runs the gated scenario: `first` is stopped, `queued` are pushed behind
it, then the coordinator is closed if `closes`, then `late` come.  The
threads are numbered in this order.  Once `first` could not be stopped, each
thread runs to its end before the next one starts. -/
def Gated.run {ω μ : Type} (writer : RequestWriter ω μ) (limit : Nat)
    (coordinator : Coordinator ω μ) (first : Request) (queued : List Request)
    (closes : Bool) (late : List Request) : Option (Gated ω μ) := do
  let ensemble ← Ensemble.startUntil writer limit (Ensemble.isPulling writer)
    { coordinator } (.persist first)
  let entered := ensemble.isPulling writer 0
  let start (reached : Nat → Ensemble ω μ → Bool) :=
    Ensemble.startUntil writer limit fun index ensemble => entered && reached index ensemble
  let ensemble ← queued.foldlM
    (fun ensemble request => start Ensemble.hasPushed ensemble (.persist request)) ensemble
  let waiting := ensemble.coordinator.queue.length
  let ensemble ← if closes then start Ensemble.hasClosed ensemble .close else some ensemble
  let ensemble ← late.foldlM
    (fun ensemble request => start Ensemble.hasPushed ensemble (.persist request)) ensemble
  return { entered, waiting, ensemble := ← ensemble.finishAll writer limit }

end MessageStore
