import MessageStore.Coordinator.Thread

/-!
# Running publishers together

An ensemble is a coordinator with the threads that use it.  A schedule says
which thread takes the next step; every sequence of thread numbers is a
schedule, and the threads have no other influence on each other than
through the coordinator.
-/

namespace MessageStore

structure Ensemble (ω μ : Type) where
  coordinator : Coordinator ω μ
  threads : Array Thread := #[]

namespace Ensemble

variable {ω μ : Type} (writer : RequestWriter ω μ)

def spawn (ensemble : Ensemble ω μ) (calls : List Call) : Ensemble ω μ :=
  { ensemble with threads := ensemble.threads.push { calls } }

def step (ensemble : Ensemble ω μ) (index : Nat) : Ensemble ω μ :=
  match ensemble.threads[index]? with
  | none => ensemble
  | some thread =>
    let (coordinator, thread) := thread.step writer ensemble.coordinator
    { coordinator, threads := ensemble.threads.setIfInBounds index thread }

def run (ensemble : Ensemble ω μ) (schedule : List Nat) : Ensemble ω μ :=
  schedule.foldl (step writer) ensemble

def isDone (ensemble : Ensemble ω μ) (index : Nat) : Bool :=
  match ensemble.threads[index]? with
  | none => true
  | some thread => thread.isDone

/-- Lets one thread take steps until it is where it should be or has nothing
left to do, if that takes at most `limit` steps. -/
def runUntil (reached : Ensemble ω μ → Bool) (index : Nat) :
    Nat → Ensemble ω μ → Option (Ensemble ω μ)
  | limit, ensemble =>
    if reached ensemble || ensemble.isDone index then some ensemble
    else match limit with
      | 0 => none
      | limit + 1 => runUntil reached index limit (ensemble.step writer index)

def runThread (index limit : Nat) (ensemble : Ensemble ω μ) :
    Option (Ensemble ω μ) :=
  ensemble.runUntil writer (fun _ => false) index limit

/-- Lets the threads take steps in turn until none has anything left to do,
if that takes at most `limit` rounds.  What a schedule does is given. -/
def runRounds (runs : Ensemble ω μ → List Nat → Ensemble ω μ) :
    Nat → Ensemble ω μ → Option (Ensemble ω μ)
  | limit, ensemble =>
    if ensemble.threads.all Thread.isDone then some ensemble
    else match limit with
      | 0 => none
      | limit + 1 =>
        runRounds runs limit (runs ensemble (List.range ensemble.threads.size))

def runInTurn : Nat → Ensemble ω μ → Option (Ensemble ω μ) :=
  runRounds (run writer)

def returns (ensemble : Ensemble ω μ) (index : Nat) : List Return :=
  match ensemble.threads[index]? with
  | none => []
  | some thread => thread.returns.reverse

end Ensemble

end MessageStore
