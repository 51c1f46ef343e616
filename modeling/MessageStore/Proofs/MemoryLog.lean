import MessageStore.Storage.Handles
import Mathlib.Data.List.SplitLengths
import Mathlib.Tactic

/-!
# The log of a table in memory

All that can be seen of a table in memory follows from the calls made of it:
which stores fail and why, the entries and the sizes of the writes.  It does not
matter through which of its handles a call was made.
-/

namespace MessageStore

variable {E : Type}

/-- A call of a table and its answer. -/
structure MemoryEvent (E : Type) where
  call : MemoryCall E
  answer : MemoryAnswer E

namespace MemoryEvent

/-- The batch of a store that succeeded. -/
def batch? : MemoryEvent E → Option (List E)
  | ⟨.store entries, .stored (.ok _) _⟩ => some entries
  | _ => none

/-- The reason laid down for a store to come. -/
def reason? : MemoryEvent E → Option String
  | ⟨.failNext reason, _⟩ => some reason
  | _ => none

/-- A store that failed for a reason laid down before. -/
def isInjected : MemoryEvent E → Bool
  | ⟨.store _, .stored (.error (.injected _)) _⟩ => true
  | _ => false

def isClose : MemoryEvent E → Bool
  | ⟨.close, _⟩ => true
  | _ => false

end MemoryEvent

/-- The calls made of a table, the first one first. -/
abbrev MemoryLog (E : Type) := List (MemoryEvent E)

namespace MemoryLog

def batches (log : MemoryLog E) : List (List E) :=
  log.filterMap MemoryEvent.batch?

def reasons (log : MemoryLog E) : List String :=
  log.filterMap MemoryEvent.reason?

/-- How many of the reasons are used up. -/
def used (log : MemoryLog E) : Nat :=
  log.countP MemoryEvent.isInjected

def isClosed (log : MemoryLog E) : Bool :=
  log.any MemoryEvent.isClose

/-- What a store comes to after these calls: a close comes before any reason,
and the oldest reason that is not used up is the next one. -/
def due (log : MemoryLog E) : Except StoreError Unit :=
  if log.isClosed then .error .closed
  else match log.reasons[log.used]? with
    | some reason => .error (.injected reason)
    | none => .ok ()

/-- What a call is answered after these calls; a store pulls all of its
entries. -/
def answerTo (log : MemoryLog E) : MemoryCall E → MemoryAnswer E
  | .store _ => .stored log.due []
  | .failNext _ => .noted
  | .close => .closed (.ok ())

/-- A further call, with its answer. -/
def extend (log : MemoryLog E) (call : MemoryCall E) : MemoryLog E :=
  log ++ [⟨call, log.answerTo call⟩]

/-- These calls, one after the other, each with its answer. -/
def ofCalls (calls : List (MemoryCall E)) : MemoryLog E :=
  calls.foldl extend []

/-- Every call was answered as the calls before it have it. -/
def Follows (log : MemoryLog E) : Prop :=
  ∀ (before : MemoryLog E) (event : MemoryEvent E) (after : MemoryLog E),
    log = before ++ event :: after → event.answer = before.answerTo event.call

@[simp] theorem batches_append (log more : MemoryLog E) :
    (log ++ more).batches = log.batches ++ more.batches :=
  List.filterMap_append

@[simp] theorem reasons_append (log more : MemoryLog E) :
    (log ++ more).reasons = log.reasons ++ more.reasons :=
  List.filterMap_append

@[simp] theorem used_append (log more : MemoryLog E) :
    (log ++ more).used = log.used + more.used :=
  List.countP_append

@[simp] theorem isClosed_append (log more : MemoryLog E) :
    (log ++ more).isClosed = (log.isClosed || more.isClosed) :=
  List.any_append

variable {log : MemoryLog E}

theorem due_of_closed (hclosed : log.isClosed = true) : log.due = .error .closed := by
  rw [due, if_pos hclosed]

theorem due_of_reason (hopen : log.isClosed = false) {reason : String}
    (hnext : log.reasons[log.used]? = some reason) : log.due = .error (.injected reason) := by
  rw [due, hopen, hnext]
  rfl

theorem due_of_none (hopen : log.isClosed = false)
    (hnext : log.reasons[log.used]? = none) : log.due = .ok () := by
  rw [due, hopen, hnext]
  rfl

theorem Follows.append (hfollows : log.Follows) {event : MemoryEvent E}
    (hanswer : event.answer = log.answerTo event.call) : Follows (log ++ [event]) := by
  intro before other after hsplit
  rcases List.eq_nil_or_concat after with rfl | ⟨front, last, rfl⟩
  · obtain ⟨rfl, hlast⟩ := List.append_inj' hsplit rfl
    cases hlast
    exact hanswer
  · rw [List.concat_eq_append, ← List.cons_append, ← List.append_assoc] at hsplit
    exact hfollows before other front (List.append_inj' hsplit rfl).1

end MemoryLog

namespace MemoryTable

/-- A store takes all that it is offered; only then is it decided what becomes
of that. -/
theorem store_eq (table : MemoryTable E) (entries : List E) :
    behaviour.store table entries =
      (({ table with taken := table.taken ++ entries.toArray }).finish.1,
        ({ table with taken := table.taken ++ entries.toArray }).finish.2, []) := by
  have hoffer : behaviour.offer table entries =
      ({ table with taken := table.taken ++ entries.toArray }, []) := by
    induction entries generalizing table with
    | nil => rw [Table.offer, Array.append_empty]
    | cons entry entries ih =>
        change behaviour.offer (table.take entry) entries = _
        rw [ih]
        simp [take]
  rw [Table.store, hoffer]
  rfl

theorem finish_cases (table : MemoryTable E) :
    (table.closed = true ∧
        table.finish = (.error .closed, { table with taken := #[] })) ∨
      (table.closed = false ∧ ∃ reason failures, table.failures = reason :: failures ∧
        table.finish = (.error (.injected reason), { table with failures, taken := #[] })) ∨
      (table.closed = false ∧ table.failures = [] ∧
        table.finish = (.ok (), { table with
          entries := table.entries ++ table.taken
          writeSizes := table.writeSizes.push table.taken.size
          taken := #[] })) := by
  rw [finish]
  cases hclosed : table.closed with
  | true => exact Or.inl ⟨rfl, rfl⟩
  | false =>
      cases hfailures : table.failures with
      | cons reason failures => exact Or.inr (Or.inl ⟨rfl, reason, failures, rfl, rfl⟩)
      | nil => exact Or.inr (Or.inr ⟨rfl, rfl, rfl⟩)

/-- The calls made of a table account for all that it holds. -/
structure Keeps (table : MemoryTable E) (log : MemoryLog E) : Prop where
  follows : log.Follows
  entries_eq : table.entries.toList = log.batches.flatten
  sizes_eq : table.writeSizes.toList = log.batches.map List.length
  closed_eq : table.closed = log.isClosed
  failures_eq : table.failures = log.reasons.drop log.used
  used_le : log.used ≤ log.reasons.length
  taken_eq : table.taken = #[]

theorem Keeps.empty : Keeps ({} : MemoryTable E) [] where
  follows := by
    intro before event after hsplit
    cases before <;> contradiction
  entries_eq := rfl
  sizes_eq := rfl
  closed_eq := rfl
  failures_eq := rfl
  used_le := Nat.le_refl 0
  taken_eq := rfl

namespace Keeps

variable {table later : MemoryTable E} {log : MemoryLog E}

/-- What a call adds to the table it adds to what the log says of it. -/
theorem append (hkeeps : table.Keeps log) {event : MemoryEvent E}
    (hanswer : event.answer = log.answerTo event.call)
    (hentries : later.entries.toList =
      table.entries.toList ++ (MemoryLog.batches [event]).flatten)
    (hsizes : later.writeSizes.toList =
      table.writeSizes.toList ++ (MemoryLog.batches [event]).map List.length)
    (hclosed : later.closed = (table.closed || MemoryLog.isClosed [event]))
    (hfailures : later.failures =
      (table.failures ++ MemoryLog.reasons [event]).drop (MemoryLog.used [event]))
    (hused : MemoryLog.used [event] ≤ (table.failures ++ MemoryLog.reasons [event]).length)
    (htaken : later.taken = #[]) : later.Keeps (log ++ [event]) where
  follows := hkeeps.follows.append hanswer
  entries_eq := by
    rw [hentries, hkeeps.entries_eq, MemoryLog.batches_append, List.flatten_append]
  sizes_eq := by
    rw [hsizes, hkeeps.sizes_eq, MemoryLog.batches_append, List.map_append]
  closed_eq := by
    rw [hclosed, hkeeps.closed_eq, MemoryLog.isClosed_append]
  failures_eq := by
    rw [hfailures, hkeeps.failures_eq, MemoryLog.reasons_append, MemoryLog.used_append,
      ← List.drop_append_of_le_length hkeeps.used_le, List.drop_drop]
  used_le := by
    rw [hkeeps.failures_eq, List.length_append, List.length_drop] at hused
    rw [MemoryLog.reasons_append, MemoryLog.used_append, List.length_append]
    have hle := hkeeps.used_le
    omega
  taken_eq := htaken

theorem next_reason (hkeeps : table.Keeps log) :
    log.reasons[log.used]? = table.failures.head? := by
  rw [hkeeps.failures_eq, List.head?_drop]

theorem store (hkeeps : table.Keeps log) (entries : List E) :
    (table.call (.store entries)).1 = log.answerTo (.store entries) ∧
      (table.call (.store entries)).2.Keeps
        (log ++ [⟨.store entries, (table.call (.store entries)).1⟩]) := by
  have hcall : table.call (.store entries) =
      (.stored ({ table with taken := entries.toArray }).finish.1 [],
        ({ table with taken := entries.toArray }).finish.2) := by
    rw [MemoryTable.call, store_eq, hkeeps.taken_eq, Array.empty_append]
  rw [hcall, MemoryLog.answerTo]
  rcases ({ table with taken := entries.toArray }).finish_cases with
    ⟨hclosed, hfinish⟩ | ⟨hopen, reason, failures, hfailures, hfinish⟩ |
      ⟨hopen, hfailures, hfinish⟩
  · have hdue : log.due = .error .closed := MemoryLog.due_of_closed (hkeeps.closed_eq ▸ hclosed)
    rw [hfinish, hdue]
    refine ⟨rfl, hkeeps.append (by rw [MemoryLog.answerTo, hdue]) (List.append_nil _).symm
      (List.append_nil _).symm (Bool.or_false _).symm (List.append_nil _).symm
      (Nat.zero_le _) rfl⟩
  · have hnext := hkeeps.next_reason
    rw [hfailures] at hnext
    have hdue : log.due = .error (.injected reason) :=
      MemoryLog.due_of_reason (hkeeps.closed_eq ▸ hopen) hnext
    rw [hfinish, hdue]
    refine ⟨rfl, hkeeps.append (by rw [MemoryLog.answerTo, hdue]) (List.append_nil _).symm
      (List.append_nil _).symm (Bool.or_false _).symm ?_ ?_ rfl⟩
    · rw [hfailures]
      exact (List.append_nil failures).symm
    · rw [hfailures]
      exact Nat.succ_pos _
  · have hnext := hkeeps.next_reason
    rw [hfailures] at hnext
    have hdue : log.due = .ok () := MemoryLog.due_of_none (hkeeps.closed_eq ▸ hopen) hnext
    rw [hfinish, hdue]
    refine ⟨rfl, hkeeps.append (by rw [MemoryLog.answerTo, hdue]) ?_ ?_ (Bool.or_false _).symm
      (List.append_nil _).symm (Nat.zero_le _) rfl⟩
    · rw [Array.toList_append]
      exact congrArg _ (List.append_nil entries).symm
    · exact Array.toList_push

theorem call (hkeeps : table.Keeps log) (call : MemoryCall E) :
    (table.call call).1 = log.answerTo call ∧
      (table.call call).2.Keeps (log.extend call) := by
  cases call with
  | store entries =>
      obtain ⟨hanswer, hlater⟩ := hkeeps.store entries
      rw [hanswer] at hlater
      exact ⟨hanswer, hlater⟩
  | failNext reason =>
      exact ⟨rfl, hkeeps.append rfl (List.append_nil _).symm (List.append_nil _).symm
        (Bool.or_false _).symm rfl (Nat.zero_le _) hkeeps.taken_eq⟩
  | close =>
      exact ⟨rfl, hkeeps.append rfl (List.append_nil _).symm (List.append_nil _).symm
        (Bool.or_true _).symm (List.append_nil _).symm (Nat.zero_le _) hkeeps.taken_eq⟩

theorem sum_writeSizes (hkeeps : table.Keeps log) :
    table.writeSizes.toList.sum = table.size := by
  rw [size, ← Array.length_toList, hkeeps.entries_eq, hkeeps.sizes_eq, List.length_flatten]

/-- The sizes of the writes cut the entries into the batches. -/
theorem splitLengths_entries (hkeeps : table.Keeps log) :
    table.writeSizes.toList.splitLengths table.entries.toList = log.batches := by
  rw [hkeeps.entries_eq, hkeeps.sizes_eq]
  induction log.batches with
  | nil => rfl
  | cons batch batches ih =>
      rw [List.map_cons, List.splitLengths_cons, List.flatten_cons, List.take_left',
        List.drop_left', ih] <;> rfl

end Keeps

end MemoryTable

namespace MemoryHandles

/-- The call that a step makes of a table. -/
def call? (shared : MemoryHandles E) (place : Nat) : HandleStep E → Option (MemoryCall E)
  | .call handle call => if shared.handles[handle]? = some place then some call else none
  | _ => none

/-- The calls that steps make of a table, through whichever of its handles. -/
def callsOf (shared : MemoryHandles E) (place : Nat) :
    List (HandleStep E) → List (MemoryCall E)
  | [] => []
  | step :: steps => (shared.call? place step).toList ++ (shared.step step).callsOf place steps

/-- The ways that a step can go, with the call that it makes of each table. -/
inductive Move (shared : MemoryHandles E) :
    MemoryHandles E → (Nat → Option (MemoryCall E)) → Prop
  | stay : Move shared shared fun _ => none
  | call {handle place : Nat} {table : MemoryTable E}
      (hplace : shared.handles[handle]? = some place)
      (htable : shared.tables[place]? = some table) (call : MemoryCall E) :
      Move shared { shared with tables := shared.tables.setIfInBounds place (table.call call).2 }
        fun other => if place = other then some call else none
  | clone {handle place : Nat} (hplace : shared.handles[handle]? = some place) :
      Move shared { shared with handles := shared.handles.push place } fun _ => none
  | new : Move shared shared.new.2 fun _ => none

variable {shared later : MemoryHandles E} {calls : Nat → Option (MemoryCall E)}
  {logs : Nat → MemoryLog E} {handle place : Nat}

theorem clone_of_handle (hplace : shared.handles[handle]? = some place) :
    shared.clone handle = some (shared.handles.size,
      { shared with handles := shared.handles.push place }) := by
  rw [clone, hplace]
  rfl

/-- A handle goes on to stand for the table that it stands for. -/
theorem Move.handle_eq (hmove : Move shared later calls)
    (hplace : shared.handles[handle]? = some place) : later.handles[handle]? = some place := by
  cases hmove with
  | stay | call => exact hplace
  | clone | new =>
      obtain ⟨hlt, -⟩ := Array.getElem?_eq_some_iff.mp hplace
      exact (Array.getElem?_push_lt hlt).trans (hplace ▸ (Array.getElem?_eq_getElem hlt).symm)

/-- Every table is accounted for by the calls made of it. -/
structure Keeps (shared : MemoryHandles E) (logs : Nat → MemoryLog E) : Prop where
  place_lt : ∀ handle place : Nat,
    shared.handles[handle]? = some place → place < shared.tables.size
  tables : ∀ (place : Nat) (table : MemoryTable E),
    shared.tables[place]? = some table → table.Keeps (logs place)
  logs_nil : ∀ place, shared.tables.size ≤ place → logs place = []

theorem Keeps.start : Keeps ({} : MemoryHandles E) fun _ => [] where
  place_lt handle place hplace := by
    obtain rfl : place = 0 := by simpa using Array.mem_of_getElem? hplace
    exact Nat.zero_lt_one
  tables place table htable := by
    obtain rfl : table = {} := by simpa using Array.mem_of_getElem? htable
    exact .empty
  logs_nil _ _ := rfl

/-- A handle has a table, so a call through it is answered. -/
theorem Keeps.call_eq (hkeeps : shared.Keeps logs) (hplace : shared.handles[handle]? = some place)
    (call : MemoryCall E) :
    ∃ table, shared.tables[place]? = some table ∧
      shared.call handle call = some ((table.call call).1,
        { shared with tables := shared.tables.setIfInBounds place (table.call call).2 }) := by
  have htable := Array.getElem?_eq_getElem (hkeeps.place_lt handle place hplace)
  refine ⟨_, htable, ?_⟩
  simp only [MemoryHandles.call, hplace, htable, Option.bind_eq_bind, Option.bind_some]
  rfl

theorem Keeps.step_move (hkeeps : shared.Keeps logs) (step : HandleStep E) :
    Move shared (shared.step step) fun place => shared.call? place step := by
  cases step with
  | new => exact .new
  | clone handle =>
      rw [MemoryHandles.step, MemoryHandles.clone]
      cases hplace : shared.handles[handle]? with
      | none => exact .stay
      | some place => exact .clone hplace
  | call handle call =>
      cases hplace : shared.handles[handle]? with
      | none =>
          simp only [call?, MemoryHandles.step, MemoryHandles.call, hplace]
          exact .stay
      | some place =>
          obtain ⟨table, htable, hcall⟩ := hkeeps.call_eq hplace call
          simp only [call?, MemoryHandles.step, hcall, hplace, Option.some.injEq]
          exact .call hplace htable call

theorem Keeps.move (hkeeps : shared.Keeps logs) (hmove : Move shared later calls) :
    later.Keeps fun place => (calls place).toList.foldl MemoryLog.extend (logs place) := by
  cases hmove with
  | stay => exact hkeeps
  | @call handle place table hplace htable call =>
      refine ⟨?_, ?_, ?_⟩
      · intro other place hother
        rw [Array.size_setIfInBounds]
        exact hkeeps.place_lt other place hother
      · intro other found hfound
        have hlt : place < shared.tables.size := (Array.getElem?_eq_some_iff.mp htable).1
        rw [Array.getElem?_setIfInBounds] at hfound
        by_cases heq : place = other
        · subst heq
          rw [if_pos rfl, if_pos hlt, Option.some.injEq] at hfound
          subst hfound
          simp only [if_true]
          exact ((hkeeps.tables place table htable).call call).2
        · rw [if_neg heq] at hfound
          simp only [if_neg heq]
          exact hkeeps.tables other found hfound
      · intro other hle
        rw [Array.size_setIfInBounds] at hle
        have hne : place ≠ other := by
          rintro rfl
          exact absurd (hkeeps.place_lt handle place hplace) (Nat.not_lt.mpr hle)
        simp only [if_neg hne]
        exact hkeeps.logs_nil other hle
  | clone hplace =>
      refine ⟨?_, hkeeps.tables, hkeeps.logs_nil⟩
      intro other place hother
      rw [Array.getElem?_push] at hother
      split at hother
      next =>
        cases hother
        exact hkeeps.place_lt _ _ hplace
      next => exact hkeeps.place_lt other place hother
  | new =>
      refine ⟨?_, ?_, ?_⟩
      · intro other place hother
        simp only [MemoryHandles.new, Array.size_push] at hother ⊢
        rw [Array.getElem?_push] at hother
        split at hother
        next =>
          cases hother
          exact Nat.lt_succ_self _
        next => exact Nat.lt_succ_of_lt (hkeeps.place_lt other place hother)
      · intro place table htable
        simp only [MemoryHandles.new] at htable
        rw [Array.getElem?_push] at htable
        split at htable
        next heq =>
          cases htable
          rw [hkeeps.logs_nil place (Nat.le_of_eq heq.symm)]
          exact .empty
        next => exact hkeeps.tables place table htable
      · intro place hle
        simp only [MemoryHandles.new, Array.size_push] at hle
        exact hkeeps.logs_nil place (Nat.le_of_succ_le hle)

theorem Keeps.run (hkeeps : shared.Keeps logs) (steps : List (HandleStep E)) :
    (shared.run steps).Keeps fun place =>
      (shared.callsOf place steps).foldl MemoryLog.extend (logs place) := by
  induction steps generalizing shared logs with
  | nil => exact hkeeps
  | cons step steps ih =>
      have hlater := ih (hkeeps.move (hkeeps.step_move step))
      simp only [← List.foldl_append] at hlater
      exact hlater

theorem Keeps.handle_run (hkeeps : shared.Keeps logs) (steps : List (HandleStep E))
    (hplace : shared.handles[handle]? = some place) :
    (shared.run steps).handles[handle]? = some place := by
  induction steps generalizing shared logs with
  | nil => exact hplace
  | cons step steps ih =>
      have hmove := hkeeps.step_move step
      exact ih (hkeeps.move hmove) (hmove.handle_eq hplace)

theorem run_append_cons (shared : MemoryHandles E) (front : List (HandleStep E))
    (step : HandleStep E) (rest : List (HandleStep E)) :
    shared.run (front ++ step :: rest) = ((shared.run front).step step).run rest := by
  rw [run, run, run, List.foldl_append, List.foldl_cons]

/-- A clone is made, and stands for the table of its handle from then on. -/
theorem Keeps.clone_stands (hkeeps : shared.Keeps logs)
    (hplace : shared.handles[handle]? = some place) (rest : List (HandleStep E)) :
    let after := (shared.step (.clone handle)).run rest
    ∃ number later, shared.clone handle = some (number, later) ∧
      after.handles[number]? = some place ∧ after.handles[handle]? = some place := by
  intro after
  have hmove := hkeeps.step_move (.clone handle)
  have hlater := hkeeps.move hmove
  have hclone := clone_of_handle hplace
  refine ⟨_, _, hclone, hlater.handle_run rest ?_, hlater.handle_run rest (hmove.handle_eq hplace)⟩
  rw [step, hclone]
  exact Array.getElem?_push_size

theorem Keeps.answers (hkeeps : shared.Keeps logs)
    (hplace : shared.handles[handle]? = some place) (call : MemoryCall E) :
    ∃ later, shared.call handle call = some ((logs place).answerTo call, later) ∧
      shared.step (.call handle call) = later := by
  obtain ⟨table, htable, hcall⟩ := hkeeps.call_eq hplace call
  have hanswer := ((hkeeps.tables place table htable).call call).1
  refine ⟨_, hcall.trans (congrArg (fun answer => some (answer, _)) hanswer), ?_⟩
  rw [step, hcall]
  rfl

/-- A table in memory is a faithful log, whatever is done with any number of
handles.

A clone stands for the same table as its handle, for good, and all handles of a
table show the same.  A call through one of them is answered as the calls before
it have it, whichever handles these went through: every store pulls all of its
entries and fails as closed if there was a close before it, else with the oldest
reason not used up, which it uses up, else it succeeds.  The table holds the
batches of the stores that succeeded, one after the other, and their sizes, which
cut the entries into these batches again. -/
theorem clones_share_one_log (steps : List (HandleStep E)) :
    let start : MemoryHandles E := {}
    let after := start.run steps
    (∀ (front : List (HandleStep E)) (handle : Nat) (rest : List (HandleStep E)),
      steps = front ++ .clone handle :: rest →
        ∀ place, (start.run front).handles[handle]? = some place →
          ∃ number later, (start.run front).clone handle = some (number, later) ∧
            after.handles[number]? = some place ∧ after.handles[handle]? = some place) ∧
    (∀ (front : List (HandleStep E)) (handle : Nat) (call : MemoryCall E)
      (rest : List (HandleStep E)), steps = front ++ .call handle call :: rest →
        ∀ place, (start.run front).handles[handle]? = some place →
          ∃ later, (start.run front).call handle call =
              some ((MemoryLog.ofCalls (start.callsOf place front)).answerTo call, later) ∧
            later.run rest = after) ∧
    ∀ handle place : Nat, after.handles[handle]? = some place →
      let log := MemoryLog.ofCalls (start.callsOf place steps)
      ∃ table : MemoryTable E,
        (∀ clone : Nat, after.handles[clone]? = some place → after.table? clone = some table) ∧
        table.Keeps log ∧
        table.writeSizes.toList.sum = table.size ∧
        table.writeSizes.toList.splitLengths table.entries.toList = log.batches := by
  intro start after
  refine ⟨?_, ?_, ?_⟩
  · intro front handle rest hsteps place hplace
    have hclone := (Keeps.start.run front).clone_stands hplace rest
    rwa [← run_append_cons, ← hsteps] at hclone
  · intro front handle call rest hsteps place hplace
    obtain ⟨later, hcall, hstep⟩ := (Keeps.start.run front).answers hplace call
    refine ⟨later, hcall, ?_⟩
    rw [← hstep, ← run_append_cons, ← hsteps]
  · intro handle place hplace log
    have hkeeps := Keeps.start.run steps
    have htable := Array.getElem?_eq_getElem (hkeeps.place_lt handle place hplace)
    have hlog := hkeeps.tables place _ htable
    refine ⟨_, ?_, hlog, hlog.sum_writeSizes, hlog.splitLengths_entries⟩
    intro clone hclone
    rw [table?, hclone]
    exact htable

-- A close through a clone comes before the failure laid down through the handle.
example : ((({} : MemoryHandles Nat).run [.call 0 (.failNext "full"), .clone 0,
    .call 1 .close]).call 0 (.store [1])).map Prod.fst =
      some (.stored (.error .closed) []) :=
  rfl

end MemoryHandles

end MessageStore
