import MessageStore.Entry
import MessageStore.Writer.Basic
import Mathlib.Tactic

/-!
# The chronicle of a delivery

A chronicle is a delivery together with a record of what it did to its table:
the calls that have ended, each with the entries handed over and its result,
and the entries handed over in the call under way.  Every entry is recorded
with the place of its request in the batch and with the count that the
sequencer stamped it with.

The record has no influence on the delivery, and the table has been through
the recorded calls and through nothing else.  The inversion theorem at the end lists
the moves of a chronicle; invariants are shown move by move.
-/

namespace MessageStore

/-- An entry as it was handed to a table. -/
structure HandedEntry (E : Type) where
  /-- The place of its request in the batch. -/
  owner : Nat
  /-- The sequence id before it is cut to 16 bits. -/
  count : Nat
  entry : E
  deriving DecidableEq, Repr

def HandedEntry.position {E : Type} [TableEntry E] (handed : HandedEntry E) :
    Position :=
  TableEntry.position handed.entry

structure StoreCall (E : Type) where
  handed : List (HandedEntry E)
  result : Except StoreError Unit

/-- What a step of a delivery does to the table. -/
inductive TableAct (E : Type) where
  | take (handed : HandedEntry E)
  | finish (result : Except StoreError Unit)

/-- A delivery and what it did to its table. -/
structure Chronicle (σ E : Type) where
  delivery : Delivery σ
  /-- The calls of the table that have ended, in order. -/
  calls : List (StoreCall E) := []
  /-- The entries handed over in the call under way. -/
  current : List (HandedEntry E) := []

namespace Delivery

variable {σ E : Type} (table : Table σ E) (shape : Shape E)

/-- The requests of a call that has ended that are not settled yet. -/
def left (delivery : Delivery σ) : List Pending :=
  match delivery.phase with
  | .settling _ left => left
  | _ => []

/-- The place in the batch of the request that the delivery stands at. -/
def cursor (delivery : Delivery σ) : Nat :=
  delivery.behind.length + delivery.left.length + delivery.touched.length

/-- The entry that the delivery makes next of a request. -/
def nextEntry (delivery : Delivery σ) (pending : Pending) : HandedEntry E where
  owner := delivery.cursor
  count := delivery.sequencer.next
  entry := shape.entry pending.take.2.request pending.take.1
    delivery.sequencer.stamp.1

def act (delivery : Delivery σ) : Option (TableAct E) :=
  match delivery.phase with
  | .offering budget =>
    if table.wants delivery.table && budget ≠ 0 then none
    else some (.finish (table.finish delivery.table).1)
  | .drawing _ =>
    match delivery.ahead with
    | [] => some (.finish (table.finish delivery.table).1)
    | pending :: _ =>
      match inspect shape pending with
      | .ready pending => some (.take (delivery.nextEntry shape pending))
      | .passed _ => none
  | _ => none

@[simp] theorem pass_table (delivery : Delivery σ) (pending : Pending)
    (rest : List Pending) :
    (delivery.pass pending rest).table = delivery.table := by
  unfold pass
  split <;> rfl

@[simp] theorem pass_sequencer (delivery : Delivery σ) (pending : Pending)
    (rest : List Pending) :
    (delivery.pass pending rest).sequencer = delivery.sequencer := by
  unfold pass
  split <;> rfl

@[simp] theorem pass_clock (delivery : Delivery σ) (pending : Pending)
    (rest : List Pending) :
    (delivery.pass pending rest).clock = delivery.clock := by
  unfold pass
  split <;> rfl

@[simp] theorem pass_phase (delivery : Delivery σ) (pending : Pending)
    (rest : List Pending) :
    (delivery.pass pending rest).phase = delivery.phase := by
  unfold pass
  split <;> rfl

@[simp] theorem pass_written (delivery : Delivery σ) (pending : Pending)
    (rest : List Pending) :
    (delivery.pass pending rest).written = delivery.written := by
  unfold pass
  split <;> rfl

@[simp] theorem pass_failure (delivery : Delivery σ) (pending : Pending)
    (rest : List Pending) :
    (delivery.pass pending rest).failure = delivery.failure := by
  unfold pass
  split <;> rfl

@[simp] theorem afterWrite_table (delivery : Delivery σ)
    (result : Except StoreError Unit) :
    (delivery.afterWrite result).table = delivery.table := by
  unfold afterWrite
  split <;> rfl

@[simp] theorem afterWrite_sequencer (delivery : Delivery σ)
    (result : Except StoreError Unit) :
    (delivery.afterWrite result).sequencer = delivery.sequencer := by
  unfold afterWrite
  split <;> rfl

@[simp] theorem afterWrite_clock (delivery : Delivery σ)
    (result : Except StoreError Unit) :
    (delivery.afterWrite result).clock = delivery.clock := by
  unfold afterWrite
  split <;> rfl

/-- A step changes the table by its act and in no other way. -/
theorem step_table (delivery : Delivery σ) :
    (delivery.step table shape).table =
      match delivery.act table shape with
      | none => delivery.table
      | some (.take handed) => table.take delivery.table handed.entry
      | some (.finish _) => (table.finish delivery.table).2 := by
  unfold step act
  cases hphase : delivery.phase with
  | seeking =>
      cases hahead : delivery.ahead with
      | nil => rfl
      | cons pending rest =>
          cases hsight : inspect shape pending <;> simp [hsight]
  | refreshing =>
      simp only
      split <;> rfl
  | offering budget =>
      simp only
      split <;> rfl
  | drawing budget =>
      cases hahead : delivery.ahead with
      | nil => rfl
      | cons pending rest =>
          cases hsight : inspect shape pending with
          | ready next => simp [hsight, makeEntry, nextEntry]
          | passed next => simp [hsight]
  | settling result left =>
      cases left <;> simp
  | abandoning cause =>
      cases delivery.ahead <;> rfl
  | finished => rfl

variable {table shape} in
/-- A call ends with what the table says. -/
theorem result_of_act {delivery : Delivery σ} {result : Except StoreError Unit}
    (hact : delivery.act table shape = some (.finish result)) :
    result = (table.finish delivery.table).1 := by
  unfold act at hact
  split at hact
  next =>
    split at hact
    next => contradiction
    next =>
      cases hact
      rfl
  next =>
    split at hact
    next =>
      cases hact
      rfl
    next => split at hact <;> cases hact
  next => contradiction

theorem step_of_isFinished {delivery : Delivery σ}
    (hfinished : delivery.isFinished = true) :
    delivery.step table shape = delivery := by
  unfold isFinished at hfinished
  split at hfinished
  next hphase => simp [step, hphase]
  next => contradiction

theorem iterate_step_of_isFinished {delivery : Delivery σ}
    (hfinished : delivery.isFinished = true) (n : Nat) :
    (step table shape)^[n] delivery = delivery := by
  induction n with
  | zero => rfl
  | succ n ih =>
      rw [Function.iterate_succ_apply, step_of_isFinished table shape hfinished, ih]

/-- A run of at most `limit` steps ends where `limit` steps lead, if that is
an end. -/
theorem run_eq_some_iff (limit : Nat) (delivery final : Delivery σ) :
    delivery.run table shape limit = some final ↔
      final = (step table shape)^[limit] delivery ∧ final.isFinished = true := by
  induction limit generalizing delivery with
  | zero =>
      unfold run
      by_cases hfinished : delivery.isFinished = true
      · simp only [hfinished, if_true, Option.some.injEq,
          Function.iterate_zero, id_eq]
        constructor
        · rintro rfl
          exact ⟨rfl, hfinished⟩
        · rintro ⟨rfl, _⟩
          rfl
      · simp only [hfinished, Bool.false_eq_true, if_false, reduceCtorEq,
          Function.iterate_zero, id_eq, false_iff, not_and]
        rintro rfl
        exact hfinished
  | succ limit ih =>
      unfold run
      by_cases hfinished : delivery.isFinished = true
      · rw [if_pos hfinished, iterate_step_of_isFinished table shape hfinished]
        constructor
        · intro hsome
          cases hsome
          exact ⟨rfl, hfinished⟩
        · rintro ⟨rfl, _⟩
          rfl
      · rw [if_neg hfinished]
        simp only
        rw [ih, Function.iterate_succ_apply]

end Delivery

namespace Chronicle

variable {σ E : Type} (table : Table σ E) (shape : Shape E)

def step (chronicle : Chronicle σ E) : Chronicle σ E :=
  let delivery := chronicle.delivery.step table shape
  match chronicle.delivery.act table shape with
  | none => { chronicle with delivery }
  | some (.take handed) =>
    { chronicle with delivery, current := chronicle.current ++ [handed] }
  | some (.finish result) =>
    { delivery
      calls := chronicle.calls ++ [⟨chronicle.current, result⟩]
      current := [] }

def after (n : Nat) (chronicle : Chronicle σ E) : Chronicle σ E :=
  (step table shape)^[n] chronicle

/-- All entries handed to the table so far, in order. -/
def handed (chronicle : Chronicle σ E) : List (HandedEntry E) :=
  chronicle.calls.flatMap StoreCall.handed ++ chronicle.current

theorem handed_finish (chronicle : Chronicle σ E) (delivery : Delivery σ)
    (result : Except StoreError Unit) :
    handed { delivery, calls := chronicle.calls ++ [⟨chronicle.current, result⟩] } =
      chronicle.handed := by
  simp [handed]

theorem handed_take (chronicle : Chronicle σ E) (delivery : Delivery σ)
    (entry : HandedEntry E) :
    handed { chronicle with delivery, current := chronicle.current ++ [entry] } =
      chronicle.handed ++ [entry] := by
  simp [handed]

@[simp] theorem after_zero (chronicle : Chronicle σ E) :
    chronicle.after table shape 0 = chronicle := rfl

theorem after_succ (n : Nat) (chronicle : Chronicle σ E) :
    chronicle.after table shape (n + 1) =
      (chronicle.after table shape n).step table shape := by
  unfold after
  rw [Function.iterate_succ_apply']

theorem step_delivery (chronicle : Chronicle σ E) :
    (chronicle.step table shape).delivery =
      chronicle.delivery.step table shape := by
  unfold step
  cases chronicle.delivery.act table shape with
  | none => rfl
  | some act => cases act <;> rfl

theorem after_delivery (n : Nat) (chronicle : Chronicle σ E) :
    (chronicle.after table shape n).delivery =
      (Delivery.step table shape)^[n] chronicle.delivery := by
  induction n with
  | zero => rfl
  | succ n ih =>
      rw [after_succ, step_delivery, ih, Function.iterate_succ_apply']

/-- What holds at the start and is kept by every step holds at every moment. -/
theorem after_induction {motive : Chronicle σ E → Prop}
    {chronicle : Chronicle σ E} (hstart : motive chronicle)
    (hstep : ∀ chronicle, motive chronicle → motive (chronicle.step table shape))
    (n : Nat) : motive (chronicle.after table shape n) := by
  induction n with
  | zero => exact hstart
  | succ n ih =>
      rw [after_succ]
      exact hstep _ ih

/-- What a table has been through from a state on: these calls have ended, each with
its entries and the result that the table gave, and then it took the entries of one
more call. -/
inductive Received (start : σ) : List (StoreCall E) → List (HandedEntry E) → σ → Prop
  | start : Received start [] [] start
  | take {calls : List (StoreCall E)} {current : List (HandedEntry E)} {state : σ}
      (hreceived : Received start calls current state) (handed : HandedEntry E) :
      Received start calls (current ++ [handed]) (table.take state handed.entry)
  | finish {calls : List (StoreCall E)} {current : List (HandedEntry E)} {state : σ}
      (hreceived : Received start calls current state) :
      Received start (calls ++ [⟨current, (table.finish state).1⟩]) [] (table.finish state).2

theorem Received.trans {start between state : σ} {past calls : List (StoreCall E)}
    {current : List (HandedEntry E)} (hpast : Received table start past [] between)
    (hreceived : Received table between calls current state) :
    Received table start (past ++ calls) current state := by
  induction hreceived with
  | start => rwa [List.append_nil]
  | take _ handed ih => exact ih.take handed
  | finish _ ih =>
      rw [← List.append_assoc]
      exact ih.finish

theorem Received.step {start : σ} {chronicle : Chronicle σ E}
    (hreceived : Received table start chronicle.calls chronicle.current
      chronicle.delivery.table) :
    Received table start (chronicle.step table shape).calls
      (chronicle.step table shape).current (chronicle.step table shape).delivery.table := by
  rw [step_delivery, Delivery.step_table]
  unfold Chronicle.step
  cases hact : chronicle.delivery.act table shape with
  | none => exact hreceived
  | some act =>
      cases act with
      | take handed => exact hreceived.take handed
      | finish result =>
          rw [Delivery.result_of_act hact]
          exact hreceived.finish

/-! ## The moves of a chronicle -/

/-- How a chronicle can go on in one step. -/
inductive Move (chronicle : Chronicle σ E) : Chronicle σ E → Prop
  | seekEnd (hphase : chronicle.delivery.phase = .seeking)
      (hahead : chronicle.delivery.ahead = []) :
      Move chronicle
        { chronicle with delivery := { chronicle.delivery with phase := .finished } }
  | seekReady {pending next : Pending} {rest : List Pending}
      (hphase : chronicle.delivery.phase = .seeking)
      (hahead : chronicle.delivery.ahead = pending :: rest)
      (hsight : Delivery.inspect shape pending = .ready next) :
      Move chronicle
        { chronicle with delivery :=
          { chronicle.delivery with ahead := next :: rest, phase := .refreshing } }
  | pass {pending next : Pending} {rest : List Pending}
      (hphase : chronicle.delivery.phase = .seeking ∨
        ∃ budget, chronicle.delivery.phase = .drawing budget)
      (hahead : chronicle.delivery.ahead = pending :: rest)
      (hsight : Delivery.inspect shape pending = .passed next) :
      Move chronicle
        { chronicle with delivery := chronicle.delivery.pass next rest }
  | refresh {sequencer : Sequencer}
      (hphase : chronicle.delivery.phase = .refreshing)
      (hadopt : chronicle.delivery.sequencer.adopt?
        chronicle.delivery.clock.read.1 = some sequencer) :
      Move chronicle
        { chronicle with delivery :=
          { chronicle.delivery with
            sequencer
            clock := chronicle.delivery.clock.read.2
            phase := .offering sequencer.remaining } }
  | wait (hphase : chronicle.delivery.phase = .refreshing)
      (hadopt : chronicle.delivery.sequencer.adopt?
        chronicle.delivery.clock.read.1 = none) :
      Move chronicle
        { chronicle with delivery :=
          { chronicle.delivery with clock := chronicle.delivery.clock.read.2 } }
  | ask {budget : Nat} (hphase : chronicle.delivery.phase = .offering budget)
      (hwants : table.wants chronicle.delivery.table = true)
      (hbudget : budget ≠ 0) :
      Move chronicle
        { chronicle with delivery :=
          { chronicle.delivery with phase := .drawing budget } }
  | finish
      (hphase : (∃ budget, chronicle.delivery.phase = .offering budget ∧
          (table.wants chronicle.delivery.table = false ∨ budget = 0)) ∨
        ∃ budget, chronicle.delivery.phase = .drawing budget ∧
          chronicle.delivery.ahead = []) :
      Move chronicle
        { delivery := chronicle.delivery.endWrite table
          calls := chronicle.calls ++
            [⟨chronicle.current, (table.finish chronicle.delivery.table).1⟩]
          current := [] }
  | draw {budget : Nat} {pending next : Pending} {rest : List Pending}
      (hphase : chronicle.delivery.phase = .drawing budget)
      (hahead : chronicle.delivery.ahead = pending :: rest)
      (hsight : Delivery.inspect shape pending = .ready next) :
      Move chronicle
        { chronicle with
          delivery := chronicle.delivery.makeEntry table shape next rest budget
          current := chronicle.current ++ [chronicle.delivery.nextEntry shape next] }
  | settle {result : Except StoreError Unit} {pending : Pending}
      {left : List Pending}
      (hphase : chronicle.delivery.phase = .settling result (pending :: left)) :
      Move chronicle
        { chronicle with delivery :=
          { chronicle.delivery with
            behind := pending.conclude result :: chronicle.delivery.behind
            phase := .settling result left } }
  | afterWrite {result : Except StoreError Unit}
      (hphase : chronicle.delivery.phase = .settling result []) :
      Move chronicle
        { chronicle with delivery := chronicle.delivery.afterWrite result }
  | abandon {cause : StoreError} {pending : Pending} {rest : List Pending}
      (hphase : chronicle.delivery.phase = .abandoning cause)
      (hahead : chronicle.delivery.ahead = pending :: rest) :
      Move chronicle
        { chronicle with delivery :=
          { chronicle.delivery with
            behind := pending.failStorage cause :: chronicle.delivery.behind
            ahead := rest } }
  | abandonEnd {cause : StoreError}
      (hphase : chronicle.delivery.phase = .abandoning cause)
      (hahead : chronicle.delivery.ahead = []) :
      Move chronicle
        { chronicle with delivery := { chronicle.delivery with phase := .finished } }
  | stay (hphase : chronicle.delivery.phase = .finished) : Move chronicle chronicle

theorem step_move (chronicle : Chronicle σ E) :
    Move table shape chronicle (chronicle.step table shape) := by
  unfold step Delivery.step Delivery.act
  cases hphase : chronicle.delivery.phase with
  | seeking =>
      cases hahead : chronicle.delivery.ahead with
      | nil =>
          have hmove : Move table shape chronicle _ := .seekEnd hphase hahead
          simpa only [hahead] using hmove
      | cons pending rest =>
          cases hsight : Delivery.inspect shape pending with
          | ready next =>
              simp only [hsight]
              exact .seekReady hphase hahead hsight
          | passed next =>
              simp only [hsight]
              exact .pass (Or.inl hphase) hahead hsight
  | refreshing =>
      simp only
      cases hadopt : chronicle.delivery.sequencer.adopt?
          chronicle.delivery.clock.read.1 with
      | some sequencer => exact .refresh hphase hadopt
      | none =>
          have hmove : Move table shape chronicle _ := .wait hphase hadopt
          simpa only [hphase] using hmove
  | offering budget =>
      by_cases hwants : table.wants chronicle.delivery.table = true
      · by_cases hbudget : budget = 0
        · simp only [hbudget, ne_eq, not_true_eq_false, decide_false,
            Bool.and_false, Bool.false_eq_true, if_false]
          exact .finish (Or.inl ⟨budget, hphase, Or.inr hbudget⟩)
        · simp only [hwants, ne_eq, hbudget, not_false_eq_true, decide_true,
            Bool.and_self, if_true]
          exact .ask hphase hwants hbudget
      · rw [Bool.not_eq_true] at hwants
        simp only [hwants, Bool.false_and, Bool.false_eq_true, if_false]
        exact .finish (Or.inl ⟨budget, hphase, Or.inl hwants⟩)
  | drawing budget =>
      cases hahead : chronicle.delivery.ahead with
      | nil => exact .finish (Or.inr ⟨budget, hphase, hahead⟩)
      | cons pending rest =>
          cases hsight : Delivery.inspect shape pending with
          | ready next =>
              simp only [hsight]
              exact .draw hphase hahead hsight
          | passed next =>
              simp only [hsight]
              exact .pass (Or.inr ⟨budget, hphase⟩) hahead hsight
  | settling result left =>
      cases left with
      | nil => exact .afterWrite hphase
      | cons pending left => exact .settle hphase
  | abandoning cause =>
      cases hahead : chronicle.delivery.ahead with
      | nil =>
          have hmove : Move table shape chronicle _ := .abandonEnd hphase hahead
          simpa only [hahead] using hmove
      | cons pending rest =>
          have hmove : Move table shape chronicle _ := .abandon hphase hahead
          simpa only [hphase] using hmove
  | finished => exact .stay hphase

/-- What every move keeps holds at every moment. -/
theorem after_move_induction {motive : Chronicle σ E → Prop}
    {chronicle : Chronicle σ E} (hstart : motive chronicle)
    (hmove : ∀ {before later}, Move table shape before later →
      motive before → motive later)
    (n : Nat) : motive (chronicle.after table shape n) :=
  after_induction table shape hstart
    (fun before hbefore => hmove (step_move table shape before) hbefore) n

end Chronicle

namespace TableWriter

variable {σ E : Type} (table : Table σ E) (shape : Shape E)

def chronicle (writer : TableWriter σ) (batch : List Pending) : Chronicle σ E :=
  { delivery := writer.deliver batch }

/-- At every moment the table has been through what is recorded. -/
theorem received_after (writer : TableWriter σ) (batch : List Pending) (n : Nat) :
    let now := (writer.chronicle batch).after table shape n
    Chronicle.Received table writer.table now.calls now.current now.delivery.table :=
  Chronicle.after_induction table shape
    (motive := fun now => Chronicle.Received table writer.table now.calls now.current
      now.delivery.table)
    .start (fun _ => Chronicle.Received.step table shape) n

/-- A write returns what its chronicle has come to. -/
theorem write_eq_some_iff (limit : Nat) (writer later : TableWriter σ)
    (batch requests : List Pending) (result : Except StoreError Unit) :
    writer.write table shape limit batch = some (result, requests, later) ↔
      let final := ((writer.chronicle batch).after table shape limit).delivery
      final.isFinished = true ∧ final.result = result ∧
        final.requests = requests ∧ ofDelivery final = later := by
  simp only [Chronicle.after_delivery]
  unfold write chronicle
  cases hrun : (writer.deliver batch).run table shape limit with
  | none =>
      have hnot := Delivery.run_eq_some_iff table shape limit
        (writer.deliver batch) ((Delivery.step table shape)^[limit] (writer.deliver batch))
      rw [hrun] at hnot
      simp only [reduceCtorEq, true_and, false_iff] at hnot
      simp [hnot]
  | some final =>
      obtain ⟨hfinal, hfinished⟩ :=
        (Delivery.run_eq_some_iff table shape limit _ _).mp hrun
      rw [← hfinal]
      simp [hfinished, Prod.ext_iff]

end TableWriter

end MessageStore
