import MessageStore.Proofs.DeliveryLedger

/-!
# How a delivery ends

Every step of a delivery uses up some of its work, but for those that wait
for the clock.  So a delivery ends if all its waits end, whatever the table
does.

A greedy table takes as many entries in a call as there are sequence ids at a
timestamp.  A batch for such a table needs so many timestamps, and it is
enough that the clock moves on once for each of them.
-/

namespace MessageStore

/-! ## The work that is left -/

namespace Pending

/-- How many entries a request can still make: one for each payload, or one
reference in their place. -/
def chances (pending : Pending) : Nat :=
  if pending.entries = 0 then max 1 pending.remaining.length else pending.remaining.length

@[simp] theorem chances_peek (pending : Pending) : pending.peek.chances = pending.chances := by
  simp [chances]

@[simp] theorem chances_settle (pending : Pending) (outcome : Outcome) :
    (pending.settle outcome).chances = pending.chances := by
  simp [chances]

theorem chances_settleCurrent (result : Except StoreError Unit) (pending : Pending) :
    (Delivery.settleCurrent result pending).chances = pending.chances := by
  unfold Delivery.settleCurrent
  cases result with
  | error cause => exact chances_settle ..
  | ok done =>
      simp only
      split
      · rfl
      · split
        · exact chances_peek pending
        · rw [succeed, chances_settle, chances_peek]

theorem chances_fresh (request : Request) :
    (fresh request).chances = max 1 request.payloads.length :=
  rfl

variable {E : Type} {shape : Shape E} {pending next : Pending}

theorem chances_ready (hsight : Delivery.inspect shape pending = .ready next) :
    next.chances = pending.chances := by
  obtain ⟨-, rfl, -⟩ := inspect_ready hsight
  exact chances_peek pending

theorem chances_draw (hsight : Delivery.inspect shape pending = .ready next)
    (position : Position) :
    (next.take.2.record position).chances + 1 = pending.chances := by
  obtain ⟨-, rfl, hmore⟩ := inspect_ready hsight
  have hdrawn : (pending.peek.take.2.record position).chances =
      pending.peek.take.2.remaining.length := if_neg (Nat.succ_ne_zero _)
  rw [hdrawn, take_remaining, peek_remaining, List.length_tail, chances]
  rcases hmore with hpayload | ⟨hnone, hzero, -⟩
  · have hpos := List.length_pos_iff.mpr hpayload
    split <;> omega
  · rw [hnone, if_pos hzero]
    rfl

end Pending

/-- How far a phase is from the end, but for the requests.  A call that has
entries is followed by another search. -/
def Phase.rank (written : Nat) : Phase → Nat
  | .finished => 0
  | .abandoning _ => 1
  | .settling _ _ => 2 + 5 * min written 1
  | .drawing _ => 3 + 5 * min written 1
  | .offering _ => 4 + 5 * min written 1
  | .refreshing => 5
  | .seeking => 6

namespace Delivery

variable {σ : Type}

/-- How many entries can still be made. -/
def chances (delivery : Delivery σ) : Nat :=
  (delivery.ahead.map Pending.chances).sum

/-- A bound on the steps to the end that do not wait.  An entry weighs more
than the way through the phases, and a request more than its settlement. -/
def work (delivery : Delivery σ) : Nat :=
  7 * delivery.chances + 2 * delivery.ahead.length + delivery.touched.length +
    delivery.left.length + delivery.phase.rank delivery.written

/-- The reading of the clock after so many others gives room. -/
def Adopts (delivery : Delivery σ) (skipped : Nat) : Prop :=
  (delivery.sequencer.adopt?
    (delivery.clock.reading (delivery.clock.reads + skipped))).isSome

end Delivery

namespace Chronicle

variable {σ E : Type} {table : Table σ E} {shape : Shape E} {before later : Chronicle σ E}

/-- A step uses up work unless it waits. -/
theorem Move.work_lt (hmove : Move table shape before later) (htidy : before.Tidy)
    (hunfinished : before.delivery.isFinished = false)
    (hadopts : before.delivery.phase = .refreshing → before.delivery.Adopts 0) :
    later.delivery.work < before.delivery.work := by
  cases hmove with
  | seekEnd hphase =>
      simp only [Delivery.work, Delivery.chances, Delivery.left, Phase.rank, hphase]
      omega
  | seekReady hphase hahead hsight =>
      simp only [Delivery.work, Delivery.chances, Delivery.left, Phase.rank, hphase, hahead,
        List.map_cons, List.length_cons, Pending.chances_ready hsight]
      omega
  | pass hphase hahead hsight =>
      have hsame : ∀ pending rest, (before.delivery.pass pending rest).left =
          before.delivery.left := by
        intro pending rest
        simp [Delivery.left]
      simp only [Delivery.work, hsame, Delivery.pass_phase, Delivery.pass_written]
      unfold Delivery.pass
      split <;>
      · simp only [Delivery.chances, hahead, List.map_cons, List.sum_cons, List.length_cons]
        omega
  | refresh hphase hadopt =>
      have hwritten : before.delivery.written = 0 := by
        rw [Tidy, hphase] at htidy
        exact htidy.2.2
      simp only [Delivery.work, Delivery.chances, Delivery.left, Phase.rank, hphase, hwritten,
        List.length_nil]
      omega
  | wait hphase hadopt =>
      have hnow : (before.delivery.sequencer.adopt? before.delivery.clock.read.1).isSome :=
        hadopts hphase
      rw [hadopt] at hnow
      contradiction
  | ask hphase =>
      simp only [Delivery.work, Delivery.chances, Delivery.left, Phase.rank, hphase]
      omega
  | finish hphase =>
      rcases hphase with ⟨budget, hphase, -⟩ | ⟨budget, hphase, -⟩ <;>
      · simp only [Delivery.work, Delivery.chances, Delivery.left, Phase.rank, Delivery.endWrite,
          hphase, List.length_nil, List.length_reverse]
        omega
  | draw hphase hahead hsight =>
      have hchance := Pending.chances_draw hsight before.delivery.sequencer.stamp.1
      simp only [Delivery.work, Delivery.chances, Delivery.left, Phase.rank, Delivery.makeEntry,
        hphase, hahead, List.map_cons, List.sum_cons, List.length_cons]
      omega
  | settle hphase =>
      simp only [Delivery.work, Delivery.chances, Delivery.left, Phase.rank, hphase,
        List.length_cons]
      omega
  | afterWrite hphase =>
      unfold Delivery.afterWrite
      split
      next hwritten =>
        simp only [Delivery.work, Delivery.chances, Delivery.left, Phase.rank, hphase, hwritten,
          List.length_nil]
        omega
      next hwritten =>
        simp only [Delivery.work, Delivery.chances, Delivery.left, Phase.rank, hphase]
        cases before.delivery.ahead with
        | nil =>
            simp only [List.length_nil]
            omega
        | cons pending rest =>
            simp only [List.map_cons, List.sum_cons, List.length_cons,
              Pending.chances_settleCurrent]
            omega
  | abandon hphase hahead =>
      simp only [Delivery.work, Delivery.chances, Delivery.left, Phase.rank, hphase, hahead,
        List.map_cons, List.sum_cons, List.length_cons]
      omega
  | abandonEnd hphase =>
      simp only [Delivery.work, Delivery.chances, Delivery.left, Phase.rank, hphase]
      omega
  | stay hphase =>
      rw [Delivery.isFinished, hphase] at hunfinished
      contradiction

section

variable (table : Table σ E) (shape : Shape E) (writer : TableWriter σ) (batch : List Pending)

theorem step_of_wait (chronicle : Chronicle σ E)
    (hphase : chronicle.delivery.phase = .refreshing) (hstuck : ¬chronicle.delivery.Adopts 0) :
    (chronicle.step table shape).delivery =
      { chronicle.delivery with clock := chronicle.delivery.clock.read.2 } := by
  have hnone : chronicle.delivery.sequencer.adopt? chronicle.delivery.clock.read.1 = none :=
    Option.not_isSome_iff_eq_none.mp hstuck
  simp only [step_delivery, Delivery.step, hphase, hnone]

theorem work_after_succ_lt {n : Nat}
    (hunfinished :
      ((writer.chronicle batch).after table shape n).delivery.isFinished = false)
    (hadopts : ((writer.chronicle batch).after table shape n).delivery.phase = .refreshing →
      ((writer.chronicle batch).after table shape n).delivery.Adopts 0) :
    ((writer.chronicle batch).after table shape (n + 1)).delivery.work <
      ((writer.chronicle batch).after table shape n).delivery.work := by
  rw [after_succ]
  exact (step_move table shape _).work_lt (tidy_after table shape writer batch n) hunfinished
    hadopts

/-- A wait that ends is followed by a step that uses up work. -/
theorem work_lt_of_adopts (skipped : Nat) {n : Nat}
    (hphase : ((writer.chronicle batch).after table shape n).delivery.phase = .refreshing)
    (hadopts : ((writer.chronicle batch).after table shape n).delivery.Adopts skipped) :
    ∃ m, ((writer.chronicle batch).after table shape m).delivery.work <
      ((writer.chronicle batch).after table shape n).delivery.work := by
  have hunfinished :
      ((writer.chronicle batch).after table shape n).delivery.isFinished = false := by
    rw [Delivery.isFinished, hphase]
  induction skipped generalizing n with
  | zero => exact ⟨n + 1, work_after_succ_lt table shape writer batch hunfinished fun _ => hadopts⟩
  | succ skipped ih =>
      by_cases hnow : ((writer.chronicle batch).after table shape n).delivery.Adopts 0
      · exact ⟨n + 1, work_after_succ_lt table shape writer batch hunfinished fun _ => hnow⟩
      · have hstep := step_of_wait table shape _ hphase hnow
        rw [← after_succ] at hstep
        have hlater : ((writer.chronicle batch).after table shape (n + 1)).delivery.Adopts
            skipped := by
          rw [hstep, Delivery.Adopts]
          rw [Delivery.Adopts, ← Nat.add_assoc, Nat.add_right_comm] at hadopts
          exact hadopts
        have hsame : ((writer.chronicle batch).after table shape (n + 1)).delivery.phase =
            .refreshing := by
          rw [hstep, hphase]
        obtain ⟨m, hless⟩ := ih hsame hlater (by rw [Delivery.isFinished, hsame])
        refine ⟨m, ?_⟩
        rw [hstep] at hless
        exact hless

/-- A delivery ends if at every moment at which it waits some reading to come
gives room. -/
theorem exists_isFinished
    (hwaits : ∀ n, ((writer.chronicle batch).after table shape n).delivery.phase = .refreshing →
      ∃ skipped, ((writer.chronicle batch).after table shape n).delivery.Adopts skipped) :
    ∃ n, ((writer.chronicle batch).after table shape n).delivery.isFinished = true := by
  have hends : ∀ work n,
      ((writer.chronicle batch).after table shape n).delivery.work = work →
      ∃ last, ((writer.chronicle batch).after table shape last).delivery.isFinished = true := by
    intro work
    induction work using Nat.strong_induction_on with
    | h work ih =>
        intro n hwork
        by_cases hfinished :
            ((writer.chronicle batch).after table shape n).delivery.isFinished = true
        · exact ⟨n, hfinished⟩
        · have hprogress : ∃ m, ((writer.chronicle batch).after table shape m).delivery.work <
              ((writer.chronicle batch).after table shape n).delivery.work := by
            by_cases hphase :
                ((writer.chronicle batch).after table shape n).delivery.phase = .refreshing
            · obtain ⟨skipped, hadopts⟩ := hwaits n hphase
              exact work_lt_of_adopts table shape writer batch skipped hphase hadopts
            · exact ⟨n + 1, work_after_succ_lt table shape writer batch
                (Bool.eq_false_iff.mpr hfinished) fun hsame => absurd hsame hphase⟩
          obtain ⟨m, hless⟩ := hprogress
          exact ih _ (hwork ▸ hless) m rfl
  exact hends _ 0 rfl

end

end Chronicle

namespace TableWriter

variable {σ E : Type} (table : Table σ E) (shape : Shape E) (writer : TableWriter σ)
  (batch : List Pending)

/-- A batch is done within any number of steps that is large enough, and always
in the same way, if at every moment at which its delivery waits some reading to
come gives room. -/
theorem exists_write
    (hwaits : ∀ n, ((writer.chronicle batch).after table shape n).delivery.phase = .refreshing →
      ∃ skipped, ((writer.chronicle batch).after table shape n).delivery.Adopts skipped) :
    ∃ enough done, ∀ limit, enough ≤ limit →
      writer.write table shape limit batch = some done := by
  obtain ⟨enough, hfinished⟩ := Chronicle.exists_isFinished table shape writer batch hwaits
  obtain ⟨last, hlast⟩ :
      ∃ last, ((writer.chronicle batch).after table shape enough).delivery = last := ⟨_, rfl⟩
  rw [hlast] at hfinished
  refine ⟨enough, (last.result, last.requests, ofDelivery last), fun limit hlimit => ?_⟩
  have hsame : ((writer.chronicle batch).after table shape limit).delivery = last := by
    rw [Chronicle.after_delivery] at hlast ⊢
    obtain ⟨more, rfl⟩ := Nat.exists_eq_add_of_le hlimit
    rw [Nat.add_comm, Function.iterate_add_apply, hlast,
      Delivery.iterate_step_of_isFinished table shape hfinished]
  rw [write_eq_some_iff, hsame]
  exact ⟨hfinished, rfl, rfl, rfl⟩

end TableWriter

/-! ## Clocks that move on -/

namespace Clock

/-- From its next reading on the clock shows so many timestamps, each of them
later than the given one and than those that it has shown in between. -/
inductive Rises : Nat → Option UInt64 → Clock → Prop
  | done (last : Option UInt64) (clock : Clock) : Rises 0 last clock
  | waits {count : Nat} {last : UInt64} {clock : Clock} (hearlier : ¬last < clock.read.1)
      (hrest : Rises count (some last) clock.read.2) : Rises count (some last) clock
  | moves {count : Nat} {last : Option UInt64} {clock : Clock}
      (hlater : ∀ earlier ∈ last, earlier < clock.read.1)
      (hrest : Rises count (some clock.read.1) clock.read.2) : Rises (count + 1) last clock

theorem rises_one (clock : Clock) : clock.Rises 1 none :=
  .moves nofun (.done _ _)

theorem rises_of_increasing {count : Nat} {last : Option UInt64} {clock : Clock}
    (hfirst : ∀ earlier ∈ last, earlier < clock.read.1)
    (hincreasing : ∀ index, index + 1 < count →
      clock.reading (clock.reads + index) < clock.reading (clock.reads + index + 1)) :
    clock.Rises count last := by
  induction count generalizing last clock with
  | zero => exact .done _ _
  | succ count ih =>
      refine .moves hfirst ?_
      cases count with
      | zero => exact .done _ _
      | succ count =>
          refine ih ?_ ?_
          · rintro earlier ⟨⟩
            exact hincreasing 0 (by omega)
          · intro index hindex
            have hnext := hincreasing (index + 1) (by omega)
            rw [← Nat.add_assoc, Nat.add_right_comm clock.reads index 1] at hnext
            exact hnext

namespace Rises

variable {count : Nat} {last : Option UInt64} {clock : Clock}

theorem exists_later (hrises : clock.Rises (count + 1) last) :
    ∃ skipped, ∀ earlier ∈ last, earlier < clock.reading (clock.reads + skipped) := by
  generalize hmore : count + 1 = more at hrises
  induction hrises with
  | done => contradiction
  | waits hearlier hrest ih =>
      obtain ⟨skipped, hlater⟩ := ih hmore
      refine ⟨skipped + 1, ?_⟩
      rw [← Nat.add_assoc, Nat.add_right_comm]
      exact hlater
  | moves hlater => exact ⟨0, hlater⟩

theorem read_earlier {last : UInt64} (hrises : clock.Rises count (some last))
    (hearlier : ¬last < clock.read.1) : clock.read.2.Rises count (some last) := by
  cases hrises with
  | done => exact .done _ _
  | waits _ hrest => exact hrest
  | moves hlater => exact absurd (hlater last rfl) hearlier

theorem read_later (hrises : clock.Rises (count + 1) last)
    (hlater : ∀ earlier ∈ last, earlier < clock.read.1) :
    clock.read.2.Rises count (some clock.read.1) := by
  cases hrises with
  | waits hearlier => exact absurd (hlater _ rfl) hearlier
  | moves _ hrest => exact hrest

theorem read_of_full {sequencer : Sequencer} (hrises : clock.Rises count sequencer.last)
    (hadopt : sequencer.adopt? clock.read.1 = none) :
    clock.read.2.Rises count sequencer.last := by
  cases hlast : sequencer.last with
  | none =>
      rw [Sequencer.adopt?_of_later (by simp [hlast])] at hadopt
      contradiction
  | some last =>
      have hearlier : ¬last < clock.read.1 := by
        intro hlater
        rw [Sequencer.adopt?_of_later (by simpa [hlast] using hlater)] at hadopt
        contradiction
      rw [hlast] at hrises
      exact hrises.read_earlier hearlier

theorem read_of_adopted {sequencer next : Sequencer} (hrises : clock.Rises count sequencer.last)
    (hadopt : sequencer.adopt? clock.read.1 = some next) :
    next = sequencer ∧ clock.read.2.Rises count next.last ∨
      next.remaining = Sequencer.limit ∧ clock.read.2.Rises (count - 1) next.last := by
  by_cases hlater : ∀ last ∈ sequencer.last, last < clock.read.1
  · rw [Sequencer.adopt?_of_later hlater, Option.some.injEq] at hadopt
    subst hadopt
    cases count with
    | zero => exact Or.inr ⟨rfl, .done _ _⟩
    | succ count => exact Or.inr ⟨rfl, hrises.read_later hlater⟩
  · obtain ⟨last, hlast, hearlier⟩ : ∃ last, sequencer.last = some last ∧
        ¬last < clock.read.1 := by
      simpa using hlater
    rw [Sequencer.adopt?_of_earlier hlast hearlier] at hadopt
    split at hadopt
    next => contradiction
    next =>
      cases hadopt
      rw [hlast] at hrises ⊢
      exact Or.inl ⟨rfl, hrises.read_earlier hearlier⟩

end Rises

end Clock

theorem Delivery.exists_adopts {σ : Type} {delivery : Delivery σ} {count : Nat}
    (hrises : delivery.clock.Rises count delivery.sequencer.last) (hpos : 0 < count) :
    ∃ skipped, delivery.Adopts skipped := by
  obtain ⟨count, rfl⟩ := Nat.exists_eq_add_one_of_ne_zero hpos.ne'
  obtain ⟨skipped, hlater⟩ := hrises.exists_later
  refine ⟨skipped, ?_⟩
  rw [Adopts, Sequencer.adopt?_of_later hlater]
  rfl

/-! ## Greedy tables -/

namespace Chronicle

variable {σ E : Type} {table : Table σ E} {shape : Shape E} {before later : Chronicle σ E}

/-- The entries that the call under way may still make. -/
def allowance (chronicle : Chronicle σ E) : Nat :=
  match chronicle.delivery.phase with
  | .offering budget | .drawing budget => budget
  | _ => 0

/-- The clock moves on once for every timestamp that the entries to come still
need. -/
def Paced (chronicle : Chronicle σ E) : Prop :=
  ∃ count, chronicle.delivery.clock.Rises count chronicle.delivery.sequencer.last ∧
    chronicle.delivery.chances ≤ chronicle.allowance + Sequencer.limit * count

/-- The reading that begins a call gives it the sequence ids of its timestamp. -/
theorem Paced.refresh {sequencer : Sequencer} (hpaced : before.Paced)
    (hphase : before.delivery.phase = .refreshing)
    (hadopt : before.delivery.sequencer.adopt? before.delivery.clock.read.1 = some sequencer) :
    Paced { before with delivery :=
      { before.delivery with
        sequencer
        clock := before.delivery.clock.read.2
        phase := .offering sequencer.remaining } } := by
  obtain ⟨count, hrises, hchances⟩ := hpaced
  simp only [allowance, hphase, Nat.zero_add] at hchances
  rcases hrises.read_of_adopted hadopt with ⟨rfl, hrest⟩ | ⟨hall, hrest⟩
  · exact ⟨count, hrest, Nat.le_trans hchances (Nat.le_add_left _ _)⟩
  · refine ⟨count - 1, hrest, Nat.le_trans hchances ?_⟩
    simp only [allowance, hall, Nat.mul_sub_one]
    omega

theorem Paced.wait (hpaced : before.Paced)
    (hadopt : before.delivery.sequencer.adopt? before.delivery.clock.read.1 = none) :
    Paced { before with delivery :=
      { before.delivery with clock := before.delivery.clock.read.2 } } := by
  obtain ⟨count, hrises, hchances⟩ := hpaced
  exact ⟨count, hrises.read_of_full hadopt, hchances⟩

theorem Paced.move (hgreedy : table.IsGreedy) (hmove : Move table shape before later)
    (hpaced : before.Paced) : later.Paced := by
  cases hmove with
  | refresh hphase hadopt => exact hpaced.refresh hphase hadopt
  | wait hphase hadopt => exact hpaced.wait hadopt
  | stay => exact hpaced
  | seekEnd hphase | settle hphase | abandonEnd hphase | ask hphase =>
      obtain ⟨count, hrises, hchances⟩ := hpaced
      exact ⟨count, hrises, by simpa only [allowance, Delivery.chances, hphase] using hchances⟩
  | seekReady hphase hahead hsight =>
      obtain ⟨count, hrises, hchances⟩ := hpaced
      refine ⟨count, hrises, ?_⟩
      simp only [allowance, hphase, Delivery.chances, hahead, List.map_cons] at hchances ⊢
      rw [Pending.chances_ready hsight]
      exact hchances
  | pass hphase hahead hsight =>
      obtain ⟨count, hrises, hchances⟩ := hpaced
      refine ⟨count, by simpa using hrises, ?_⟩
      simp only [allowance, Delivery.pass_phase, Delivery.chances, hahead, List.map_cons,
        List.sum_cons] at hchances ⊢
      unfold Delivery.pass
      split <;>
      · simp only
        omega
  | finish hphase =>
      obtain ⟨count, hrises, hchances⟩ := hpaced
      refine ⟨count, hrises, ?_⟩
      rcases hphase with ⟨budget, hphase, hwants | hbudget⟩ | ⟨budget, hphase, hahead⟩
      · rw [hgreedy] at hwants
        contradiction
      · simpa only [allowance, hphase, hbudget, Delivery.chances, Delivery.endWrite] using hchances
      · simp [Delivery.chances, Delivery.endWrite, hahead]
  | draw hphase hahead hsight =>
      obtain ⟨count, hrises, hchances⟩ := hpaced
      refine ⟨count, hrises, ?_⟩
      have hchance := Pending.chances_draw hsight before.delivery.sequencer.stamp.1
      simp only [allowance, hphase, Delivery.chances, hahead, Delivery.makeEntry, List.map_cons,
        List.sum_cons] at hchances ⊢
      omega
  | afterWrite hphase =>
      obtain ⟨count, hrises, hchances⟩ := hpaced
      refine ⟨count, by simpa using hrises, ?_⟩
      simp only [allowance, hphase, Delivery.chances] at hchances ⊢
      unfold Delivery.afterWrite
      split
      · exact hchances
      · cases hahead : before.delivery.ahead with
        | nil => simp
        | cons pending rest =>
            rw [hahead] at hchances
            simpa only [List.map_cons, List.sum_cons, Pending.chances_settleCurrent] using hchances
  | abandon hphase hahead =>
      obtain ⟨count, hrises, hchances⟩ := hpaced
      refine ⟨count, hrises, ?_⟩
      simp only [allowance, hphase, Delivery.chances, hahead, List.map_cons,
        List.sum_cons] at hchances ⊢
      omega

/-- A delivery into a greedy table waits only when there is an entry to come. -/
theorem Fed.chances_pos (hfed : before.Fed shape) (hphase : before.delivery.phase = .refreshing) :
    0 < before.delivery.chances := by
  have hloaded := hfed.loaded
  rw [hphase] at hloaded
  obtain ⟨pending, rest, hahead, hsight⟩ := hloaded
  have hchance := Pending.chances_draw hsight before.delivery.sequencer.stamp.1
  simp only [Delivery.chances, hahead, List.map_cons, List.sum_cons]
  omega

theorem Paced.adopts (hpaced : before.Paced) (hfed : before.Fed shape)
    (hphase : before.delivery.phase = .refreshing) :
    ∃ skipped, before.delivery.Adopts skipped := by
  obtain ⟨count, hrises, hchances⟩ := hpaced
  have hpos := hfed.chances_pos hphase
  simp only [allowance, hphase, Nat.zero_add] at hchances
  refine Delivery.exists_adopts hrises (Nat.pos_of_ne_zero fun hzero => ?_)
  rw [hzero] at hchances
  omega

end Chronicle

/-- A greedy table is done with a batch if the clock moves on once for every
timestamp that the batch needs. -/
theorem TableWriter.exists_write_of_rises {σ E : Type} {table : Table σ E} (shape : Shape E)
    (hgreedy : table.IsGreedy) {writer : TableWriter σ} {batch : List Pending} {count : Nat}
    (hrises : writer.clock.Rises count writer.sequencer.last)
    (hchances : (batch.map Pending.chances).sum ≤ Sequencer.limit * count) :
    ∃ enough done, ∀ limit, enough ≤ limit →
      writer.write table shape limit batch = some done := by
  refine exists_write table shape writer batch fun n hphase => ?_
  have hstart : (writer.chronicle batch : Chronicle σ E).Paced :=
    ⟨count, hrises, Nat.le_trans hchances (Nat.le_add_left _ _)⟩
  have hpaced := Chronicle.after_move_induction table shape hstart
    (fun hmove hpaced => hpaced.move hgreedy hmove) n
  exact hpaced.adopts (Chronicle.fed_after shape hgreedy writer batch n) hphase

end MessageStore
