import MessageStore.Proofs.SequencerOrder

/-!
# Runs of a sequencer

Whoever uses a sequencer first has it read the clock, and then takes no more
positions between two readings than there is room for.  What each reading does is
settled by what the clock shows and by how many positions the timestamp in use has
left.  All that is handed out in such a run is in order, whatever the clock shows.
-/

namespace MessageStore
namespace Sequencer

variable {sequencer later : Sequencer} {clock after : Clock}

/-! ## Reading the clock -/

/-- After so many readings that give no room the next one does. -/
def Adopts (sequencer : Sequencer) (clock : Clock) (waits : Nat) (later : Sequencer) : Prop :=
  sequencer.adopt? (clock.reading (clock.reads + waits)) = some later ∧
    ∀ wait < waits, sequencer.adopt? (clock.reading (clock.reads + wait)) = none

theorem adopts_zero_iff :
    sequencer.Adopts clock 0 later ↔ sequencer.adopt? clock.read.1 = some later := by
  simp [Adopts, Clock.read]

theorem adopts_succ_iff {waits : Nat} :
    sequencer.Adopts clock (waits + 1) later ↔
      sequencer.adopt? clock.read.1 = none ∧ sequencer.Adopts clock.read.2 waits later := by
  have hcount : ∀ wait, clock.reads + (wait + 1) = clock.read.2.reads + wait := fun wait => by
    simp only [Clock.read]
    omega
  simp only [Adopts, Nat.forall_lt_succ_left, hcount]
  exact and_left_comm

/-- With enough patience a sequencer adopts the first reading that gives room. -/
theorem update_eq_some_iff (patience : Nat) :
    update patience sequencer clock = some (later, after) ↔
      ∃ waits < patience, sequencer.Adopts clock waits later ∧
        after = { clock with reads := clock.reads + waits + 1 } := by
  induction patience generalizing clock with
  | zero => simp [update]
  | succ patience ih =>
      simp only [Nat.exists_lt_succ_left, adopts_zero_iff, adopts_succ_iff]
      rw [update]
      cases hfirst : sequencer.adopt? clock.read.1 with
      | some adopted =>
          simp only [hfirst]
          simp [Clock.read, eq_comm]
      | none =>
          have hcount : ∀ waits, clock.reads + (waits + 1) + 1 = clock.reads + 1 + waits + 1 :=
            fun _ => by omega
          simp only [hfirst, ih, hcount]
          simp [Clock.read]

/-- Reading the clock comes to an end, with that sequencer and that clock. -/
def Updates (sequencer : Sequencer) (clock : Clock) (later : Sequencer) (after : Clock) : Prop :=
  ∃ patience, update patience sequencer clock = some (later, after)

theorem updates_iff :
    sequencer.Updates clock later after ↔
      ∃ waits, sequencer.Adopts clock waits later ∧
        after = { clock with reads := clock.reads + waits + 1 } := by
  simp only [Updates, update_eq_some_iff]
  constructor
  · rintro ⟨_, waits, _, hafter⟩
    exact ⟨waits, hafter⟩
  · rintro ⟨waits, hafter⟩
    exact ⟨waits + 1, waits, Nat.lt_succ_self _, hafter⟩

theorem updates_iff_of_adopt {adopted : Sequencer}
    (hadopt : sequencer.adopt? clock.read.1 = some adopted) :
    sequencer.Updates clock later after ↔
      later = adopted ∧ after = { clock with reads := clock.reads + 1 } := by
  rw [updates_iff]
  constructor
  · rintro ⟨waits, hadopts, rfl⟩
    cases waits with
    | zero => exact ⟨Option.some.inj ((adopts_zero_iff.mp hadopts).symm.trans hadopt), rfl⟩
    | succ waits =>
        rw [adopts_succ_iff, hadopt] at hadopts
        exact absurd hadopts.1 (Option.some_ne_none _)
  · rintro ⟨rfl, rfl⟩
    exact ⟨0, adopts_zero_iff.mpr hadopt, rfl⟩

theorem updates_fresh_iff :
    ({} : Sequencer).Updates clock later after ↔
      later = { last := some clock.read.1, next := 0 } ∧
        after = { clock with reads := clock.reads + 1 } :=
  updates_iff_of_adopt rfl

section

variable {last : UInt64} (hlast : sequencer.last = some last)
include hlast

/-- With positions left any reading is adopted, an earlier one as the timestamp
in use. -/
theorem updates_iff_of_room (hroom : sequencer.next < limit) :
    sequencer.Updates clock later after ↔
      later = { last := some (max last clock.read.1)
                next := if last < clock.read.1 then 0 else sequencer.next } ∧
        after = { clock with reads := clock.reads + 1 } := by
  apply updates_iff_of_adopt
  have hmax : max last clock.read.1 = if last ≤ clock.read.1 then clock.read.1 else last := rfl
  by_cases hlater : last < clock.read.1
  · rw [adopt?_of_later (by simpa [hlast] using hlater), if_pos hlater, hmax,
      if_pos (UInt64.le_of_lt hlater)]
  · have hstays : max last clock.read.1 = last := by
      rw [hmax]
      split
      next hle => exact UInt64.le_antisymm (UInt64.not_lt.mp hlater) hle
      next => rfl
    rw [adopt?_of_earlier hlast hlater, if_neg (Nat.not_le.mpr hroom), if_neg hlater, hstays,
      ← hlast]

/-- With no position left readings are passed over up to the first later one. -/
theorem updates_iff_of_used_up (hused : sequencer.next = limit) :
    sequencer.Updates clock later after ↔
      ∃ waits, last < clock.reading (clock.reads + waits) ∧
        (∀ wait < waits, ¬last < clock.reading (clock.reads + wait)) ∧
        later = { last := some (clock.reading (clock.reads + waits)), next := 0 } ∧
        after = { clock with reads := clock.reads + waits + 1 } := by
  have hadopt : ∀ reading : UInt64, sequencer.adopt? reading =
      if last < reading then some { last := some reading, next := 0 } else none := by
    intro reading
    split
    next hlater => exact adopt?_of_later (by simpa [hlast] using hlater)
    next hearlier => rw [adopt?_of_earlier hlast hearlier, if_pos hused.ge]
  rw [updates_iff]
  simp only [Adopts, hadopt, Option.ite_none_right_eq_some, Option.some.injEq, and_assoc,
    ite_eq_right_iff, reduceCtorEq, imp_false, eq_comm (b := later)]
  refine exists_congr fun waits => and_congr_right fun _ => ?_
  tauto

theorem exists_updates_iff_of_used_up (hused : sequencer.next = limit) :
    (∃ later after, sequencer.Updates clock later after) ↔
      ∃ waits, last < clock.reading (clock.reads + waits) := by
  simp only [updates_iff_of_used_up hlast hused]
  constructor
  · rintro ⟨_, _, waits, hlater, _⟩
    exact ⟨waits, hlater⟩
  · intro hsome
    -- The first later reading is the one that is adopted.
    exact ⟨_, _, Nat.find hsome, Nat.find_spec hsome, fun _ => Nat.find_min hsome, rfl, rfl⟩

end

theorem Updates.exists_adopt (hupdates : sequencer.Updates clock later after) :
    ∃ reading, sequencer.adopt? reading = some later := by
  obtain ⟨_, hadopts, _⟩ := updates_iff.mp hupdates
  exact ⟨_, hadopts.1⟩

theorem Updates.reading (hupdates : sequencer.Updates clock later after) :
    after.reading = clock.reading := by
  obtain ⟨_, _, rfl⟩ := updates_iff.mp hupdates
  rfl

theorem Updates.remaining_pos (hupdates : sequencer.Updates clock later after) :
    0 < later.remaining := by
  obtain ⟨_, hadopt⟩ := hupdates.exists_adopt
  exact remaining_pos_of_adopt hadopt

/-! ## Runs -/

/-- What the user of a sequencer asks of it. -/
inductive Call where
  | update
  | stamp
  deriving DecidableEq, Repr

/-- A sequencer in use, with its clock and all positions handed out so far. -/
structure Usage where
  sequencer : Sequencer := {}
  clock : Clock
  handed : List Position := []

namespace Usage

/-- A call that comes back.  No position is taken that there is no room for. -/
inductive Step : Usage → Call → Usage → Prop
  | update {before : Usage} {sequencer : Sequencer} {clock : Clock} :
      before.sequencer.Updates before.clock sequencer clock →
      Step before .update { before with
        sequencer := sequencer
        clock := clock }
  | stamp {before : Usage} :
      0 < before.sequencer.remaining →
      Step before .stamp { before with
        sequencer := before.sequencer.stamp.2
        handed := before.handed ++ [before.sequencer.stamp.1] }

inductive Run : Usage → List Call → Usage → Prop
  | nil (usage : Usage) : Run usage [] usage
  | cons {before middle later : Usage} {call : Call} {calls : List Call} :
      Step before call middle → Run middle calls later → Run before (call :: calls) later

variable {usage before later : Usage} {call : Call} {calls : List Call}

/-- After the first reading all that was handed out is in order and passed, and at
the timestamp in use just the positions in front of the next one were. -/
structure Orderly (usage : Usage) : Prop where
  started : usage.sequencer.last.isSome
  next_le : usage.sequencer.next ≤ limit
  passed : ∀ position ∈ usage.handed, usage.sequencer.Passed position
  increasing : usage.handed.Pairwise Position.Before
  fills : usage.sequencer.Fills usage.handed

theorem Orderly.sound (horderly : usage.Orderly) : usage.sequencer.Sound where
  next_le := horderly.next_le
  next_eq_zero hnone := by simpa [hnone] using horderly.started

theorem orderly_first {clock after : Clock} {sequencer : Sequencer}
    (hupdates : ({} : Sequencer).Updates clock sequencer after) :
    ({ sequencer, clock := after } : Usage).Orderly := by
  obtain ⟨rfl, rfl⟩ := updates_fresh_iff.mp hupdates
  exact ⟨rfl, Nat.zero_le _, by simp, .nil, rfl⟩

theorem Orderly.update (horderly : before.Orderly) {sequencer : Sequencer} {clock : Clock}
    (hupdates : before.sequencer.Updates before.clock sequencer clock) :
    Orderly { before with
      sequencer := sequencer
      clock := clock } := by
  obtain ⟨reading, hadopt⟩ := hupdates.exists_adopt
  have hpassed : ∀ position ∈ before.handed, sequencer.Passed position :=
    fun position hmem => (horderly.passed position hmem).adopt horderly.sound hadopt
  have hfills := horderly.fills.adopt hadopt hpassed
  rcases adopt?_cases hadopt with ⟨rfl, hlast, _⟩ | ⟨now, rfl, _⟩
  · exact ⟨hlast, horderly.next_le, hpassed, horderly.increasing, hfills⟩
  · exact ⟨rfl, Nat.zero_le _, hpassed, horderly.increasing, hfills⟩

theorem Orderly.stamp (horderly : before.Orderly) (hroom : before.sequencer.next < limit) :
    Orderly { before with
      sequencer := before.sequencer.stamp.2
      handed := before.handed ++ [before.sequencer.stamp.1] } where
  started := horderly.started
  next_le := hroom
  passed := passed_concat horderly.passed hroom
  increasing := pairwise_concat horderly.passed hroom horderly.increasing
  fills := horderly.fills.stamp

theorem Orderly.step (horderly : before.Orderly) (hstep : Step before call later) :
    later.Orderly := by
  cases hstep with
  | update hupdates => exact horderly.update hupdates
  | stamp hroom => exact horderly.stamp (Nat.lt_of_sub_pos hroom)

theorem Orderly.run (horderly : before.Orderly) (hrun : Run before calls later) :
    later.Orderly := by
  induction hrun with
  | nil => exact horderly
  | cons hstep _ ih => exact ih (horderly.step hstep)

theorem Run.orderly {clock : Clock} (hrun : Run { clock } (.update :: calls) usage) :
    usage.Orderly := by
  obtain _ | ⟨hfirst, hrest⟩ := hrun
  cases hfirst with
  | update hupdates => exact (orderly_first hupdates).run hrest

theorem Run.reading (hrun : Run before calls later) :
    later.clock.reading = before.clock.reading := by
  induction hrun with
  | nil => rfl
  | cons hstep _ ih =>
      cases hstep with
      | update hupdates => exact ih.trans hupdates.reading
      | stamp => exact ih

end Usage

/-! ## Positions in a row -/

/-- So many positions are handed out, and the counter goes up by as many. -/
theorem exists_stamps (count : Nat) (sequencer : Sequencer) :
    ∃ positions, positions.length = count ∧
      stamps count sequencer =
        (positions, { sequencer with next := sequencer.next + count }) := by
  induction count generalizing sequencer with
  | zero => exact ⟨[], rfl, rfl⟩
  | succ count ih =>
      obtain ⟨positions, hlength, hstamps⟩ := ih sequencer.stamp.2
      refine ⟨sequencer.stamp.1 :: positions, congrArg (· + 1) hlength, ?_⟩
      simp only [stamps, hstamps]
      simp only [stamp, Nat.add_assoc, Nat.add_comm 1]

namespace Usage

variable {usage later : Usage}

/-- After taking so many positions in a row. -/
def taken (usage : Usage) (count : Nat) : Usage :=
  { usage with
    sequencer := (stamps count usage.sequencer).2
    handed := usage.handed ++ (stamps count usage.sequencer).1 }

/-- There is room for just as many positions in a row as remain. -/
theorem run_stamps_iff {count : Nat} :
    Run usage (List.replicate count .stamp) later ↔
      count ≤ usage.sequencer.remaining ∧ later = usage.taken count := by
  induction count generalizing usage with
  | zero =>
      constructor
      · rintro ⟨⟩
        exact ⟨Nat.zero_le _, by simp [taken, stamps]⟩
      · rintro ⟨_, rfl⟩
        simpa [taken, stamps] using Run.nil usage
  | succ count ih =>
      have hnext : usage.sequencer.stamp.2.remaining = usage.sequencer.remaining - 1 :=
        Nat.sub_add_eq _ _ _
      constructor
      · rintro (_ | ⟨⟨hroom⟩, hrest⟩)
        obtain ⟨hcount, rfl⟩ := ih.mp hrest
        simp only [hnext] at hcount
        exact ⟨by omega, by simp [taken, stamps]⟩
      · rintro ⟨hcount, rfl⟩
        refine .cons (.stamp (by omega)) (ih.mpr ⟨?_, ?_⟩)
        · simp only [hnext]
          omega
        · simp [taken, stamps]

end Usage

/-- A sequencer in use by someone who starts with a reading and takes no more
positions than there is room for follows its clock, whatever that shows.

The first reading is adopted as it is.  Later, with positions left, one reading is
taken, and the timestamp in use stays unless it is later.  With none left the
first later reading is adopted, if there ever is one.  After each reading there is
room again.  All the while the positions handed out come in strict order, and at
the timestamp in use they are just those in front of the counter, which never
passes the limit. -/
theorem runs_follow_clock (readings : Nat → UInt64) :
    (∀ later after, ({} : Sequencer).Updates ⟨readings, 0⟩ later after ↔
      later = { last := some (readings 0), next := 0 } ∧ after = ⟨readings, 1⟩) ∧
    ∀ calls sequencer clock handed,
      Usage.Run { clock := ⟨readings, 0⟩ } (.update :: calls) ⟨sequencer, clock, handed⟩ →
      clock.reading = readings ∧
      handed.Pairwise Position.Before ∧
      handed.filter (·.timestamp = sequencer.timestamp) =
        Position.row sequencer.timestamp 0 sequencer.next ∧
      sequencer.next ≤ limit ∧
      (∀ count,
        (∃ later, Usage.Run ⟨sequencer, clock, handed⟩ (List.replicate count .stamp) later) ↔
          count ≤ sequencer.remaining) ∧
      (∀ later after, sequencer.Updates clock later after → 0 < later.remaining) ∧
      (sequencer.next < limit → ∀ later after, sequencer.Updates clock later after ↔
        later = { last := some (max sequencer.timestamp (readings clock.reads))
                  next := if sequencer.timestamp < readings clock.reads then 0
                    else sequencer.next } ∧
          after = ⟨readings, clock.reads + 1⟩) ∧
      (sequencer.next = limit →
        (∀ later after, sequencer.Updates clock later after ↔
          ∃ waits, sequencer.timestamp < readings (clock.reads + waits) ∧
            (∀ wait < waits, ¬sequencer.timestamp < readings (clock.reads + wait)) ∧
            later = { last := some (readings (clock.reads + waits)), next := 0 } ∧
            after = ⟨readings, clock.reads + waits + 1⟩) ∧
        ((∃ later after, sequencer.Updates clock later after) ↔
          ∃ waits, sequencer.timestamp < readings (clock.reads + waits))) := by
  refine ⟨fun _ _ => updates_fresh_iff, fun calls sequencer clock handed hrun => ?_⟩
  have horderly := hrun.orderly
  obtain ⟨reading, reads⟩ := clock
  obtain rfl : reading = readings := hrun.reading
  have hlast : sequencer.last = some sequencer.timestamp := by
    obtain ⟨last, hlast⟩ := Option.isSome_iff_exists.mp horderly.started
    rw [timestamp, hlast, Option.getD_some]
  refine ⟨rfl, horderly.increasing, horderly.fills, horderly.next_le, fun count => ?_,
    fun _ _ hupdates => hupdates.remaining_pos, fun hroom _ _ => updates_iff_of_room hlast hroom,
    fun hused => ⟨fun _ _ => updates_iff_of_used_up hlast hused,
      exists_updates_iff_of_used_up hlast hused⟩⟩
  simp [Usage.run_stamps_iff]

/-- All positions of a timestamp are taken, and then the clock stands still, goes back
and at last moves on. -/
theorem passes_over_readings :
    let readings : Nat → UInt64 := (Clock.listed #[7, 7, 6, 9]).reading
    ∃ handed, handed.length = 65536 ∧ handed.Pairwise Position.Before ∧
      Usage.Run { clock := ⟨readings, 0⟩ } (.update :: List.replicate 65536 .stamp)
        ⟨⟨some 7, 65536⟩, ⟨readings, 1⟩, handed⟩ ∧
      (⟨some 7, 65536⟩ : Sequencer).Updates ⟨readings, 1⟩ ⟨some 9, 0⟩ ⟨readings, 4⟩ := by
  intro readings
  have hfirst : Usage.Step { clock := ⟨readings, 0⟩ } .update
      { sequencer := ⟨some 7, 0⟩, clock := ⟨readings, 1⟩ } := .update ⟨1, rfl⟩
  obtain ⟨positions, hlength, hstamps⟩ := exists_stamps 65536 ⟨some 7, 0⟩
  have hrun : Usage.Run { clock := ⟨readings, 0⟩ } (.update :: List.replicate 65536 .stamp)
      ⟨⟨some 7, 65536⟩, ⟨readings, 1⟩, positions⟩ := by
    refine .cons hfirst (Usage.run_stamps_iff.mpr ⟨Nat.le_refl _, ?_⟩)
    simp only [Usage.taken, hstamps, List.nil_append, Nat.zero_add]
  obtain ⟨_, hincreasing, _, _, _, _, _, hstalls⟩ :=
    (runs_follow_clock readings).2 _ _ _ _ hrun
  refine ⟨positions, hlength, hincreasing, hrun, ((hstalls rfl).1 _ _).mpr ?_⟩
  exact ⟨2, by decide, by decide, rfl, rfl⟩

end Sequencer
end MessageStore
