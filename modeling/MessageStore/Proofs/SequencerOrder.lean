import MessageStore.Sequencer
import Mathlib.Tactic

/-!
# The order of positions

A sequencer has passed every position that it has handed out: the position
lies at an earlier timestamp, or at the timestamp in use and below the next
sequence id.  Reading the clock passes no position twice, whatever the clock
shows, and the position handed out next lies after all those passed.
-/

namespace MessageStore

namespace Position

/-- One position lies strictly before another. -/
def Before (first second : Position) : Prop :=
  first.timestamp < second.timestamp ∨
    first.timestamp = second.timestamp ∧ first.sequence < second.sequence

instance (first second : Position) : Decidable (first.Before second) :=
  inferInstanceAs (Decidable (_ ∨ _))

theorem Before.trans {first second third : Position}
    (hfirst : first.Before second) (hsecond : second.Before third) :
    first.Before third := by
  rcases hfirst with hlt | ⟨heq, hlt⟩
  · rcases hsecond with hlt' | ⟨heq', _⟩
    · exact Or.inl (UInt64.lt_trans hlt hlt')
    · exact Or.inl (heq' ▸ hlt)
  · rcases hsecond with hlt' | ⟨heq', hlt'⟩
    · exact Or.inl (heq ▸ hlt')
    · exact Or.inr ⟨heq.trans heq', UInt16.lt_trans hlt hlt'⟩

end Position

namespace Sequencer

/-- The counter stays in range, and at zero until the clock is first read. -/
structure Sound (sequencer : Sequencer) : Prop where
  next_le : sequencer.next ≤ limit
  next_eq_zero : sequencer.last = none → sequencer.next = 0

theorem initial_sound : ({} : Sequencer).Sound where
  next_le := Nat.zero_le _
  next_eq_zero _ := rfl

/-- The sequencer hands the position out no more. -/
def Passed (sequencer : Sequencer) (position : Position) : Prop :=
  position.timestamp < sequencer.timestamp ∨
    position.timestamp = sequencer.timestamp ∧
      position.sequence.toNat < sequencer.next

theorem adopt?_of_later {sequencer : Sequencer} {reading : UInt64}
    (hlater : ∀ last ∈ sequencer.last, last < reading) :
    sequencer.adopt? reading = some { last := some reading, next := 0 } := by
  obtain ⟨last, next⟩ := sequencer
  cases last with
  | none => rfl
  | some last =>
      have hless := hlater last rfl
      have hother : some last ≠ some reading := fun hsame =>
        UInt64.ne_of_lt hless (Option.some.inj hsame)
      simp only [adopt?, clamp, if_neg (UInt64.not_lt.mpr (UInt64.le_of_lt hless)),
        if_neg hother]

/-- An earlier reading stands for the timestamp in use. -/
theorem adopt?_of_earlier {sequencer : Sequencer} {reading last : UInt64}
    (hlast : sequencer.last = some last) (hearlier : ¬last < reading) :
    sequencer.adopt? reading = if limit ≤ sequencer.next then none else some sequencer := by
  have hclamp : sequencer.clamp reading = last := by
    simp only [clamp, hlast]
    split
    · rfl
    · next hnot =>
        exact UInt64.le_antisymm (UInt64.not_lt.mp hearlier) (UInt64.not_lt.mp hnot)
  simp only [adopt?, hclamp, hlast, if_true]

/-- A reading is adopted unless it gives no room.  Either the timestamp in use
stays, with ids left, or a later one comes into use with all its ids. -/
theorem adopt?_cases {sequencer next : Sequencer} {reading : UInt64}
    (hadopt : sequencer.adopt? reading = some next) :
    (next = sequencer ∧ sequencer.last.isSome ∧ sequencer.next < limit) ∨
      (∃ now, next = { last := some now, next := 0 } ∧
        ∀ last, sequencer.last = some last → last < now) := by
  by_cases hlater : ∀ last ∈ sequencer.last, last < reading
  · rw [adopt?_of_later hlater, Option.some.injEq] at hadopt
    exact Or.inr ⟨reading, hadopt.symm, fun last hlast => hlater last hlast⟩
  · obtain ⟨last, hlast, hearlier⟩ : ∃ last, sequencer.last = some last ∧
        ¬last < reading := by
      simpa using hlater
    rw [adopt?_of_earlier hlast hearlier] at hadopt
    split at hadopt
    next => contradiction
    next hroom =>
      exact Or.inl ⟨(Option.some.inj hadopt).symm, by simp [hlast], Nat.not_le.mp hroom⟩

theorem Sound.adopt {sequencer next : Sequencer} {reading : UInt64}
    (hsound : sequencer.Sound)
    (hadopt : sequencer.adopt? reading = some next) : next.Sound := by
  rcases adopt?_cases hadopt with ⟨rfl, _, _⟩ | ⟨now, rfl, _⟩
  · exact hsound
  · exact ⟨Nat.zero_le _, fun hnone => by simp at hnone⟩

/-- An adopted reading gives room for at least one position. -/
theorem remaining_pos_of_adopt {sequencer next : Sequencer} {reading : UInt64}
    (hadopt : sequencer.adopt? reading = some next) : 0 < next.remaining := by
  rcases adopt?_cases hadopt with ⟨rfl, _, hroom⟩ | ⟨now, rfl, _⟩
  · unfold remaining
    omega
  · exact Nat.zero_lt_succ 65535

theorem Passed.adopt {sequencer next : Sequencer} {reading : UInt64}
    {position : Position} (hsound : sequencer.Sound)
    (hpassed : sequencer.Passed position)
    (hadopt : sequencer.adopt? reading = some next) : next.Passed position := by
  rcases adopt?_cases hadopt with ⟨rfl, _, _⟩ | ⟨now, rfl, hlater⟩
  · exact hpassed
  · cases hlast : sequencer.last with
    | none =>
        -- Nothing was handed out before the first reading.
        have hzero := hsound.next_eq_zero hlast
        unfold Passed timestamp at hpassed
        rw [hlast, hzero] at hpassed
        simp at hpassed
    | some last =>
        have hlt := hlater last hlast
        unfold Passed timestamp at hpassed ⊢
        rw [hlast] at hpassed
        left
        rcases hpassed with hbefore | ⟨heq, _⟩
        · exact UInt64.lt_trans hbefore hlt
        · exact heq ▸ hlt

theorem stamp_sequence_toNat {sequencer : Sequencer}
    (hroom : sequencer.next < limit) :
    sequencer.stamp.1.sequence.toNat = sequencer.next :=
  UInt16.toNat_ofNat_of_lt' hroom

theorem Sound.stamp {sequencer : Sequencer} (hlast : sequencer.last.isSome)
    (hroom : sequencer.next < limit) : sequencer.stamp.2.Sound := by
  constructor
  · exact hroom
  · intro hnone
    have hsame : sequencer.stamp.2.last = sequencer.last := rfl
    rw [← hsame, hnone] at hlast
    contradiction

/-- The position handed out lies after every position passed. -/
theorem Passed.before_stamp {sequencer : Sequencer} {position : Position}
    (hpassed : sequencer.Passed position) (hroom : sequencer.next < limit) :
    position.Before sequencer.stamp.1 := by
  have hsequence := stamp_sequence_toNat hroom
  rcases hpassed with hlt | ⟨heq, hlt⟩
  · exact Or.inl hlt
  · refine Or.inr ⟨heq, ?_⟩
    rw [UInt16.lt_iff_toNat_lt, hsequence]
    exact hlt

theorem Passed.stamp {sequencer : Sequencer} {position : Position}
    (hpassed : sequencer.Passed position) :
    sequencer.stamp.2.Passed position := by
  rcases hpassed with hlt | ⟨heq, hlt⟩
  · exact Or.inl hlt
  · exact Or.inr ⟨heq, Nat.lt_succ_of_lt hlt⟩

theorem passed_stamp {sequencer : Sequencer} (hroom : sequencer.next < limit) :
    sequencer.stamp.2.Passed sequencer.stamp.1 := by
  refine Or.inr ⟨rfl, ?_⟩
  rw [stamp_sequence_toNat hroom]
  exact Nat.lt_succ_self _

/-! ## One more position -/

section

variable {sequencer : Sequencer} {positions : List Position}
  (hpassed : ∀ position ∈ positions, sequencer.Passed position)
  (hroom : sequencer.next < limit)
include hpassed hroom

theorem passed_concat :
    ∀ position ∈ positions ++ [sequencer.stamp.1], sequencer.stamp.2.Passed position := by
  intro position hmem
  rcases List.mem_append.mp hmem with hold | hnew
  · exact (hpassed position hold).stamp
  · rw [List.mem_singleton.mp hnew]
    exact passed_stamp hroom

theorem pairwise_concat (hincreasing : positions.Pairwise Position.Before) :
    (positions ++ [sequencer.stamp.1]).Pairwise Position.Before := by
  refine List.pairwise_append.mpr ⟨hincreasing, List.pairwise_singleton _ _, ?_⟩
  intro position hold new hnew
  rw [List.mem_singleton.mp hnew]
  exact (hpassed position hold).before_stamp hroom

end

end Sequencer

/-! ## Positions in a row -/

namespace Position

/-- So many positions of a timestamp, one after the other from a sequence id on. -/
def row (timestamp : UInt64) (first count : Nat) : List Position :=
  (List.range' first count).map fun id => ⟨timestamp, id.toUInt16⟩

variable {timestamp : UInt64} {first count : Nat}

@[simp] theorem row_zero : row timestamp first 0 = [] :=
  rfl

theorem row_succ :
    row timestamp first (count + 1) =
      row timestamp first count ++ [⟨timestamp, (first + count).toUInt16⟩] := by
  rw [row, List.range'_1_concat, List.map_append]
  rfl

end Position

namespace Sequencer

variable {sequencer next : Sequencer} {positions : List Position}

/-- At the timestamp in use stand just the positions in front of the next one. -/
def Fills (sequencer : Sequencer) (positions : List Position) : Prop :=
  positions.filter (·.timestamp = sequencer.timestamp) =
    Position.row sequencer.timestamp 0 sequencer.next

theorem Fills.adopt {reading : UInt64} (hfills : sequencer.Fills positions)
    (hadopt : sequencer.adopt? reading = some next)
    (hpassed : ∀ position ∈ positions, next.Passed position) : next.Fills positions := by
  rcases adopt?_cases hadopt with ⟨rfl, _, _⟩ | ⟨now, rfl, _⟩
  · exact hfills
  · -- Nothing stands at a timestamp that has just come into use.
    refine List.filter_eq_nil_iff.mpr fun position hmem hsame => ?_
    rcases hpassed position hmem with hbefore | ⟨_, hbelow⟩
    · exact UInt64.ne_of_lt hbefore (of_decide_eq_true hsame)
    · exact Nat.not_lt_zero _ hbelow

theorem Fills.stamp (hfills : sequencer.Fills positions) :
    sequencer.stamp.2.Fills (positions ++ [sequencer.stamp.1]) := by
  have hnew : [sequencer.stamp.1].filter (·.timestamp = sequencer.timestamp) =
      [sequencer.stamp.1] := List.filter_eq_self.mpr (by simp [Sequencer.stamp])
  have hold : positions.filter (·.timestamp = sequencer.timestamp) =
      Position.row sequencer.timestamp 0 sequencer.next := hfills
  change (positions ++ [sequencer.stamp.1]).filter (·.timestamp = sequencer.timestamp) =
    Position.row sequencer.timestamp 0 (sequencer.next + 1)
  rw [List.filter_append, hold, hnew, Position.row_succ, Nat.zero_add]
  rfl

end Sequencer

end MessageStore
