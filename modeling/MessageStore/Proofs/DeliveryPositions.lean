import MessageStore.Proofs.BatchesInTurn
import MessageStore.Proofs.SequencerOrder
import MessageStore.Proofs.TableContract
import Mathlib.Tactic

/-!
# Positions never repeat or go back

A delivery stamps an entry only while its budget lasts, and the budget of a
call fits into the ids left at its timestamp.  So no count leaves its range,
and every entry lands after all those handed over before, in this call and in
earlier ones, stored or not.  Neither the clock nor the table has a say.
-/

namespace MessageStore

/-- The entry stands at the count that it was stamped with. -/
def HandedEntry.IsCounted {E : Type} [TableEntry E] (handed : HandedEntry E) :
    Prop :=
  handed.position.sequence.toNat = handed.count ∧ handed.count < Sequencer.limit

/-- Entries stamped by a sequencer, the earlier ones first. -/
structure Sequencer.HandedOut {E : Type} [TableEntry E]
    (sequencer : Sequencer) (handed : List (HandedEntry E)) : Prop where
  sound : sequencer.Sound
  passed : ∀ entry ∈ handed, sequencer.Passed entry.position
  increasing : handed.Pairwise fun first second =>
    first.position.Before second.position
  counted : ∀ entry ∈ handed, entry.IsCounted

namespace Sequencer.HandedOut

variable {E : Type} [TableEntry E] {sequencer next : Sequencer}
  {handed : List (HandedEntry E)}

theorem initial : ({} : Sequencer).HandedOut ([] : List (HandedEntry E)) where
  sound := Sequencer.initial_sound
  passed := by simp
  increasing := List.Pairwise.nil
  counted := by simp

theorem adopt {reading : UInt64} (hhanded : sequencer.HandedOut handed)
    (hadopt : sequencer.adopt? reading = some next) : next.HandedOut handed where
  sound := hhanded.sound.adopt hadopt
  passed := fun entry hmem => (hhanded.passed entry hmem).adopt hhanded.sound hadopt
  increasing := hhanded.increasing
  counted := hhanded.counted

theorem stamp {entry : HandedEntry E} (hhanded : sequencer.HandedOut handed)
    (hlast : sequencer.last.isSome) (hroom : sequencer.next < Sequencer.limit)
    (hposition : entry.position = sequencer.stamp.1)
    (hcount : entry.count = sequencer.next) :
    sequencer.stamp.2.HandedOut (handed ++ [entry]) := by
  have hpositions : (handed ++ [entry]).map HandedEntry.position =
      handed.map HandedEntry.position ++ [sequencer.stamp.1] := by
    rw [List.map_append, List.map_singleton, hposition]
  have hpassed : ∀ position ∈ handed.map HandedEntry.position, sequencer.Passed position :=
    List.forall_mem_map.mpr hhanded.passed
  have hbefore : (handed.map HandedEntry.position).Pairwise Position.Before :=
    List.pairwise_map.mpr hhanded.increasing
  constructor
  · exact Sequencer.Sound.stamp hlast hroom
  · have hmore := passed_concat hpassed hroom
    rw [← hpositions] at hmore
    exact List.forall_mem_map.mp hmore
  · have hmore := pairwise_concat hpassed hroom hbefore
    rw [← hpositions] at hmore
    exact List.pairwise_map.mp hmore
  · intro other hmem
    rcases List.mem_append.mp hmem with hold | hnew
    · exact hhanded.counted other hold
    · rw [List.mem_singleton.mp hnew]
      constructor
      · rw [hposition, hcount]
        exact Sequencer.stamp_sequence_toNat hroom
      · rw [hcount]
        exact hroom

end Sequencer.HandedOut

namespace Chronicle

variable {σ E : Type} [TableEntry E] {table : Table σ E} {shape : Shape E}
  {earlier : List (HandedEntry E)} {before later : Chronicle σ E}

/-- The sequencer has stamped all entries handed over, those of earlier
batches first, and has room for the budget of the call under way. -/
structure Stamped (earlier : List (HandedEntry E)) (chronicle : Chronicle σ E) :
    Prop where
  handedOut : chronicle.delivery.sequencer.HandedOut (earlier ++ chronicle.handed)
  room : ∀ budget, chronicle.delivery.phase = .offering budget ∨
      chronicle.delivery.phase = .drawing budget →
    chronicle.delivery.sequencer.last.isSome ∧
      chronicle.delivery.sequencer.next + budget ≤ Sequencer.limit
  asked : ∀ budget, chronicle.delivery.phase = .drawing budget → budget ≠ 0

theorem Stamped.of_sequencer_eq (hstamped : before.Stamped earlier)
    (hsequencer : later.delivery.sequencer = before.delivery.sequencer)
    (hhanded : later.handed = before.handed)
    (hroom : ∀ budget, later.delivery.phase = .offering budget ∨
        later.delivery.phase = .drawing budget →
      before.delivery.phase = .offering budget ∨
        before.delivery.phase = .drawing budget)
    (hasked : ∀ budget, later.delivery.phase = .drawing budget → budget ≠ 0) :
    later.Stamped earlier := by
  constructor
  · rw [hsequencer, hhanded]
    exact hstamped.handedOut
  · intro budget hphase
    rw [hsequencer]
    exact hstamped.room budget (hroom budget hphase)
  · exact hasked

theorem Stamped.refresh {sequencer : Sequencer} {reading : UInt64} {clock : Clock}
    (hstamped : before.Stamped earlier)
    (hadopt : before.delivery.sequencer.adopt? reading = some sequencer) :
    Stamped earlier
      { before with delivery :=
        { before.delivery with
          sequencer, clock, phase := .offering sequencer.remaining } } := by
  have hhanded := hstamped.handedOut.adopt hadopt
  refine ⟨hhanded, ?_, fun budget hphase => by simp at hphase⟩
  intro budget hphase
  simp only [Phase.offering.injEq, reduceCtorEq, or_false] at hphase
  subst budget
  constructor
  · rcases Sequencer.adopt?_cases hadopt with ⟨rfl, hlast, _⟩ | ⟨now, rfl, _⟩
    · exact hlast
    · rfl
  · have hle := hhanded.sound.next_le
    simp only [Sequencer.remaining]
    omega

theorem Stamped.draw {budget : Nat} {next : Pending} {rest : List Pending}
    (hlawful : shape.Lawful) (hstamped : before.Stamped earlier)
    (hphase : before.delivery.phase = .drawing budget) :
    Stamped earlier
      { before with
        delivery := before.delivery.makeEntry table shape next rest budget
        current := before.current ++ [before.delivery.nextEntry shape next] } := by
  obtain ⟨hlast, hbound⟩ := hstamped.room budget (Or.inr hphase)
  have hasked := hstamped.asked budget hphase
  have hroom : before.delivery.sequencer.next < Sequencer.limit := by omega
  have hposition : (before.delivery.nextEntry shape next).position =
      before.delivery.sequencer.stamp.1 :=
    hlawful.position_entry _ _ _
  constructor
  · rw [handed_take, ← List.append_assoc]
    exact hstamped.handedOut.stamp hlast hroom hposition rfl
  · intro other hother
    have hbudget : budget - 1 = other := by
      simpa [Delivery.makeEntry] using hother
    refine ⟨hlast, ?_⟩
    simp only [Delivery.makeEntry, Sequencer.stamp]
    omega
  · intro other hother
    simp [Delivery.makeEntry] at hother

theorem Stamped.move (hlawful : shape.Lawful) (hmove : Move table shape before later)
    (hstamped : before.Stamped earlier) : later.Stamped earlier := by
  cases hmove with
  | seekEnd hphase hahead =>
      exact hstamped.of_sequencer_eq rfl rfl (by simp) (by simp)
  | seekReady hphase hahead hsight =>
      exact hstamped.of_sequencer_eq rfl rfl (by simp) (by simp)
  | pass hphase hahead hsight =>
      refine hstamped.of_sequencer_eq (by simp) rfl ?_ ?_
      · intro budget hlater
        simpa using hlater
      · intro budget hlater
        exact hstamped.asked budget (by simpa using hlater)
  | refresh hphase hadopt => exact hstamped.refresh hadopt
  | wait hphase hadopt =>
      exact hstamped.of_sequencer_eq rfl rfl (by simp) (by simp [hphase])
  | @ask budget hphase hwants hbudget =>
      refine hstamped.of_sequencer_eq rfl rfl ?_ ?_
      · intro other hother
        left
        simpa [hphase] using hother
      · intro other hother
        simp only [Phase.drawing.injEq] at hother
        exact hother ▸ hbudget
  | finish hphase =>
      refine hstamped.of_sequencer_eq rfl (handed_finish _ _ _) ?_ ?_ <;>
        simp [Delivery.endWrite]
  | draw hphase hahead hsight => exact hstamped.draw hlawful hphase
  | settle hphase =>
      exact hstamped.of_sequencer_eq rfl rfl (by simp) (by simp)
  | afterWrite hphase =>
      refine hstamped.of_sequencer_eq (by simp) rfl ?_ ?_
      · intro budget hlater
        unfold Delivery.afterWrite at hlater
        split at hlater <;> simp at hlater
      · intro budget hlater
        unfold Delivery.afterWrite at hlater
        split at hlater <;> simp at hlater
  | abandon hphase hahead =>
      exact hstamped.of_sequencer_eq rfl rfl (by simp [hphase]) (by simp [hphase])
  | abandonEnd hphase hahead =>
      exact hstamped.of_sequencer_eq rfl rfl (by simp) (by simp)
  | stay hphase => exact hstamped

/-- At every moment of a delivery all entries handed over, after those of
earlier batches, were stamped in increasing order. -/
theorem stamped_after (table : Table σ E) (hlawful : shape.Lawful) {writer : TableWriter σ}
    (hearlier : writer.sequencer.HandedOut earlier) (batch : List Pending)
    (n : Nat) :
    ((writer.chronicle batch).after table shape n).Stamped earlier := by
  apply after_move_induction
  · constructor
    · simpa [TableWriter.chronicle, TableWriter.deliver, handed] using hearlier
    · intro budget hphase
      simp [TableWriter.chronicle, TableWriter.deliver] at hphase
    · intro budget hphase
      simp [TableWriter.chronicle, TableWriter.deliver] at hphase
  · exact fun hmove hbefore => hbefore.move hlawful hmove

end Chronicle

namespace TableWriter

variable {σ E : Type} (table : Table σ E) (shape : Shape E)

variable {shape}

theorem exists_handedOut_handedInTurn [TableEntry E] (hlawful : shape.Lawful)
    (limit : Nat) {writer : TableWriter σ} {earlier : List (HandedEntry E)}
    (hearlier : writer.sequencer.HandedOut earlier) (batches : List (List Pending)) :
    ∃ sequencer : Sequencer,
      sequencer.HandedOut
        (earlier ++ handedInTurn table shape limit writer batches) := by
  induction batches generalizing writer earlier with
  | nil => exact ⟨writer.sequencer, by simpa [handedInTurn] using hearlier⟩
  | cons batch batches ih =>
      have hstamped :=
        Chronicle.stamped_after table hlawful hearlier batch limit
      unfold handedInTurn
      rw [← List.append_assoc]
      cases hwrite : writer.write table shape limit batch with
      | none =>
          refine ⟨((writer.chronicle batch).after table shape limit).delivery.sequencer, ?_⟩
          simpa using hstamped.handedOut
      | some returned =>
          obtain ⟨result, requests, later⟩ := returned
          have hlater := (write_eq_some_iff table shape limit writer later batch
            requests result).mp hwrite
          apply ih
          rw [← hlater.2.2.2]
          exact hstamped.handedOut

/-- Whatever the clock shows, whatever batches are written and however the
table behaves, the positions of all entries handed to the table by one writer
strictly increase, those of failed calls included.  No sequence id is cut off:
each is the full count, which stays below the limit.  These entries are all that
the table has ever taken. -/
theorem handed_positions_strictly_increase (kind : TableKind) {σ : Type}
    (table : Table σ kind.Entry) (state : σ) (clock : Clock)
    (batches : List (List Pending)) (limit : Nat) :
    let handed :=
      handedInTurn table kind.shape limit { table := state, clock } batches
    (handed.Pairwise fun first second =>
        (TableEntry.position first.entry).Before
          (TableEntry.position second.entry)) ∧
      (∀ entry ∈ handed,
        (TableEntry.position entry.entry).sequence.toNat = entry.count ∧
          entry.count < 65536) ∧
      ∃ calls current, handed = calls.flatMap StoreCall.handed ++ current ∧
        Chronicle.Received table state calls current
          (tableInTurn table kind.shape limit { table := state, clock } batches) := by
  have hstart : ({ table := state, clock } : TableWriter σ).sequencer.HandedOut
      ([] : List (HandedEntry kind.Entry)) :=
    Sequencer.HandedOut.initial
  obtain ⟨sequencer, hhanded⟩ :=
    exists_handedOut_handedInTurn table kind.shape_lawful limit hstart batches
  obtain ⟨current, hreceived, hsplit⟩ :=
    exists_receivedInTurn limit { table := state, clock } batches
  rw [List.nil_append] at hhanded
  exact ⟨hhanded.increasing, hhanded.counted, _, current, hsplit, hreceived⟩

end TableWriter

end MessageStore
