import MessageStore.Proofs.DeliveryEnd
import MessageStore.Proofs.ReliableDelivery
import Mathlib.Tactic

/-!
# A clock for a whole run

A table that takes whatever it is offered and never fails gets at least one
entry with each timestamp that its writer adopts.  So a clock that shows one
timestamp for each entry of a run is enough for all batches of the run, whatever
the batches are: a delivery waits only while there is an entry to come.
-/

namespace MessageStore

namespace Table.Ledger

variable {σ E : Type} {table : Table σ E} (ledger : table.Ledger)

/-- How many entries the table holds and has taken. -/
def count (state : σ) : Nat :=
  (ledger.held state).length + (ledger.taken state).length

theorem count_take (state : σ) (entry : E) :
    ledger.count (table.take state entry) = ledger.count state + 1 := by
  rw [count, ledger.held_take, ledger.taken_take, List.length_append, List.length_singleton,
    ← Nat.add_assoc]
  rfl

theorem count_finish {state : σ} (hok : (table.finish state).1 = .ok ()) :
    ledger.count (table.finish state).2 = ledger.count state := by
  rw [count, ledger.held_finish_ok state hok, ledger.taken_finish, List.length_append,
    List.length_nil, Nat.add_zero]
  rfl

end Table.Ledger

namespace Chronicle

variable {σ E : Type} {table : Table σ E} {shape : Shape E} {good : σ → Prop}
  {ledger : table.Ledger} {before later : Chronicle σ E} {total : Nat}

/-- Whether a timestamp has been adopted for which no entry was made yet. -/
def opening (chronicle : Chronicle σ E) : Nat :=
  match chronicle.delivery.phase with
  | .offering _ | .drawing _ => if chronicle.delivery.written = 0 then 1 else 0
  | _ => 0

/-- Of as many timestamps as there are entries in all, the clock goes on to show
those that have not been adopted for an entry. -/
def Timely (ledger : table.Ledger) (total : Nat) (chronicle : Chronicle σ E) : Prop :=
  ∃ count, chronicle.delivery.clock.Rises count chronicle.delivery.sequencer.last ∧
    total ≤ count + ledger.count chronicle.delivery.table + chronicle.opening

/-- The entries to come are among those that there are in all. -/
def Within (ledger : table.Ledger) (total : Nat) (chronicle : Chronicle σ E) : Prop :=
  chronicle.delivery.chances + ledger.count chronicle.delivery.table ≤ total

theorem opening_of_phase_eq {chronicle other : Chronicle σ E}
    (hphase : other.delivery.phase = chronicle.delivery.phase)
    (hwritten : other.delivery.written = chronicle.delivery.written) :
    other.opening = chronicle.opening := by
  rw [opening, opening, hphase, hwritten]

theorem Timely.refresh {sequencer : Sequencer} (htimely : before.Timely ledger total)
    (hphase : before.delivery.phase = .refreshing) (hwritten : before.delivery.written = 0)
    (hadopt : before.delivery.sequencer.adopt? before.delivery.clock.read.1 = some sequencer) :
    Timely ledger total { before with delivery :=
      { before.delivery with
        sequencer
        clock := before.delivery.clock.read.2
        phase := .offering sequencer.remaining } } := by
  obtain ⟨count, hrises, hshown⟩ := htimely
  simp only [opening, hphase, Nat.add_zero] at hshown
  simp only [Timely, opening, hwritten, if_true]
  rcases hrises.read_of_adopted hadopt with ⟨-, hrest⟩ | ⟨-, hrest⟩
  · exact ⟨count, hrest, by omega⟩
  · exact ⟨count - 1, hrest, by omega⟩

theorem Timely.move (hreliable : table.Reliable good) (hmove : Move table shape before later)
    (hgood : good before.delivery.table) (htidy : before.Tidy) (hfed : before.Fed shape)
    (htimely : before.Timely ledger total) : later.Timely ledger total := by
  cases hmove with
  | refresh hphase hadopt =>
      rw [Tidy, hphase] at htidy
      exact htimely.refresh hphase htidy.2.2 hadopt
  | wait hphase hadopt =>
      obtain ⟨count, hrises, hshown⟩ := htimely
      exact ⟨count, hrises.read_of_full hadopt, hshown⟩
  | finish hphase =>
      obtain ⟨count, hrises, hshown⟩ := htimely
      have hopening : before.opening = 0 := by
        have hwritten := hfed.written_ne ledger.greedy hphase
        rcases hphase with ⟨budget, hphase, -⟩ | ⟨budget, hphase, -⟩ <;>
          simp only [opening, hphase, if_neg hwritten]
      refine ⟨count, hrises, ?_⟩
      rw [hopening] at hshown
      have hcount := ledger.count_finish (hreliable.succeeds hgood)
      change total ≤ count + ledger.count (table.finish before.delivery.table).2 + 0
      rw [hcount]
      exact hshown
  | draw hphase hahead hsight =>
      obtain ⟨count, hrises, hshown⟩ := htimely
      refine ⟨count, hrises, ?_⟩
      have hopening : before.opening ≤ 1 := by
        simp only [opening, hphase]
        split <;> omega
      simp only [Delivery.makeEntry, ledger.count_take]
      omega
  | pass hphase hahead hsight =>
      obtain ⟨count, hrises, hshown⟩ := htimely
      refine ⟨count, by simpa using hrises, ?_⟩
      rw [opening_of_phase_eq (Delivery.pass_phase ..) (Delivery.pass_written ..)]
      simpa using hshown
  | afterWrite hphase =>
      obtain ⟨count, hrises, hshown⟩ := htimely
      refine ⟨count, by simpa using hrises, ?_⟩
      simp only [opening, hphase] at hshown
      simp only [Delivery.afterWrite_table]
      omega
  | stay => exact htimely
  | seekEnd hphase | seekReady hphase | ask hphase | settle hphase | abandon hphase
  | abandonEnd hphase =>
      obtain ⟨count, hrises, hshown⟩ := htimely
      refine ⟨count, hrises, ?_⟩
      simpa only [opening, hphase] using hshown

theorem Within.move (hreliable : table.Reliable good) (hmove : Move table shape before later)
    (hgood : good before.delivery.table) (hwithin : before.Within ledger total) :
    later.Within ledger total := by
  unfold Within at *
  cases hmove with
  | seekReady hphase hahead hsight =>
      simp only [Delivery.chances, hahead, List.map_cons] at hwithin ⊢
      rw [Pending.chances_ready hsight]
      exact hwithin
  | pass hphase hahead hsight =>
      simp only [Delivery.chances, hahead, List.map_cons, List.sum_cons] at hwithin
      rw [Delivery.pass_table]
      unfold Delivery.pass
      split <;>
      · simp only [Delivery.chances]
        omega
  | finish hphase =>
      have hcount := ledger.count_finish (hreliable.succeeds hgood)
      change before.delivery.chances + ledger.count (table.finish before.delivery.table).2 ≤ total
      rw [hcount]
      exact hwithin
  | draw hphase hahead hsight =>
      have hchance := Pending.chances_draw hsight before.delivery.sequencer.stamp.1
      simp only [Delivery.makeEntry, ledger.count_take, Delivery.chances, hahead, List.map_cons,
        List.sum_cons] at hwithin ⊢
      omega
  | afterWrite hphase =>
      rw [Delivery.afterWrite_table]
      unfold Delivery.afterWrite
      split
      · exact hwithin
      · simp only [Delivery.chances] at hwithin ⊢
        cases hahead : before.delivery.ahead with
        | nil =>
            simp only [List.map_nil, List.sum_nil]
            omega
        | cons pending rest =>
            rw [hahead] at hwithin
            simpa only [List.map_cons, List.sum_cons, Pending.chances_settleCurrent] using hwithin
  | abandon hphase hahead =>
      simp only [Delivery.chances, hahead, List.map_cons, List.sum_cons] at hwithin ⊢
      omega
  | refresh | wait | seekEnd | ask | settle | abandonEnd | stay => exact hwithin

/-- A delivery that waits has an entry to come, so the clock shows another
timestamp. -/
theorem Timely.adopts (htimely : before.Timely ledger total) (hwithin : before.Within ledger total)
    (hfed : before.Fed shape) (hphase : before.delivery.phase = .refreshing) :
    ∃ skipped, before.delivery.Adopts skipped := by
  obtain ⟨count, hrises, hshown⟩ := htimely
  have hpos := hfed.chances_pos hphase
  simp only [opening, hphase] at hshown
  rw [Within] at hwithin
  exact Delivery.exists_adopts hrises (by omega)

end Chronicle

namespace TableWriter

variable {σ E : Type} {table : Table σ E} {good : σ → Prop} {ledger : table.Ledger}
  {writer : TableWriter σ} {batch : List Pending} {total : Nat}

/-- Between two batches the clock goes on to show a timestamp for every entry
that the table does not have yet. -/
def Timely (ledger : table.Ledger) (total : Nat) (writer : TableWriter σ) : Prop :=
  ∃ count, writer.clock.Rises count writer.sequencer.last ∧
    total ≤ count + ledger.count writer.table

theorem timely_after (shape : Shape E) (hreliable : table.Reliable good)
    (hgood : good writer.table) (htimely : writer.Timely ledger total)
    (hroom : (batch.map Pending.chances).sum + ledger.count writer.table ≤ total) (n : Nat) :
    ((writer.chronicle batch).after table shape n).Timely ledger total ∧
      ((writer.chronicle batch).after table shape n).Within ledger total := by
  induction n with
  | zero => exact ⟨htimely, hroom⟩
  | succ n ih =>
      have hgoodNow : good ((writer.chronicle batch).after table shape n).delivery.table :=
        (Chronicle.flawless_after hreliable hgood batch n).good
      have htidy := Chronicle.tidy_after table shape writer batch n
      have hfed := Chronicle.fed_after shape ledger.greedy writer batch n
      have hmove := Chronicle.step_move table shape ((writer.chronicle batch).after table shape n)
      rw [Chronicle.after_succ]
      exact ⟨ih.1.move hreliable hmove hgoodNow htidy hfed, ih.2.move hreliable hmove hgoodNow⟩

/-- A batch with entries among those that there are in all is written, and the
clock goes on to show a timestamp for each of the others. -/
theorem exists_isFinished (shape : Shape E) (hreliable : table.Reliable good)
    (hgood : good writer.table) (htimely : writer.Timely ledger total)
    (hroom : (batch.map Pending.chances).sum + ledger.count writer.table ≤ total) :
    ∃ n, ((writer.chronicle batch).after table shape n).delivery.isFinished = true := by
  refine Chronicle.exists_isFinished table shape writer batch fun n hphase => ?_
  obtain ⟨htimelyNow, hwithin⟩ := timely_after shape hreliable hgood htimely hroom n
  exact htimelyNow.adopts hwithin (Chronicle.fed_after shape ledger.greedy writer batch n) hphase

theorem timely_ofDelivery (shape : Shape E) (hreliable : table.Reliable good)
    (hgood : good writer.table) (htimely : writer.Timely ledger total)
    (hroom : (batch.map Pending.chances).sum + ledger.count writer.table ≤ total) {n : Nat}
    (hfinished : ((writer.chronicle batch).after table shape n).delivery.isFinished = true) :
    (ofDelivery ((writer.chronicle batch).after table shape n).delivery).Timely ledger total := by
  obtain ⟨⟨count, hrises, hshown⟩, -⟩ := timely_after shape hreliable hgood htimely hroom n
  refine ⟨count, hrises, ?_⟩
  have hphase : ((writer.chronicle batch).after table shape n).delivery.phase = .finished := by
    unfold Delivery.isFinished at hfinished
    split at hfinished
    next hphase => exact hphase
    next => contradiction
  simp only [Chronicle.opening, hphase, Nat.add_zero] at hshown
  exact hshown

end TableWriter

end MessageStore
