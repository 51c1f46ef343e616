import MessageStore.Proofs.DeliveryStanding
import MessageStore.Proofs.SequencerOrder
import Mathlib.Tactic

/-!
# Greedy tables

A table that takes whatever it is offered is only called when there is an
entry for it.  So no call goes without entries, a delivery into it never gives
up, and what the delivery comes to is the first failure among its calls.  If
the table also keeps all or nothing of a call, it holds just what the calls
that succeeded have handed to it.
-/

namespace MessageStore

def StoreCall.failure? {E : Type} (call : StoreCall E) : Option StoreError :=
  match call.result with
  | .ok () => none
  | .error cause => some cause

theorem StoreCall.failure?_eq_none_iff {E : Type} (call : StoreCall E) :
    call.failure? = none ↔ call.result = .ok () := by
  unfold failure?
  cases call.result with
  | ok _ => simp
  | error cause => simp

theorem StoreCall.failure?_eq_some_iff {E : Type} (call : StoreCall E)
    (cause : StoreError) :
    call.failure? = some cause ↔ call.result = .error cause := by
  unfold failure?
  cases call.result with
  | ok _ => simp
  | error other => simp

/-- A request that shows an entry keeps showing it. -/
theorem Pending.inspect_of_ready {E : Type} {shape : Shape E}
    {pending next : Pending}
    (hsight : Delivery.inspect shape pending = .ready next) :
    Delivery.inspect shape next = .ready next := by
  obtain ⟨hnone, rfl, _⟩ := Pending.inspect_ready hsight
  have hopen : pending.isCompleted = false :=
    pending.isCompleted_eq_false_iff.mpr hnone
  have hpeek : pending.peek.isCompleted = false :=
    pending.peek.isCompleted_eq_false_iff.mpr (by rw [peek_outcome, hnone])
  unfold Delivery.inspect at hsight ⊢
  rw [hopen] at hsight
  rw [hpeek, peek_peek]
  exact hsight

namespace Chronicle

variable {σ E : Type} {table : Table σ E} {shape : Shape E}
  {before later : Chronicle σ E}

/-- The request at hand has an entry to make. -/
def HasEntry (shape : Shape E) (chronicle : Chronicle σ E) : Prop :=
  ∃ pending rest, chronicle.delivery.ahead = pending :: rest ∧
    Delivery.inspect shape pending = .ready pending

/-- A call under way has entries, or there is one for it. -/
def Loaded (shape : Shape E) (chronicle : Chronicle σ E) : Phase → Prop
  | .seeking | .finished => True
  | .refreshing => chronicle.HasEntry shape
  | .offering budget =>
    chronicle.delivery.written = 0 → budget ≠ 0 ∧ chronicle.HasEntry shape
  | .drawing _ => chronicle.delivery.written = 0 → chronicle.HasEntry shape
  | .settling _ _ => chronicle.delivery.written ≠ 0
  | .abandoning _ => False

/-- What calls of a greedy table have in common. -/
structure Fed (shape : Shape E) (chronicle : Chronicle σ E) : Prop where
  loaded : Loaded shape chronicle chronicle.delivery.phase
  handed_ne : ∀ call ∈ chronicle.calls, call.handed ≠ []
  failure_eq : chronicle.delivery.failure =
    chronicle.calls.findSome? StoreCall.failure?

/-- A call that ends has entries. -/
theorem Fed.written_ne (hgreedy : table.IsGreedy) (hfed : before.Fed shape)
    (hphase : (∃ budget, before.delivery.phase = .offering budget ∧
        (table.wants before.delivery.table = false ∨ budget = 0)) ∨
      ∃ budget, before.delivery.phase = .drawing budget ∧
        before.delivery.ahead = []) :
    before.delivery.written ≠ 0 := by
  have hloaded := hfed.loaded
  intro hzero
  rcases hphase with ⟨budget, hphase, hended⟩ | ⟨budget, hphase, hnil⟩
  · rw [hphase] at hloaded
    rw [hgreedy, Bool.true_eq_false, false_or] at hended
    exact (hloaded hzero).1 hended
  · rw [hphase] at hloaded
    obtain ⟨pending, rest, hahead, _⟩ := hloaded hzero
    rw [hnil] at hahead
    contradiction

theorem Fed.finish (hgreedy : table.IsGreedy) (htidy : before.Tidy)
    (hfed : before.Fed shape)
    (hphase : (∃ budget, before.delivery.phase = .offering budget ∧
        (table.wants before.delivery.table = false ∨ budget = 0)) ∨
      ∃ budget, before.delivery.phase = .drawing budget ∧
        before.delivery.ahead = []) :
    Fed shape
      { delivery := before.delivery.endWrite table
        calls := before.calls ++
          [⟨before.current, (table.finish before.delivery.table).1⟩]
        current := [] } := by
  have hwritten := hfed.written_ne hgreedy hphase
  have hcurrent : before.current ≠ [] := by
    have hlength : before.delivery.written = before.current.length := by
      unfold Tidy at htidy
      rcases hphase with ⟨budget, hphase, _⟩ | ⟨budget, hphase, _⟩ <;>
        rw [hphase] at htidy <;> exact htidy.1
    intro hnil
    rw [hnil] at hlength
    exact hwritten hlength
  constructor
  · exact hwritten
  · intro call hmem
    rcases List.mem_append.mp hmem with hold | hnew
    · exact hfed.handed_ne call hold
    · rw [List.mem_singleton.mp hnew]
      exact hcurrent
  · rw [List.findSome?_append, ← hfed.failure_eq]
    simp only [Delivery.endWrite, List.findSome?_singleton, StoreCall.failure?]
    cases hresult : (table.finish before.delivery.table).1 with
    | ok _ => simp
    | error cause => simp

theorem Fed.move (hgreedy : table.IsGreedy) (hmove : Move table shape before later)
    (htidy : before.Tidy) (hfed : before.Fed shape) : later.Fed shape := by
  have hloaded := hfed.loaded
  cases hmove with
  | seekEnd hphase hahead => exact ⟨trivial, hfed.handed_ne, hfed.failure_eq⟩
  | @seekReady pending next rest hphase hahead hsight =>
      exact ⟨⟨next, rest, rfl, Pending.inspect_of_ready hsight⟩, hfed.handed_ne,
        hfed.failure_eq⟩
  | @pass pending next rest hphase hahead hsight =>
      refine ⟨?_, hfed.handed_ne, by simpa using hfed.failure_eq⟩
      rcases hphase with hphase | ⟨budget, hphase⟩
      · simp [Loaded, hphase]
      · rw [hphase] at hloaded
        simp only [Delivery.pass_phase, hphase, Loaded, Delivery.pass_written]
        intro hwritten
        -- The first request of a call has an entry, so it is not passed.
        obtain ⟨other, others, hother, hready⟩ := hloaded hwritten
        rw [hahead, List.cons.injEq] at hother
        rw [← hother.1, hsight] at hready
        contradiction
  | @refresh sequencer hphase hadopt =>
      rw [hphase] at hloaded
      refine ⟨fun _ => ⟨?_, hloaded⟩, hfed.handed_ne, hfed.failure_eq⟩
      have hroom := Sequencer.remaining_pos_of_adopt hadopt
      omega
  | wait hphase hadopt =>
      refine ⟨?_, hfed.handed_ne, hfed.failure_eq⟩
      rw [hphase] at hloaded
      change Loaded shape _ before.delivery.phase
      rw [hphase]
      exact hloaded
  | ask hphase hwants hbudget =>
      rw [hphase] at hloaded
      exact ⟨fun hwritten => (hloaded hwritten).2, hfed.handed_ne, hfed.failure_eq⟩
  | finish hphase => exact hfed.finish hgreedy htidy hphase
  | draw hphase hahead hsight =>
      refine ⟨?_, hfed.handed_ne, hfed.failure_eq⟩
      intro hwritten
      simp [Delivery.makeEntry] at hwritten
  | settle hphase =>
      rw [hphase] at hloaded
      exact ⟨hloaded, hfed.handed_ne, hfed.failure_eq⟩
  | afterWrite hphase =>
      rw [hphase] at hloaded
      unfold Delivery.afterWrite
      rw [if_neg hloaded]
      exact ⟨trivial, hfed.handed_ne, hfed.failure_eq⟩
  | abandon hphase hahead | abandonEnd hphase hahead =>
      rw [hphase] at hloaded
      exact hloaded.elim
  | stay hphase => exact hfed

theorem Fed.not_givenUp (hfed : before.Fed shape) (cause : StoreError) :
    ¬before.GivenUp cause := by
  rintro ⟨call, hmem, hnil, _⟩
  exact hfed.handed_ne call hmem hnil

theorem Fed.result_eq_ok_iff (hfed : before.Fed shape) :
    before.delivery.result = .ok () ↔
      ∀ call ∈ before.calls, call.result = .ok () := by
  unfold Delivery.result
  rw [hfed.failure_eq]
  cases hfirst : before.calls.findSome? StoreCall.failure? with
  | none =>
      rw [List.findSome?_eq_none_iff] at hfirst
      simp only [true_iff]
      intro call hmem
      exact call.failure?_eq_none_iff.mp (hfirst call hmem)
  | some cause =>
      obtain ⟨call, hmem, hcause⟩ := List.exists_of_findSome?_eq_some hfirst
      simp only [reduceCtorEq, false_iff]
      intro hgood
      rw [call.failure?_eq_none_iff.mpr (hgood call hmem)] at hcause
      contradiction

/-- What a delivery comes to is the first failure among its calls. -/
theorem Fed.result_eq_error_iff (hfed : before.Fed shape) (cause : StoreError) :
    before.delivery.result = .error cause ↔
      ∃ front failing back, before.calls = front ++ failing :: back ∧
        failing.result = .error cause ∧
        ∀ call ∈ front, call.result = .ok () := by
  have hresult : before.delivery.result = .error cause ↔
      before.calls.findSome? StoreCall.failure? = some cause := by
    unfold Delivery.result
    rw [hfed.failure_eq]
    cases before.calls.findSome? StoreCall.failure? <;> simp
  rw [hresult, List.findSome?_eq_some_iff]
  simp only [StoreCall.failure?_eq_some_iff, StoreCall.failure?_eq_none_iff]

theorem fed_after (shape : Shape E) (hgreedy : table.IsGreedy)
    (writer : TableWriter σ) (batch : List Pending) (n : Nat) :
    Fed shape ((writer.chronicle batch).after table shape n) := by
  have hstart : (writer.chronicle batch : Chronicle σ E).Tidy ∧
      Fed shape (writer.chronicle batch : Chronicle σ E) := by
    refine ⟨⟨rfl, rfl, rfl⟩, trivial, ?_, rfl⟩
    intro call hmem
    simp [TableWriter.chronicle] at hmem
  have hboth := @after_move_induction σ E table shape
    (fun moment => moment.Tidy ∧ moment.Fed shape) _ hstart
    (fun hmove hbefore =>
      ⟨hbefore.1.move hmove, hbefore.2.move hgreedy hmove hbefore.1⟩) n
  exact hboth.2

/-! ## Tables that keep all or nothing -/

/-- The table holds what was stored on top of what it held before, and has
taken the entries of the call under way. -/
structure Booked (ledger : table.Ledger) (start : List E)
    (chronicle : Chronicle σ E) : Prop where
  held : ledger.held chronicle.delivery.table =
    start ++ chronicle.stored.map HandedEntry.entry
  taken : ledger.taken chronicle.delivery.table =
    chronicle.current.map HandedEntry.entry

theorem Booked.of_table_eq {ledger : table.Ledger} {start : List E}
    (hbooked : before.Booked ledger start)
    (htable : later.delivery.table = before.delivery.table)
    (hcalls : later.calls = before.calls)
    (hcurrent : later.current = before.current) : later.Booked ledger start := by
  constructor
  · rw [htable, stored, hcalls]
    exact hbooked.held
  · rw [htable, hcurrent]
    exact hbooked.taken

theorem Booked.move {ledger : table.Ledger} {start : List E}
    (hmove : Move table shape before later)
    (hbooked : before.Booked ledger start) : later.Booked ledger start := by
  cases hmove with
  | finish hphase =>
      constructor
      · simp only [Delivery.endWrite, stored, List.flatMap_append,
          List.flatMap_singleton, List.map_append]
        cases hresult : (table.finish before.delivery.table).1 with
        | ok _ =>
            rw [ledger.held_finish_ok _ hresult, hbooked.held, hbooked.taken,
              StoreCall.stored_of_ok rfl, List.append_assoc]
            rfl
        | error cause =>
            rw [ledger.held_finish_error _ cause hresult, hbooked.held,
              StoreCall.stored_of_error rfl, List.map_nil, List.append_nil]
            rfl
      · exact ledger.taken_finish _
  | draw hphase hahead hsight =>
      constructor
      · simp only [Delivery.makeEntry, ledger.held_take]
        exact hbooked.held
      · simp only [Delivery.makeEntry, ledger.taken_take, hbooked.taken,
          List.map_append]
        rfl
  | pass hphase hahead hsight => exact hbooked.of_table_eq (by simp) rfl rfl
  | afterWrite hphase => exact hbooked.of_table_eq (by simp) rfl rfl
  | seekEnd | seekReady | refresh | wait | ask | settle | abandon | abandonEnd
  | stay => exact hbooked.of_table_eq rfl rfl rfl

theorem booked_after (ledger : table.Ledger) {writer : TableWriter σ}
    (htaken : ledger.taken writer.table = []) (batch : List Pending) (n : Nat) :
    Booked ledger (ledger.held writer.table)
      ((writer.chronicle batch).after table shape n) := by
  apply after_move_induction
  · constructor
    · simp [TableWriter.chronicle, TableWriter.deliver, stored]
    · exact htaken
  · exact fun hmove hbefore => hbefore.move hmove

end Chronicle

end MessageStore
