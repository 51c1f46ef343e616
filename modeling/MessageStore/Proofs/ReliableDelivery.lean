import MessageStore.Proofs.DeliveryOutcomes
import Mathlib.Tactic

/-!
# Batches into a table that never fails

With a table whose calls all succeed, every request that is not refused is
written whole.  A batch leaves one block of entries for each of its requests,
in the order of the batch, and nothing of the batch is left in the table's
hands.  What such a table holds is given by a relation that its calls keep, so
that it may depend on more than the table itself.
-/

namespace MessageStore

/-- A request that was brought into a table, with the entries it left there. -/
structure Written (E : Type) where
  request : Request
  pending : Pending
  block : List E

/-- The request left all its entries and is told so. -/
structure Written.IsWhole {E : Type} [TableEntry E] (shape : Shape E)
    (written : Written E) : Prop where
  renders : shape.Renders written.request (shape.contents written.request)
    written.block
  outcome_eq : written.pending.outcome =
    some (shape.verdict written.request written.block)

section

variable {E : Type} [TableEntry E] {shape : Shape E} {givenUp : StoreError → Prop}
  {request : Request} {share : Share E} {pending : Pending}

theorem Done.whole (hdone : Done shape givenUp request share pending)
    (hgivenUp : ∀ cause, ¬givenUp cause) (hclean : share.Clean) :
    Written.IsWhole shape ⟨request, pending, share.block⟩ := by
  obtain ⟨outcome, hsome, hfate⟩ := hdone.outcome
  have hstored := hdone.stored_eq_handed hclean
  cases hfate with
  | givenUp _ hcause => exact absurd hcause (hgivenUp _)
  | @failed before call cause hpast hbefore hcause =>
      rw [hclean call (by simp [hpast])] at hcause
      contradiction
  | stored _ hall =>
      have hrenders := hdone.progress.renders
      rw [hall, List.take_length] at hrenders
      constructor
      · rw [Share.block, hstored]
        exact hrenders
      · rw [Share.block, hstored]
        exact hsome

theorem Row.exists_written {requests : List Request} {shares : Nat → Share E}
    {holds : Request → Share E → Pending → Prop} {place : Nat}
    {row : List Pending} (hrow : Row requests shares holds place row)
    (hlength : place + row.length = requests.length)
    (hwhole : ∀ owner request pending, holds request (shares owner) pending →
      Written.IsWhole shape ⟨request, pending, (shares owner).block⟩) :
    ∃ rows : List (Written E),
      rows.map Written.request = requests.drop place ∧
        rows.map Written.pending = row ∧
        (∀ written ∈ rows, written.IsWhole shape) ∧
        rows.flatMap Written.block =
          (List.range' place row.length).flatMap
            fun owner => (shares owner).block := by
  induction row generalizing place with
  | nil =>
      refine ⟨[], ?_, rfl, ?_, rfl⟩
      · rw [List.drop_eq_nil_of_le (by simp at hlength; omega)]
        rfl
      · intro written hmem
        contradiction
  | cons pending row ih =>
      obtain ⟨⟨request, hrequest, hholds⟩, hrest⟩ := hrow
      rw [List.length_cons] at hlength
      obtain ⟨rows, hrequests, hpendings, hwholes, hblocks⟩ :=
        ih hrest (by omega)
      obtain ⟨hlt, hget⟩ := List.getElem?_eq_some_iff.mp hrequest
      refine ⟨⟨request, pending, (shares place).block⟩ :: rows, ?_, ?_, ?_, ?_⟩
      · rw [List.map_cons, hrequests, List.drop_eq_getElem_cons hlt, hget]
      · rw [List.map_cons, hpendings]
      · intro written hmem
        rcases List.mem_cons.mp hmem with rfl | hold
        · exact hwhole place request pending hholds
        · exact hwholes written hold
      · rw [List.flatMap_cons, hblocks, List.length_cons, List.range'_succ,
          List.flatMap_cons]

end

namespace Chronicle

variable {σ E : Type} {table : Table σ E} {shape : Shape E} {good : σ → Prop}
  {before later : Chronicle σ E}

/-- No call has failed, and the table is in a state from which none will. -/
structure Flawless (good : σ → Prop) (chronicle : Chronicle σ E) : Prop where
  good : good chronicle.delivery.table
  calls_ok : ∀ call ∈ chronicle.calls, call.result = .ok ()

theorem Flawless.move (hreliable : table.Reliable good)
    (hmove : Move table shape before later) (hflawless : before.Flawless good) :
    later.Flawless good := by
  cases hmove with
  | finish hphase =>
      refine ⟨hreliable.finish hflawless.good, ?_⟩
      intro call hmem
      rcases List.mem_append.mp hmem with hold | hnew
      · exact hflawless.calls_ok call hold
      · rw [List.mem_singleton.mp hnew]
        exact hreliable.succeeds hflawless.good
  | draw hphase hahead hsight =>
      exact ⟨hreliable.take _ hflawless.good, hflawless.calls_ok⟩
  | pass hphase hahead hsight =>
      exact ⟨by simpa using hflawless.good, hflawless.calls_ok⟩
  | afterWrite hphase =>
      exact ⟨by simpa using hflawless.good, hflawless.calls_ok⟩
  | seekEnd | seekReady | refresh | wait | ask | settle | abandon | abandonEnd
  | stay => exact ⟨hflawless.good, hflawless.calls_ok⟩

theorem flawless_after (hreliable : table.Reliable good) {writer : TableWriter σ}
    (hgood : good writer.table) (batch : List Pending) (n : Nat) :
    Flawless good ((writer.chronicle batch).after table shape n) := by
  apply after_move_induction
  · refine ⟨hgood, ?_⟩
    intro call hmem
    simp [TableWriter.chronicle] at hmem
  · exact fun hmove hbefore => hbefore.move hreliable hmove

theorem Flawless.share_clean {chronicle : Chronicle σ E}
    (hflawless : chronicle.Flawless good) (owner : Nat) :
    (chronicle.share owner).Clean := by
  intro call hmem
  obtain ⟨whole, hwhole, rfl⟩ := List.mem_map.mp (List.mem_of_mem_filter hmem)
  exact hflawless.calls_ok whole hwhole

/-- All that was handed over is stored, but for a call under way. -/
theorem Flawless.stored_eq {chronicle : Chronicle σ E} (hflawless : chronicle.Flawless good)
    (hcurrent : chronicle.current = []) : chronicle.stored = chronicle.handed := by
  rw [stored, handed, hcurrent, List.append_nil]
  exact List.flatMap_congr fun call hmem =>
    StoreCall.stored_of_ok (hflawless.calls_ok call hmem)

end Chronicle

/-! ## What such a table shows -/

/-- In a state that a table shows as holding some entries, with others taken by
the call under way, it takes whatever it is offered.  If the call succeeds it
has stored all of it. -/
structure Table.Gathers {σ E : Type} (table : Table σ E)
    (shows : List E → List E → σ → Prop) : Prop where
  greedy : table.IsGreedy
  take : ∀ {held taken state} (entry : E), shows held taken state →
    shows held (taken ++ [entry]) (table.take state entry)
  finish : ∀ {held taken state}, shows held taken state →
    (table.finish state).1 = .ok () → shows (held ++ taken) [] (table.finish state).2

/-- In a state that a table shows as holding some entries, with others taken by
the call under way, it takes whatever it is offered and stores all of it. -/
structure Table.Keeps {σ E : Type} (table : Table σ E)
    (shows : List E → List E → σ → Prop) : Prop where
  greedy : table.IsGreedy
  take : ∀ {held taken state} (entry : E), shows held taken state →
    shows held (taken ++ [entry]) (table.take state entry)
  finish : ∀ {held taken state}, shows held taken state →
    shows (held ++ taken) [] (table.finish state).2
  succeeds : ∀ {held taken state}, shows held taken state →
    (table.finish state).1 = .ok ()

section

variable {σ E : Type} {table : Table σ E} {shape : Shape E}
  {shows : List E → List E → σ → Prop} {before later : Chronicle σ E}

theorem Table.Keeps.gathers (hkeeps : table.Keeps shows) : table.Gathers shows where
  greedy := hkeeps.greedy
  take := hkeeps.take
  finish hshows _ := hkeeps.finish hshows

theorem Table.Gathers.keeps (hgathers : table.Gathers shows)
    (hsucceeds : ∀ {held taken state}, shows held taken state → (table.finish state).1 = .ok ()) :
    table.Keeps shows where
  greedy := hgathers.greedy
  take := hgathers.take
  finish hshows := hgathers.finish hshows (hsucceeds hshows)
  succeeds := hsucceeds

theorem Table.Keeps.reliable (hkeeps : table.Keeps shows) :
    table.Reliable fun state => ∃ held taken, shows held taken state where
  take entry hgood := by
    obtain ⟨held, taken, hshows⟩ := hgood
    exact ⟨held, taken ++ [entry], hkeeps.take entry hshows⟩
  finish hgood := by
    obtain ⟨held, taken, hshows⟩ := hgood
    exact ⟨held ++ taken, [], hkeeps.finish hshows⟩
  succeeds hgood := by
    obtain ⟨held, taken, hshows⟩ := hgood
    exact hkeeps.succeeds hshows

theorem Table.Reliable.keeps {good : σ → Prop} (hreliable : table.Reliable good)
    (hgreedy : table.IsGreedy) : table.Keeps fun _ _ state => good state where
  greedy := hgreedy
  take := hreliable.take
  finish := hreliable.finish
  succeeds := hreliable.succeeds

/-- A reliable table with a ledger shows what the ledger says. -/
theorem Table.Ledger.keeps (ledger : table.Ledger) {good : σ → Prop}
    (hreliable : table.Reliable good) :
    table.Keeps fun held taken state =>
      good state ∧ ledger.held state = held ∧ ledger.taken state = taken where
  greedy := ledger.greedy
  take entry hshows := by
    obtain ⟨hgood, rfl, rfl⟩ := hshows
    exact ⟨hreliable.take entry hgood, ledger.held_take _ _, ledger.taken_take _ _⟩
  finish hshows := by
    obtain ⟨hgood, rfl, rfl⟩ := hshows
    exact ⟨hreliable.finish hgood, ledger.held_finish_ok _ (hreliable.succeeds hgood),
      ledger.taken_finish _⟩
  succeeds hshows := hreliable.succeeds hshows.1

namespace Chronicle

/-- The table shows what was stored behind what it held at the start, and the
entries of the call under way as taken. -/
def Shown (shows : List E → List E → σ → Prop) (start : List E)
    (chronicle : Chronicle σ E) : Prop :=
  shows (start ++ chronicle.stored.map HandedEntry.entry)
    (chronicle.current.map HandedEntry.entry) chronicle.delivery.table

theorem Shown.of_table_eq {start : List E} (hshown : before.Shown shows start)
    (htable : later.delivery.table = before.delivery.table)
    (hcalls : later.calls = before.calls)
    (hcurrent : later.current = before.current) : later.Shown shows start := by
  rw [Shown, htable, stored, hcalls, hcurrent]
  exact hshown

/-- As long as no call has failed the table goes on to show what was stored. -/
theorem Shown.move (hgathers : table.Gathers shows) {start : List E}
    (hmove : Move table shape before later)
    (hshown : (∀ call ∈ before.calls, call.result = .ok ()) → before.Shown shows start)
    (hcalls : ∀ call ∈ later.calls, call.result = .ok ()) : later.Shown shows start := by
  cases hmove with
  | finish hphase =>
      obtain ⟨hearlier, hlast⟩ := List.forall_mem_append.mp hcalls
      have hok : (table.finish before.delivery.table).1 = .ok () :=
        hlast _ (List.mem_singleton_self _)
      have hfinish := hgathers.finish (hshown hearlier) hok
      rw [List.append_assoc, ← List.map_append] at hfinish
      simpa [Shown, stored, StoreCall.stored, hok, Delivery.endWrite] using hfinish
  | @draw budget pending next rest hphase hahead hsight =>
      have htake :=
        hgathers.take (before.delivery.nextEntry shape next).entry (hshown hcalls)
      rw [Shown, List.map_append]
      exact htake
  | pass hphase hahead hsight => exact (hshown hcalls).of_table_eq (by simp) rfl rfl
  | afterWrite hphase => exact (hshown hcalls).of_table_eq (by simp) rfl rfl
  | seekEnd | seekReady | refresh | wait | ask | settle | abandon | abandonEnd
  | stay => exact (hshown hcalls).of_table_eq rfl rfl rfl

theorem shown_after (hgathers : table.Gathers shows) {start : List E}
    {writer : TableWriter σ} (hshows : shows start [] writer.table)
    (batch : List Pending) (n : Nat)
    (hcalls : ∀ call ∈ ((writer.chronicle batch).after table shape n).calls,
      call.result = .ok ()) :
    Shown shows start ((writer.chronicle batch).after table shape n) := by
  refine after_move_induction table shape
    (motive := fun chronicle => (∀ call ∈ chronicle.calls, call.result = .ok ()) →
      chronicle.Shown shows start) ?_ ?_ n hcalls
  · intro _
    simpa [Shown, TableWriter.chronicle, TableWriter.deliver, stored] using hshows
  · exact fun hmove hbefore => Shown.move hgathers hmove hbefore

end Chronicle

end

/-! ## Whole batches -/

namespace TableWriter

section Batches

variable {kind : TableKind} {σ : Type} {table : Table σ kind.Entry} {good : σ → Prop}
  {writer : TableWriter σ}

theorem exists_whole (hgreedy : table.IsGreedy) (hreliable : table.Reliable good)
    (hgood : good writer.table) (requests : List Request) (n : Nat) :
    let last := (writer.chronicle (requests.map Pending.fresh)).after table kind.shape n
    last.delivery.isFinished = true →
      last.delivery.result = .ok () ∧ good last.delivery.table ∧ last.current = [] ∧
        last.stored = last.handed ∧ ∃ rows : List (Written kind.Entry),
          rows.map Written.request = requests ∧
          rows.map Written.pending = last.delivery.requests ∧
          (∀ written ∈ rows, written.IsWhole kind.shape) ∧
          last.stored.map HandedEntry.entry = rows.flatMap Written.block := by
  intro last hfinished
  have hregular : last.Regular kind.shape requests :=
    Chronicle.regular_after table kind.shape_lawful writer requests n
  have hfed : last.Fed kind.shape := Chronicle.fed_after kind.shape hgreedy writer _ n
  have hflawless : last.Flawless good := Chronicle.flawless_after hreliable hgood _ n
  have hrow := hregular.standing.row_done hregular.tidy hfinished
  obtain ⟨rows, hrequests, hpendings, hwhole, hblocks⟩ :=
    hrow.exists_written (by rw [Nat.zero_add, hregular.length_eq])
      fun owner request pending hdone =>
        hdone.whole hfed.not_givenUp (hflawless.share_clean owner)
  have hcurrent := (hregular.tidy.eq_nil_of_isFinished hfinished).2
  refine ⟨hfed.result_eq_ok_iff.mpr hflawless.calls_ok, hflawless.good, hcurrent,
    hflawless.stored_eq hcurrent, rows, hrequests, hpendings, hwhole, ?_⟩
  rw [hregular.order.stored_eq, List.map_flatMap, hblocks, ← List.range_eq_range']
  rfl

theorem exists_whole_of_outcome (hgreedy : table.IsGreedy) (hreliable : table.Reliable good)
    (hgood : good writer.table) (requests : List Request) (n : Nat) {place : Nat}
    {pending : Pending} {outcome : Outcome}
    (hget : ((writer.chronicle (requests.map Pending.fresh)).after table kind.shape
      n).delivery.requests[place]? = some pending)
    (hsome : pending.outcome = some outcome) :
    ∃ request block, requests[place]? = some request ∧
      Written.IsWhole kind.shape ⟨request, pending, block⟩ := by
  have hregular := Chronicle.regular_after table kind.shape_lawful writer requests n
  have hfed := Chronicle.fed_after kind.shape hgreedy writer (requests.map Pending.fresh) n
  have hflawless : Chronicle.Flawless good
      ((writer.chronicle (requests.map Pending.fresh)).after table kind.shape n) :=
    Chronicle.flawless_after hreliable hgood _ n
  have hlt := (List.getElem?_eq_some_iff.mp hget).1
  rw [hregular.length_eq] at hlt
  have hrequest := List.getElem?_eq_getElem hlt
  rcases hregular.stance hrequest hget with hdone | ⟨hnone, -⟩
  · exact ⟨_, _, hrequest, hdone.whole hfed.not_givenUp (hflawless.share_clean place)⟩
  · rw [hnone] at hsome
    contradiction

theorem exists_kept {shows : List kind.Entry → List kind.Entry → σ → Prop}
    (hkeeps : table.Keeps shows) {held : List kind.Entry}
    (hshows : shows held [] writer.table) (requests : List Request) (n : Nat) :
    let last := (writer.chronicle (requests.map Pending.fresh)).after table kind.shape n
    last.delivery.isFinished = true →
      last.delivery.result = .ok () ∧ last.stored = last.handed ∧
      ∃ rows : List (Written kind.Entry),
        rows.map Written.request = requests ∧
        rows.map Written.pending = last.delivery.requests ∧
        (∀ written ∈ rows, written.IsWhole kind.shape) ∧
        last.stored.map HandedEntry.entry = rows.flatMap Written.block ∧
        shows (held ++ rows.flatMap Written.block) [] last.delivery.table := by
  intro last hfinished
  obtain ⟨hresult, -, hcurrent, hhanded, rows, hrequests, hpendings, hwhole, hstored⟩ :=
    exists_whole hkeeps.greedy hkeeps.reliable ⟨held, [], hshows⟩ requests n hfinished
  have hflawless : last.Flawless fun state => ∃ held current, shows held current state :=
    Chronicle.flawless_after hkeeps.reliable ⟨held, [], hshows⟩ _ n
  have hshown : last.Shown shows held :=
    Chronicle.shown_after hkeeps.gathers hshows _ n hflawless.calls_ok
  rw [Chronicle.Shown, hcurrent, hstored] at hshown
  exact ⟨hresult, hhanded, rows, hrequests, hpendings, hwhole, hstored, hshown⟩

/-- Nothing is left in the hands of the table between two batches, and no call
will fail. -/
structure IsReady {σ E : Type} {table : Table σ E} (ledger : table.Ledger)
    (good : σ → Prop) (writer : TableWriter σ) : Prop where
  good : good writer.table
  taken_eq : ledger.taken writer.table = []

/-- By its ledger the table has the whole of the requests then. -/
theorem exists_written {ledger : table.Ledger} (hreliable : table.Reliable good)
    (hready : writer.IsReady ledger good) (requests : List Request) (n : Nat) :
    let final := ((writer.chronicle (requests.map Pending.fresh)).after table
      kind.shape n).delivery
    final.isFinished = true →
      final.result = .ok () ∧ (ofDelivery final).IsReady ledger good ∧
        ∃ rows : List (Written kind.Entry),
          rows.map Written.request = requests ∧
          rows.map Written.pending = final.requests ∧
          (∀ written ∈ rows, written.IsWhole kind.shape) ∧
          ledger.held final.table =
            ledger.held writer.table ++ rows.flatMap Written.block := by
  intro final hfinished
  obtain ⟨hresult, -, rows, hrequests, hpendings, hwhole, -, hgood, hheld, htaken⟩ :=
    exists_kept (ledger.keeps hreliable) ⟨hready.good, rfl, hready.taken_eq⟩ requests n
      hfinished
  exact ⟨hresult, ⟨hgood, htaken⟩, rows, hrequests, hpendings, hwhole, hheld⟩

end Batches

end TableWriter

end MessageStore
