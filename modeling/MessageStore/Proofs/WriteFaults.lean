import MessageStore.Proofs.JournalFrames
import MessageStore.Proofs.ReliableDelivery

/-!
# Writes that meet faults

A request may need several calls, and each of them may fail.  It is acknowledged
only if none of them has failed, so then the journal has gained all its entries.
Whatever comes of a write, nothing was done to the volume but to the one file,
and a writer that could open its journal has found whole lines in it, if the
repair before has looked at that file.
-/

namespace MessageStore

/-- What every act of a table keeps holds at every moment. -/
theorem Chronicle.table_after {σ E : Type} {table : Table σ E} {shape : Shape E} {holds : σ → Prop}
    (htake : ∀ {state} entry, holds state → holds (table.take state entry))
    (hfinish : ∀ {state}, holds state → holds (table.finish state).2) {writer : TableWriter σ}
    (hholds : holds writer.table) (batch : List Pending) (n : Nat) :
    holds ((writer.chronicle batch).after table shape n).delivery.table := by
  refine after_induction table shape (motive := fun moment => holds moment.delivery.table)
    hholds ?_ n
  intro moment hmoment
  rw [step_delivery, Delivery.step_table]
  split
  next => exact hmoment
  next handed _ => exact htake handed.entry hmoment
  next => exact hfinish hmoment

/-! ## One acknowledged request -/

section

variable {E : Type} [TableEntry E] {shape : Shape E} {request : Request}

theorem Done.clean {givenUp : StoreError → Prop} {share : Share E} {pending : Pending}
    (hdone : Done shape givenUp request share pending) {receipt : Receipt}
    (hok : pending.outcome = some (.ok receipt)) : share.Clean := by
  obtain ⟨outcome, hsome, hfate⟩ := hdone.outcome
  obtain rfl : Except.ok receipt = outcome := Option.some.inj (hok.symm.trans hsome)
  generalize htold : (Except.ok receipt : Outcome) = outcome at hfate
  cases hfate with
  | stored hclean => exact hclean
  | failed => contradiction
  | givenUp => contradiction

namespace Chronicle

variable {σ : Type} {chronicle : Chronicle σ E}

theorem Regular.calls_ok {requests : List Request} (hregular : chronicle.Regular shape requests)
    (hfed : chronicle.Fed shape) (hfinished : chronicle.delivery.isFinished = true)
    (htold : ∀ pending ∈ chronicle.delivery.requests, ∃ receipt,
      pending.outcome = some (.ok receipt)) :
    ∀ call ∈ chronicle.calls, call.result = .ok () := by
  intro call hmem
  obtain ⟨entry, hentry⟩ := List.exists_mem_of_ne_nil _ (hfed.handed_ne call hmem)
  have hinside := hregular.order.lt_length entry
    (List.mem_append_left _ (List.mem_flatMap.mpr ⟨call, hmem, hentry⟩))
  obtain ⟨receipt, hok⟩ := htold _ (List.getElem_mem hinside)
  have hrequest := List.getElem?_eq_getElem (hregular.length_eq ▸ hinside)
  have hdone := hregular.done hfinished hrequest (List.getElem?_eq_getElem hinside)
  exact hdone.clean hok (call.of entry.owner) (mem_share_past hmem hentry rfl)

end Chronicle

end

namespace TableWriter

variable {σ E : Type} {table : Table σ E} {shape : Shape E} {limit : Nat}
  {writer last : TableWriter σ} {request : Request} {outcome : Outcome}

/-- A write that was carried out, and the closing after it. -/
theorem writeOnce_eq_some (honce : writer.writeOnce table shape limit request =
      some (outcome, last)) :
    ∃ result pendings written,
      writer.write table shape limit [Pending.fresh request] = some (result, pendings, written) ∧
      last.table = (table.close written.table).2 ∧
      ((∃ cause, outcome = .error (.closeTable cause)) ∨
        (table.close written.table).1 = .ok () ∧
          (pendings.head?.bind fun pending => (pending.conclude result).outcome) =
            some outcome) := by
  rw [writeOnce] at honce
  split at honce
  next => contradiction
  next result pendings written hwrite =>
    refine ⟨result, pendings, written, hwrite, ?_⟩
    simp only [close] at honce
    split at honce
    next =>
      cases honce
      exact ⟨rfl, .inl ⟨_, rfl⟩⟩
    next told hclosed htold =>
      cases honce
      exact ⟨rfl, .inr ⟨hclosed, htold⟩⟩
    next => contradiction

theorem writeOnce_table {holds : σ → Prop}
    (htake : ∀ {state} entry, holds state → holds (table.take state entry))
    (hfinish : ∀ {state}, holds state → holds (table.finish state).2)
    (hclose : ∀ {state}, holds state → holds (table.close state).2) (hholds : holds writer.table)
    (honce : writer.writeOnce table shape limit request = some (outcome, last)) :
    holds last.table := by
  obtain ⟨result, pendings, written, hwrite, hlast, -⟩ := writeOnce_eq_some honce
  obtain ⟨-, -, -, rfl⟩ := (write_eq_some_iff ..).mp hwrite
  rw [hlast]
  exact hclose (Chronicle.table_after htake hfinish hholds _ limit)

theorem writeOnce_acknowledged {kind : TableKind} {table : Table σ kind.Entry}
    {shows : List kind.Entry → List kind.Entry → σ → Prop} (hgathers : table.Gathers shows)
    (held : List kind.Entry) (hshows : shows held [] writer.table) {receipt : Receipt}
    (honce : writer.writeOnce table kind.shape limit request = some (.ok receipt, last)) :
    ∃ block state, List.Forall₂ (kind.Carries request) (kind.whole request) block ∧
      shows (held ++ block) [] state ∧ last.table = (table.close state).2 := by
  obtain ⟨result, pendings, written, hwrite, hlast, htold⟩ := writeOnce_eq_some honce
  obtain ⟨hfinished, -, rfl, rfl⟩ := (write_eq_some_iff ..).mp hwrite
  set final := (writer.chronicle [Pending.fresh request]).after table kind.shape limit
  have hregular : final.Regular kind.shape [request] :=
    Chronicle.regular_after table kind.shape_lawful writer [request] limit
  have hfed : final.Fed kind.shape := Chronicle.fed_after kind.shape hgathers.greedy writer _ limit
  obtain ⟨pending, hrequests⟩ := List.length_eq_one_iff.mp hregular.length_eq
  have hget : final.delivery.requests[0]? = some pending := by
    rw [hrequests, List.getElem?_cons_zero]
  have hdone := hregular.done hfinished rfl hget
  -- The request was settled by the write, so the caller has not settled it again.
  have hok : pending.outcome = some (.ok receipt) := by
    obtain ⟨outcome, hsome, -⟩ := hdone.outcome
    rcases htold with ⟨cause, hclosed⟩ | ⟨-, htold⟩
    · contradiction
    · rw [hrequests, List.head?_cons, Option.bind_some,
        pending.keeps_conclude _ _ hsome] at htold
      rw [hsome, htold]
  have hcalls : ∀ call ∈ final.calls, call.result = .ok () := by
    refine hregular.calls_ok hfed hfinished fun other hmem => ⟨receipt, ?_⟩
    rw [hrequests, List.mem_singleton] at hmem
    rw [hmem, hok]
  have hshown : final.Shown shows held := Chronicle.shown_after hgathers hshows _ limit hcalls
  refine ⟨(final.share 0).block, final.delivery.table, (hdone.acknowledged hok).whole, ?_, hlast⟩
  rw [Chronicle.Shown, (hregular.tidy.eq_nil_of_isFinished hfinished).2,
    hregular.order.stored_eq, hrequests] at hshown
  simpa [Share.block] using hshown

end TableWriter

/-! ## Writing to a journal -/

namespace JournalTable

variable {E : Type} [TableEntry E] {base : Volume} {id : Nat} {table : JournalTable}

/-- No file but this one is written to. -/
structure Confined (base : Volume) (id : Nat) (table : JournalTable) : Prop where
  file_eq : ∀ file, table.journal.file = some file → file = id
  refills : base.Refills table.volume id

theorem Confined.finish (hconfined : table.Confined base id) :
    ((behaviour E).finish table).2.Confined base id := by
  have hsame : ∀ count lines, (table.journal.append table.volume count lines).2.1.file =
      table.journal.file := by
    intro count lines
    rw [Journal.append]
    split
    next => rfl
    next =>
      dsimp only
      split
      next => rfl
      next =>
        split
        next => rfl
        next =>
          split
          next => split <;> rfl
          next => rfl
  constructor
  · intro file hfile
    exact hconfined.file_eq file ((hsame _ _).symm.trans hfile)
  · cases hfile : table.journal.file with
    | none =>
        simp only [behaviour, Journal.append, hfile]
        exact hconfined.refills
    | some file =>
        obtain rfl := hconfined.file_eq file hfile
        exact hconfined.refills.trans (Journal.append_refills hfile _ _)

theorem Confined.close (hconfined : table.Confined base id) :
    ((behaviour E).close table).2.Confined base id := by
  obtain ⟨result, count, hclose⟩ := table.journal.close_cases table.volume
  simp only [behaviour, hclose]
  refine ⟨fun file hfile => ?_, hconfined.refills.trans (.operations table.volume count id)⟩
  contradiction

end JournalTable

namespace Journal

variable {E : Type} [TableEntry E] {config : Config} {volume ready : Volume} {path : String}
  {journal : Journal}

theorem openRepaired_eq_ok (hsound : volume.Sound)
    (hopen : openRepaired E config volume path = (.ok journal, ready)) :
    ∃ removed repaired id, repair E volume path = (.ok removed, repaired) ∧
      journal = { path, file := some id, synced := config.storage.synced } ∧
      ready.Hosts path id ∧ repaired.tree.Within ready.tree ∧
      ∀ other, ready.content other = repaired.content other := by
  have hrepairs := repair_tends (E := E) hsound path
  rw [openRepaired] at hopen
  split at hopen
  next => simp at hopen
  next removed repaired hrepair =>
    rw [hrepair] at hrepairs
    split at hopen
    next => simp at hopen
    next opened last hlast =>
      obtain ⟨id, rfl, hhosts, hwithin, -, hcontents⟩ := open_eq_ok (hrepairs.sound hsound) hlast
      cases hroom : Room.forBatch config.writer with
      | error failure => simp [hroom, Except.map] at hopen
      | ok room =>
          simp only [hroom, Except.map, Prod.mk.injEq, Except.ok.injEq] at hopen
          obtain ⟨rfl, rfl⟩ := hopen
          exact ⟨removed, repaired, id, hrepair, rfl, hhosts, hwithin, hcontents⟩

variable (E) in
/-- A repair has looked at the file that is opened after it, unless that is new or has
nothing to be cut off. -/
def Mends (config : Config) (volume : Volume) (path : String) : Prop :=
  ∀ journal ready id, openRepaired E config volume path = (.ok journal, ready) →
    journal.file = some id → id < volume.contents.size →
    (∃ size looked, volume.fileSize path = (.ok size, looked)) ∨
      ∃ entries : List E, Scan.Whole (volume.content id).bytes entries

theorem repair_of_not_looked {error : IoError} {repaired : Volume} {removed count : Nat}
    (hlook : volume.fileSize path = (.error error, { volume with operations := count }))
    (hrepair : repair E volume path = (.ok removed, repaired)) (id : Nat) :
    repaired.content id = volume.content id := by
  rw [repair, hlook] at hrepair
  dsimp only at hrepair
  split at hrepair
  next =>
    cases hrepair
    rfl
  next => simp at hrepair

theorem Mends.exists_kept (hmends : Mends E config volume path) (hsound : volume.Sound)
    (hopen : openRepaired E config volume path = (.ok journal, ready)) :
    ∃ id, ∃ kept : List E,
      journal = { path, file := some id, synced := config.storage.synced } ∧
      ready.Hosts path id ∧ Scan.Whole (ready.content id).bytes kept ∧ Kept volume id kept := by
  obtain ⟨removed, repaired, id, hrepair, rfl, hhosts, hwithin, hcontents⟩ :=
    openRepaired_eq_ok hsound hopen
  obtain ⟨looked, count, hlook⟩ := volume.fileSize_counts path
  cases looked with
  | ok size =>
      -- What the repair has looked at is the file that was opened.
      obtain ⟨hquiet, place, hfind⟩ := Volume.fileSize_eq_ok hlook
      have hrepairs := repair_tends (E := E) hsound path
      rw [hrepair] at hrepairs
      obtain ⟨location, hfound⟩ := hhosts.find
      have hsame := ((hrepairs.within.trans hwithin).find path).eq_of_ok hfind
      obtain rfl : place = (location, .file id) := Except.ok.inj (hsame.symm.trans hfound)
      obtain ⟨result, later, hlater, -, hcases⟩ := repair_cases (E := E) hsound hfind
        fun fault hfault => absurd (hquiet.symm.trans hfault) nofun
      obtain ⟨rfl, rfl⟩ := Prod.mk.inj (hrepair.symm.trans hlater)
      rcases hcases with ⟨error, herror⟩ | ⟨kept, hwhole, hkept⟩
      · contradiction
      · refine ⟨id, kept, rfl, hhosts, ?_, hkept⟩
        rwa [hcontents]
  | error error =>
      have hsame := repair_of_not_looked hlook hrepair id
      obtain ⟨entries, hwhole⟩ : ∃ entries : List E,
          Scan.Whole (volume.content id).bytes entries := by
        by_cases hthere : id < volume.contents.size
        · rcases hmends _ ready id hopen rfl hthere with ⟨size, looked, hfound⟩ | hwhole
          · rw [hlook] at hfound
            simp at hfound
          · exact hwhole
        · have hempty : volume.content id = {} := by
            rw [Volume.content, Array.getElem?_eq_none (Nat.le_of_not_lt hthere)]
            rfl
          rw [hempty]
          exact ⟨[], .nil⟩
      refine ⟨id, entries, rfl, hhosts, ?_, ?_, fun _ _ => hwhole.validEntries_eq.symm⟩
      · rwa [hcontents, hsame]
      · rw [hwhole.validEntries_eq]

end Journal

namespace Publish

variable {E : Type} [TableEntry E] {shape : Shape E} {limit : Nat} {config : Config}
  {path : String} {request : Request} {clock later : Clock} {volume after : Volume}
  {outcome : Except Failure Receipt}

/-- A request is not written because the journal cannot be opened, or it is written. -/
theorem toJournal_eq_some (hrun : toJournal shape limit config path request clock volume =
      some (outcome, later, after)) :
    (∃ failure, outcome = .error failure ∧
      Journal.openRepaired E config volume path = (.error failure, after)) ∨
    ∃ journal ready told last, outcome = told.mapError .writing ∧
      Journal.openRepaired E config volume path = (.ok journal, ready) ∧
      TableWriter.writeOnce (JournalTable.behaviour E) shape limit
        { table := { journal, volume := ready }, clock } request = some (told, last) ∧
      after = last.table.volume := by
  rw [toJournal] at hrun
  split at hrun
  next failure last hopen =>
    cases hrun
    exact .inl ⟨failure, rfl, hopen⟩
  next journal ready hopen =>
    dsimp only at hrun
    split at hrun
    next => contradiction
    next told last honce =>
      cases hrun
      exact .inr ⟨journal, ready, told, last, rfl, hopen, honce, rfl⟩

/-- Whichever step fails, only the journal at the path has changed. -/
theorem toJournal_tends (hsound : volume.Sound)
    (hrun : toJournal shape limit config path request clock volume =
      some (outcome, later, after)) :
    volume.Tends after path := by
  have hopens := Journal.openRepaired_tends (E := E) hsound config path
  rcases toJournal_eq_some hrun with
    ⟨failure, -, hopen⟩ | ⟨journal, ready, told, last, -, hopen, honce, rfl⟩
  · rw [hopen] at hopens
    exact hopens
  · rw [hopen] at hopens
    obtain ⟨-, -, id, -, rfl, hhosts, -⟩ := Journal.openRepaired_eq_ok hsound hopen
    obtain ⟨location, hfind⟩ := hhosts.find
    have hconfined : last.table.Confined ready id :=
      TableWriter.writeOnce_table (fun _ hconfined => ⟨hconfined.file_eq, hconfined.refills⟩)
        JournalTable.Confined.finish JournalTable.Confined.close
        ⟨fun file hfile => (Option.some.inj hfile).symm, .operations ready ready.operations id⟩
        honce
    exact hopens.trans (hconfined.refills.tends hfind)

theorem toJournal_acknowledged (kind : TableKind) (hsound : volume.Sound)
    (hmends : Journal.Mends kind.Entry config volume path) {receipt : Receipt}
    (hrun : toJournal kind.shape limit config path request clock volume =
      some (.ok receipt, later, after)) :
    ∃ location id, ∃ kept block : List kind.Entry,
      after.tree.find path = .ok (location, .file id) ∧
      Scan.Whole (after.content id).bytes (kept ++ block) ∧ Journal.Kept volume id kept ∧
      List.Forall₂ (kind.Carries request) (kind.whole request) block := by
  rcases toJournal_eq_some hrun with
    ⟨failure, hfailed, -⟩ | ⟨journal, ready, told, last, htold, hopen, honce, rfl⟩
  · contradiction
  · obtain ⟨id, kept, rfl, hhosts, hwhole, hkept⟩ := hmends.exists_kept hsound hopen
    obtain ⟨location, hfind⟩ := hhosts.find
    cases told with
    | error error => contradiction
    | ok receipt =>
        obtain ⟨block, state, hcarries, hshows, hlast⟩ := TableWriter.writeOnce_acknowledged
          (JournalTable.gathers hhosts) kept
          ⟨rfl, hwhole, rfl, .operations ready ready.operations id⟩ honce
        obtain ⟨closed, count, hclose⟩ := state.journal.close_cases state.volume
        simp only [hlast, JournalTable.behaviour, hclose]
        exact ⟨location, id, kept, block, hshows.refills.tree ▸ hfind, hshows.whole, hkept,
          hcarries⟩

end Publish

end MessageStore
