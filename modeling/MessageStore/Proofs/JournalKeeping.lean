import MessageStore.Proofs.BatchTransparency
import MessageStore.Proofs.JournalRepair

/-!
# What a writer leaves in a journal

A journal whose file is made of whole lines keeps what it is given: without
faults each call puts the lines of its entries behind the others, and no other
file is touched.  So a writer that repairs and opens a journal, writes its
batches and closes it leaves the valid prefix that was there before, and then
one block of entries for each request.
-/

namespace MessageStore

namespace Journal

variable {volume : Volume} {path : String} {id : Nat}

theorem append_refills {journal : Journal} (hfile : journal.file = some id) (count : Nat)
    (lines : Bytes) : volume.Refills (journal.append volume count lines).2.2 id := by
  have happended : volume.Refills (volume.append id lines).2 id := by
    simp only [Volume.append, Volume.operate]
    split
    next => exact (Volume.Refills.operations volume _ id).trans (.setContent _ id _)
    next => exact (Volume.Refills.operations volume _ id).trans (.setContent _ id _)
  have hsynced (later : Volume) : later.Refills (later.sync id).2 id := by
    simp only [Volume.sync, Volume.operate]
    split
    next => exact .operations later _ id
    next => exact .operations later _ id
  rw [append, hfile]
  dsimp only
  split
  next => exact .operations volume _ id
  next =>
    split
    next error after hwrite =>
      rw [hwrite] at happended
      exact happended
    next after hwrite =>
      rw [hwrite] at happended
      split
      next =>
        have hwaited := hsynced after
        split
        next error last hsync =>
          rw [hsync] at hwaited
          exact happended.trans hwaited
        next last hsync =>
          rw [hsync] at hwaited
          exact happended.trans hwaited
      next => exact happended

theorem close_faultless (hfaultless : volume.Faultless) (journal : Journal) :
    ∃ count, journal.close volume =
      (.ok (), { journal with file := none }, { volume with operations := count }) := by
  obtain ⟨place, file, synced, records, octets⟩ := journal
  cases file with
  | none => exact ⟨volume.operations, rfl⟩
  | some id =>
      refine ⟨volume.operations + 1, ?_⟩
      simp only [close, Volume.sync, Volume.operate, hfaultless _]

end Journal

namespace JournalTable

variable {E : Type} [TableEntry E] {base : Volume} {path : String} {id : Nat}

/-- The file holds the lines of some entries and the call under way has made
those of others.  No other file of the volume has changed. -/
structure Shows (base : Volume) (id : Nat) (held taken : List E) (table : JournalTable) :
    Prop where
  file_eq : table.journal.file = some id
  whole : Scan.Whole (table.volume.content id).bytes held
  lines_eq : table.lines = (taken.map Record.line).reverse
  refills : base.Refills table.volume id

/-- At the end of a call its lines are in the file, or a fault has come in between. -/
theorem append_cases {table : JournalTable} {taken : List E} (hhosts : base.Hosts path id)
    (hfile : table.journal.file = some id)
    (hlines : table.lines = (taken.map Record.line).reverse)
    (hrefills : base.Refills table.volume id) :
    ∃ result handle after, table.journal.append table.volume table.lines.length
        table.lines.reverse.flatten = (result, handle, after) ∧ handle.file = some id ∧
      base.Refills after id ∧
      (result = .ok () ∧ (after.content id).bytes =
          (table.volume.content id).bytes ++ taken.flatMap Record.line ∨
        result ≠ .ok () ∧ ¬ base.Faultless) := by
  have hjoined : table.lines.reverse.flatten = taken.flatMap Record.line := by
    rw [hlines, List.reverse_reverse, List.flatMap_def]
  have hcount : table.lines.reverse.flatten = [] → table.lines.length = 0 := by
    intro hnone
    rw [hjoined, List.flatMap_eq_nil_iff] at hnone
    cases taken with
    | nil => simp [hlines]
    | cons entry taken =>
        have hpos := Record.line_length_pos entry
        rw [hnone entry List.mem_cons_self] at hpos
        contradiction
  obtain ⟨result, handle, after, written, happend, hgains, hcases⟩ :=
    Journal.append_cases (hrefills.hosts hhosts) hfile hcount
  have hwrites : table.volume.Refills
      (table.journal.append table.volume table.lines.length table.lines.reverse.flatten).2.2 id :=
    Journal.append_refills hfile _ _
  rw [happend] at hwrites
  refine ⟨result, handle, after, happend, ?_, hrefills.trans hwrites, ?_⟩
  · rcases hcases with ⟨-, -, rfl⟩ | ⟨-, -, rfl, -⟩
    · exact hfile
    · exact hfile
  · rcases hcases with ⟨rfl, rfl, -⟩ | ⟨⟨error, rfl⟩, -, -, hfaulty⟩
    · exact .inl ⟨rfl, hjoined ▸ hgains.bytes⟩
    · exact .inr ⟨nofun, fun hfaultless => hfaulty (hrefills.faultless hfaultless)⟩

theorem gathers [TableEntry.Lawful E] (hhosts : base.Hosts path id) :
    (behaviour E).Gathers (Shows base id) where
  greedy _ := rfl
  take entry hshows := by
    refine ⟨hshows.file_eq, hshows.whole, ?_, hshows.refills⟩
    rw [List.map_append, List.map_singleton, List.reverse_append, List.reverse_singleton,
      ← hshows.lines_eq]
    rfl
  finish {held taken state} hshows hok := by
    obtain ⟨result, handle, after, happend, hfile, hrefills, hcases⟩ :=
      append_cases hhosts hshows.file_eq hshows.lines_eq hshows.refills
    simp only [behaviour, happend] at hok ⊢
    rcases hcases with ⟨-, hbytes⟩ | ⟨herror, -⟩
    · refine ⟨hfile, ?_, rfl, hrefills⟩
      rw [hbytes]
      exact hshows.whole.append (Scan.whole_lines _)
    · contradiction

theorem succeeds (hfaultless : base.Faultless) (hhosts : base.Hosts path id)
    {table : JournalTable} {taken : List E} (hfile : table.journal.file = some id)
    (hlines : table.lines = (taken.map Record.line).reverse)
    (hrefills : base.Refills table.volume id) : ((behaviour E).finish table).1 = .ok () := by
  obtain ⟨result, handle, after, happend, -, -, ⟨rfl, -⟩ | ⟨-, hfaulty⟩⟩ :=
    append_cases hhosts hfile hlines hrefills
  · simp only [behaviour, happend]
  · contradiction

theorem keeps [TableEntry.Lawful E] (hfaultless : base.Faultless) (hhosts : base.Hosts path id) :
    (behaviour E).Keeps (Shows base id) :=
  (gathers hhosts).keeps fun hshows =>
    succeeds hfaultless hhosts hshows.file_eq hshows.lines_eq hshows.refills

end JournalTable

/-! ## A journal that is in use -/

/-- Nothing fails on the volume, the journal at the path can be opened, and its
valid prefix holds the given entries. -/
structure Journal.Serves {E : Type} [TableEntry E] (volume : Volume) (path : String)
    (entries : List E) : Prop where
  faultless : volume.Faultless
  sound : volume.Sound
  opens : ∃ id opened, Journal.Opens volume path id opened
  valid : Scan.ValidPrefix ((volume.contentAt? path).getD []) entries

namespace Journal.Serves

variable {E : Type} [TableEntry E] {volume : Volume} {path : String} {entries : List E}

theorem readValid (hserves : Serves volume path entries) :
    (Journal.readValid volume path).1 = .ok entries := by
  obtain ⟨hfaultless, -, ⟨id, opened, hopens⟩, hvalid⟩ := hserves
  rcases hopens.found with ⟨location, hfind⟩ | ⟨hmissing, -⟩
  · rw [Journal.readValid, scan_found hfaultless hfind]
    rw [Volume.contentAt?, hfind] at hvalid
    exact hvalid.readValid
  · rw [Journal.readValid, scan_missing hfaultless hmissing]
    rw [Volume.contentAt?, hmissing] at hvalid
    rw [hvalid.unique Scan.Whole.nil.validPrefix]
    rfl

/-- A journal whose file holds whole lines serves. -/
theorem of_hosts {id : Nat} (hfaultless : volume.Faultless) (hsound : volume.Sound)
    (hhosts : volume.Hosts path id) (hwhole : Scan.Whole (volume.content id).bytes entries) :
    Serves volume path entries := by
  refine ⟨hfaultless, hsound, ⟨id, _, opens_of_hosts hfaultless hhosts⟩, ?_⟩
  rw [hhosts.contentAt?]
  exact hwhole.validPrefix

theorem of_shows {base : Volume} {id : Nat} {table : JournalTable} (hfaultless : base.Faultless)
    (hsound : base.Sound) (hhosts : base.Hosts path id)
    (hshows : JournalTable.Shows base id entries [] table) :
    ∃ closed, (JournalTable.behaviour E).close table = (.ok (), closed) ∧
      base.Refills closed.volume id ∧ Serves closed.volume path entries := by
  obtain ⟨count, hclose⟩ :=
    close_faultless (hshows.refills.faultless hfaultless) table.journal
  have hrefills := hshows.refills.trans (.operations table.volume count id)
  refine ⟨{ table with
      journal := { table.journal with file := none }
      volume := { table.volume with operations := count } },
    by simp only [JournalTable.behaviour, hclose], hrefills,
    of_hosts (hrefills.faultless hfaultless) (hrefills.sound hsound) (hrefills.hosts hhosts) ?_⟩
  exact hshows.whole

theorem openRepaired (hserves : Serves volume path entries) {config : Config}
    (hroom : Room.forBatch config.writer = .ok ()) :
    ∃ id opened journal ready, Opens volume path id opened ∧
      Journal.openRepaired E config volume path = (.ok journal, ready) ∧
      opened.Refills ready id ∧ ready.Faultless ∧ ready.Sound ∧ ready.Hosts path id ∧
      JournalTable.Shows ready id entries [] { journal, volume := ready } := by
  obtain ⟨hfaultless, hsound, ⟨id, opened, hopens⟩, hvalid⟩ := hserves
  obtain ⟨ready, hready, hrefills, hwhole⟩ :=
    openRepaired_eq hfaultless hsound hroom hopens hvalid
  refine ⟨id, opened, _, ready, hopens, hready, hrefills,
    hrefills.faultless (hopens.faultless hfaultless hsound),
    hrefills.sound (hopens.sound hfaultless hsound),
    hrefills.hosts (hopens.hosts hsound).1, rfl, hwhole, rfl, ?_⟩
  exact .operations ready ready.operations id

end Journal.Serves

end MessageStore
