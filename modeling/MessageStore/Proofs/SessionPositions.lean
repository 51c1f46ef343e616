import MessageStore.Proofs.DeliveryEnd
import MessageStore.Proofs.JournalKeeping
import Mathlib

/-!
# Positions from session to session

A writer stamps its first entry with the first reading of its clock and the
sequence id zero, whatever the journal that it was opened on already holds.
So the positions in a journal strictly increase over all sessions just when
every session that stores something starts with a reading after all timestamps
stored before.
-/

namespace MessageStore

/-! ## The first entry of a writer -/

namespace Chronicle

variable {σ E : Type} [TableEntry E] {table : Table σ E} {shape : Shape E}
  {before later : Chronicle σ E} {clock : Clock} {earlier : List (HandedEntry E)}

/-- A new writer with the given clock has not read it yet, or it has read it
once and is about to make the first entry, or that entry stands at the
reading. -/
inductive Begun (clock : Clock) (chronicle : Chronicle σ E) : Prop
  | unread (hnone : chronicle.handed = []) (hsequencer : chronicle.delivery.sequencer = {})
      (hclock : chronicle.delivery.clock = clock)
  | read (hnone : chronicle.handed = [])
      (hsequencer : chronicle.delivery.sequencer = { last := some clock.read.1, next := 0 })
      (hphase : ∃ budget, chronicle.delivery.phase = .offering budget ∨
        chronicle.delivery.phase = .drawing budget)
  | handed (first : HandedEntry E) (rest : List (HandedEntry E))
      (hhanded : chronicle.handed = first :: rest)
      (hposition : first.position = ⟨clock.read.1, 0⟩)

theorem Begun.of_unread (hnone : before.handed = [])
    (hsequencer : before.delivery.sequencer = {}) (hclock : before.delivery.clock = clock)
    (hhanded : later.handed = before.handed)
    (hsame : later.delivery.sequencer = before.delivery.sequencer)
    (hread : later.delivery.clock = before.delivery.clock) : later.Begun clock :=
  .unread (hhanded.trans hnone) (hsame.trans hsequencer) (hread.trans hclock)

theorem Begun.of_handed {first : HandedEntry E} {rest : List (HandedEntry E)}
    (hmove : Move table shape before later) (hhanded : before.handed = first :: rest)
    (hposition : first.position = ⟨clock.read.1, 0⟩) : later.Begun clock := by
  rcases hmove.handed_cases with hsame | ⟨_, _, entry, _, _, hmore⟩
  · exact .handed first rest (hsame.trans hhanded) hposition
  · refine .handed first (rest ++ [entry]) ?_ hposition
    rw [hmore, hhanded, List.cons_append]

omit [TableEntry E] in
theorem written_eq_zero (htidy : before.Tidy) (hnone : before.handed = [])
    (hphase : ∃ budget, before.delivery.phase = .offering budget ∨
      before.delivery.phase = .drawing budget) : before.delivery.written = 0 := by
  rw [Chronicle.handed, List.append_eq_nil_iff] at hnone
  obtain ⟨budget, hphase | hphase⟩ := hphase <;>
  · rw [Tidy, hphase] at htidy
    rw [htidy.1, hnone.2]
    rfl

theorem Begun.of_read (hgreedy : table.IsGreedy) (hlawful : shape.Lawful)
    (hmove : Move table shape before later) (htidy : before.Tidy) (hfed : before.Fed shape)
    (hnone : before.handed = [])
    (hsequencer : before.delivery.sequencer = { last := some clock.read.1, next := 0 })
    (hphase : ∃ budget, before.delivery.phase = .offering budget ∨
      before.delivery.phase = .drawing budget) : later.Begun clock := by
  have hwritten := written_eq_zero htidy hnone hphase
  have hloaded := hfed.loaded
  obtain ⟨budget, hstage⟩ := hphase
  cases hmove with
  | ask hoffering => exact .read hnone hsequencer ⟨_, Or.inr rfl⟩
  | finish hending =>
      rcases hending with ⟨budget, hoffering, hwants | hbudget⟩ | ⟨budget, hdrawing, hahead⟩
      · rw [hgreedy] at hwants
        contradiction
      · rw [hoffering] at hloaded
        exact absurd hbudget (hloaded hwritten).1
      · rw [hdrawing] at hloaded
        obtain ⟨pending, rest, hcons, -⟩ := hloaded hwritten
        rw [hahead] at hcons
        contradiction
  | @draw budget pending next rest hdrawing hahead hsight =>
      refine .handed (before.delivery.nextEntry shape next) [] ?_ ?_
      · rw [handed_take, hnone, List.nil_append]
      · have hstamp : (before.delivery.nextEntry shape next).position =
            before.delivery.sequencer.stamp.1 := hlawful.position_entry _ _ _
        rw [hstamp, hsequencer]
        rfl
  | pass hpassing hahead hsight =>
      rcases hpassing with hseeking | ⟨budget, hdrawing⟩
      · rw [hseeking] at hstage
        simp at hstage
      · rw [hdrawing] at hloaded
        obtain ⟨pending, rest, hcons, hready⟩ := hloaded hwritten
        rw [hahead, List.cons.injEq] at hcons
        rw [hcons.1, hready] at hsight
        contradiction
  | seekEnd hother | seekReady hother | refresh hother | wait hother | settle hother
  | afterWrite hother | abandon hother | abandonEnd hother | stay hother =>
      rw [hother] at hstage
      simp at hstage

theorem Begun.move (hgreedy : table.IsGreedy) (hlawful : shape.Lawful)
    (hmove : Move table shape before later) (htidy : before.Tidy) (hfed : before.Fed shape)
    (hstamped : before.Stamped earlier) (hbegun : before.Begun clock) : later.Begun clock := by
  cases hbegun with
  | handed first rest hhanded hposition => exact .of_handed hmove hhanded hposition
  | read hnone hsequencer hphase =>
      exact .of_read hgreedy hlawful hmove htidy hfed hnone hsequencer hphase
  | unread hnone hsequencer hclock =>
      -- No call is under way before the clock has been read.
      have hidle : ∀ budget, ¬(before.delivery.phase = .offering budget ∨
          before.delivery.phase = .drawing budget) := by
        intro budget hphase
        have hlast := (hstamped.room budget hphase).1
        rw [hsequencer] at hlast
        contradiction
      cases hmove with
      | ask hphase => exact absurd (Or.inl hphase) (hidle _)
      | finish hphase =>
          rcases hphase with ⟨budget, hphase, _⟩ | ⟨budget, hphase, _⟩
          · exact absurd (Or.inl hphase) (hidle budget)
          · exact absurd (Or.inr hphase) (hidle budget)
      | draw hphase => exact absurd (Or.inr hphase) (hidle _)
      | refresh hphase hadopt =>
          rw [hsequencer] at hadopt
          have hfirst : ({ last := some before.delivery.clock.read.1, next := 0 } : Sequencer) =
              _ := Option.some.inj hadopt
          refine .read hnone ?_ ⟨_, Or.inl rfl⟩
          rw [← hclock]
          exact hfirst.symm
      | wait hphase hadopt =>
          rw [hsequencer] at hadopt
          contradiction
      | pass => exact .of_unread hnone hsequencer hclock rfl (by simp) (by simp)
      | afterWrite => exact .of_unread hnone hsequencer hclock rfl (by simp) (by simp)
      | seekEnd | seekReady | settle | abandon | abandonEnd | stay =>
          exact .of_unread hnone hsequencer hclock rfl rfl rfl

theorem begun_after (hgreedy : table.IsGreedy) (hlawful : shape.Lawful)
    {writer : TableWriter σ} (hnew : writer.sequencer = {}) (batch : List Pending) (n : Nat) :
    ((writer.chronicle batch).after table shape n).Begun writer.clock := by
  have hinitial : writer.sequencer.HandedOut ([] : List (HandedEntry E)) := by
    rw [hnew]
    exact Sequencer.HandedOut.initial
  induction n with
  | zero => exact .unread rfl hnew rfl
  | succ n ih =>
      rw [after_succ]
      exact ih.move hgreedy hlawful (step_move table shape _)
        (tidy_after table shape writer batch n) (fed_after shape hgreedy writer batch n)
        (stamped_after table hlawful hinitial batch n)

end Chronicle

namespace TableWriter

variable {kind : TableKind} {σ : Type} {table : Table σ kind.Entry} {limit : Nat}
  {shows : List kind.Entry → List kind.Entry → σ → Prop} {writer later : TableWriter σ}
  {pendings : List Pending}

/-- The first entry that a new writer hands over stands at the first reading of
its clock, whichever batch it is from. -/
theorem first_position (hgreedy : table.IsGreedy) (hnew : writer.sequencer = {})
    {batches : List (List Pending)}
    (hwrite : writer.writeAll table kind.shape limit batches = some (pendings, later)) :
    ∀ entry ∈ (handedInTurn table kind.shape limit writer batches).head?,
      entry.position = ⟨writer.clock.read.1, 0⟩ := by
  induction batches generalizing writer pendings with
  | nil => exact fun entry hmem => absurd hmem (Option.not_mem_none entry)
  | cons batch batches ih =>
      obtain ⟨hfinished, others, hothers, -, -, hhanded⟩ :=
        writeAll_cons table kind.shape limit hwrite
      rw [hhanded]
      cases Chronicle.begun_after hgreedy kind.shape_lawful hnew batch limit with
      | handed first rest hfirst hposition =>
          intro entry hmem
          rw [hfirst, List.cons_append, List.head?_cons, Option.mem_some_iff] at hmem
          rw [← hmem, hposition]
      | read _ _ hphase =>
          obtain ⟨budget, hphase | hphase⟩ := hphase <;>
          · rw [Delivery.isFinished, hphase] at hfinished
            contradiction
      | unread hnone hsequencer hclock =>
          rw [hnone, List.nil_append]
          have hrest := ih hsequencer hothers
          rw [show (ofDelivery _).clock = writer.clock from hclock] at hrest
          exact hrest

/-- A new writer puts its entries at increasing positions, the first of them at
the first reading of its clock. -/
theorem new_writer_positions (hgreedy : table.IsGreedy) (hnew : writer.sequencer = {})
    {batches : List (List Pending)}
    (hwrite : writer.writeAll table kind.shape limit batches = some (pendings, later)) :
    let entries := (handedInTurn table kind.shape limit writer batches).map HandedEntry.entry
    (entries.map TableEntry.position).Pairwise Position.Before ∧
      ∀ position ∈ (entries.map TableEntry.position).head?,
        position = ⟨writer.clock.read.1, 0⟩ := by
  intro entries
  have hstart : writer.sequencer.HandedOut ([] : List (HandedEntry kind.Entry)) := by
    rw [hnew]
    exact Sequencer.HandedOut.initial
  obtain ⟨sequencer, hhanded⟩ :=
    exists_handedOut_handedInTurn table kind.shape_lawful limit hstart batches
  constructor
  · rw [List.map_map, List.pairwise_map]
    exact hhanded.increasing
  · intro position hmem
    rw [List.map_map, List.head?_map, Option.mem_map] at hmem
    obtain ⟨entry, hentry, rfl⟩ := hmem
    exact first_position hgreedy hnew hwrite entry hentry

end TableWriter

/-! ## Sessions -/

/-- A session of a new writer on a journal: what its clock shows, and the
batches that it writes. -/
structure WriterSession where
  clock : Clock
  batches : List (List Request)

namespace WriterSession

section

variable (kind : TableKind) (limit : Nat) (config : Config) (path : String)

/-- Repairs the journal and opens it for a new writer, writes the batches, if
each takes at most `limit` steps, and closes the journal.  Nothing is written
if the journal does not open. -/
def run (session : WriterSession) (volume : Volume) : Option Volume :=
  match Journal.openRepaired kind.Entry config volume path with
  | (.error _, volume) => some volume
  | (.ok journal, volume) =>
    let writer : TableWriter JournalTable :=
      { table := { journal, volume }, clock := session.clock }
    match writer.writeAll (JournalTable.behaviour kind.Entry) kind.shape limit
        (session.batches.map (·.map Pending.fresh)) with
    | none => none
    | some (_, writer) =>
      some (writer.close (JournalTable.behaviour kind.Entry)).2.table.volume

/-- The volume after some sessions, one after the other. -/
def runAll : List WriterSession → Volume → Option Volume
  | [], volume => some volume
  | session :: sessions, volume =>
    (session.run kind limit config path volume).bind (runAll sessions)

end

variable {kind : TableKind} {limit : Nat} {config : Config} {path : String}
  {session : WriterSession} {sessions : List WriterSession} {volume after : Volume}

/-- The entries that a session leaves: all that its requests ask for, at
increasing positions from the first reading of its clock on. -/
structure Leaves (session : WriterSession) (block : List kind.Entry) : Prop where
  contents : ∀ position, block.map (kind.moved position) =
    kind.flatEntries position session.batches.flatten
  increasing : (block.map TableEntry.position).Pairwise Position.Before
  first : ∀ position ∈ (block.map TableEntry.position).head?,
    position = ⟨session.clock.read.1, 0⟩

theorem run_serves {held : List kind.Entry} (hserves : Journal.Serves volume path held)
    (hroom : Room.forBatch config.writer = .ok ())
    (hrun : session.run kind limit config path volume = some after) :
    ∃ block, session.Leaves block ∧ Journal.Serves after path (held ++ block) := by
  obtain ⟨id, opened, journal, ready, -, hready, -, hfaultless, hsound, hhosts, hshows⟩ :=
    hserves.openRepaired hroom
  rw [run, hready] at hrun
  dsimp only at hrun
  split at hrun
  next => contradiction
  next requests later hwrite =>
    obtain ⟨rows, hrequests, -, hwhole, -, hhanded, hlater⟩ :=
      TableWriter.writeAll_kept (JournalTable.keeps hfaultless hhosts) held hshows hwrite
    obtain ⟨closed, hclose, -, hafter⟩ := Journal.Serves.of_shows hfaultless hsound hhosts hlater
    obtain ⟨hincreasing, hfirst⟩ := TableWriter.new_writer_positions (fun _ => rfl) rfl hwrite
    refine ⟨rows.flatMap Written.block, ⟨?_, ?_, ?_⟩, ?_⟩
    · intro position
      rw [Written.map_moved_blocks hwhole, hrequests]
    · rw [hhanded] at hincreasing
      exact hincreasing
    · rw [hhanded] at hfirst
      exact hfirst
    · rw [TableWriter.close, hclose, Option.some.injEq] at hrun
      rw [← hrun]
      exact hafter

theorem exists_run {held : List kind.Entry} (hserves : Journal.Serves volume path held)
    (hroom : Room.forBatch config.writer = .ok ()) {requests : List Request}
    (hbatches : session.batches = [requests]) {count : Nat}
    (hrises : session.clock.Rises count none)
    (hchances : ((requests.map Pending.fresh).map Pending.chances).sum ≤
      Sequencer.limit * count) :
    ∃ enough after, ∀ limit, enough ≤ limit →
      session.run kind limit config path volume = some after := by
  obtain ⟨id, opened, journal, ready, -, hready, -⟩ := hserves.openRepaired hroom
  let writer : TableWriter JournalTable :=
    { table := { journal, volume := ready }, clock := session.clock }
  have hgreedy : (JournalTable.behaviour kind.Entry).IsGreedy := fun _ => rfl
  have hstart : writer.clock.Rises count writer.sequencer.last := hrises
  obtain ⟨enough, ⟨result, pendings, later⟩, hwrite⟩ :=
    TableWriter.exists_write_of_rises kind.shape hgreedy hstart hchances
  refine ⟨enough, (later.close (JournalTable.behaviour kind.Entry)).2.table.volume, ?_⟩
  intro limit hlimit
  rw [run, hready, hbatches]
  simp only [List.map_cons, List.map_nil, TableWriter.writeAll]
  rw [hwrite limit hlimit]

theorem runAll_serves {initial : List kind.Entry}
    (hserves : Journal.Serves volume path initial)
    (hroom : Room.forBatch config.writer = .ok ())
    (hrun : runAll kind limit config path sessions volume = some after) :
    ∃ rows : List (WriterSession × List kind.Entry), rows.map Prod.fst = sessions ∧
      (∀ row ∈ rows, row.1.Leaves row.2) ∧
      Journal.Serves after path (initial ++ rows.flatMap Prod.snd) := by
  induction sessions generalizing volume initial with
  | nil =>
      cases hrun
      exact ⟨[], rfl, nofun, by simpa using hserves⟩
  | cons session sessions ih =>
      obtain ⟨between, hfirst, hothers⟩ := Option.bind_eq_some_iff.mp hrun
      obtain ⟨block, hleaves, hbetween⟩ := run_serves hserves hroom hfirst
      obtain ⟨rows, hsessions, hrows, hafter⟩ := ih hbetween hothers
      refine ⟨(session, block) :: rows, by rw [List.map_cons, hsessions], ?_, ?_⟩
      · exact List.forall_mem_cons.mpr ⟨hleaves, hrows⟩
      · rw [List.flatMap_cons, ← List.append_assoc]
        exact hafter

/-! ## The order of all positions -/

/-- Every session that leaves something starts with a reading after all
timestamps that the journal holds by then. -/
def StartsLater : List kind.Entry → List (WriterSession × List kind.Entry) → Prop
  | _, [] => True
  | held, (session, block) :: rows =>
    (block ≠ [] → ∀ entry ∈ held,
        (TableEntry.position entry).timestamp < session.clock.read.1) ∧
      StartsLater (held ++ block) rows

/-- A block goes on in order just when the first reading of its session is
after all timestamps before. -/
theorem Leaves.increasing_iff {block held : List kind.Entry} (hleaves : session.Leaves block) :
    ((held ++ block).map TableEntry.position).Pairwise Position.Before ↔
      (held.map TableEntry.position).Pairwise Position.Before ∧
        (block ≠ [] → ∀ entry ∈ held,
          (TableEntry.position entry).timestamp < session.clock.read.1) := by
  have hincreasing := hleaves.increasing
  have hfirst := hleaves.first
  rw [List.map_append, List.pairwise_append]
  constructor
  · rintro ⟨hheld, -, hbetween⟩
    refine ⟨hheld, fun hsome entry hmem => ?_⟩
    obtain ⟨first, rest, rfl⟩ := List.exists_cons_of_ne_nil hsome
    have hbefore := hbetween _ (List.mem_map_of_mem hmem) _
      (List.mem_map_of_mem List.mem_cons_self)
    rw [hfirst _ rfl] at hbefore
    rcases hbefore with hless | ⟨-, hless⟩
    · exact hless
    · exact absurd hless UInt16.not_lt_zero
  · rintro ⟨hheld, hstart⟩
    refine ⟨hheld, hincreasing, ?_⟩
    intro position hposition other hother
    obtain ⟨entry, hmem, rfl⟩ := List.mem_map.mp hposition
    cases block with
    | nil => contradiction
    | cons first rest =>
        have hless := hstart (List.cons_ne_nil first rest) entry hmem
        have hearlier : (TableEntry.position entry).Before (TableEntry.position first) := by
          rw [hfirst _ rfl]
          exact Or.inl hless
        rcases List.mem_cons.mp hother with rfl | hlater
        · exact hearlier
        · exact hearlier.trans (List.rel_of_pairwise_cons hincreasing hlater)

theorem increasing_iff_startsLater {initial : List kind.Entry}
    {rows : List (WriterSession × List kind.Entry)} (hrows : ∀ row ∈ rows, row.1.Leaves row.2) :
    ((initial ++ rows.flatMap Prod.snd).map TableEntry.position).Pairwise Position.Before ↔
      (initial.map TableEntry.position).Pairwise Position.Before ∧ StartsLater initial rows := by
  induction rows generalizing initial with
  | nil => simp [StartsLater]
  | cons row rows ih =>
      obtain ⟨hrow, hothers⟩ := List.forall_mem_cons.mp hrows
      rw [List.flatMap_cons, ← List.append_assoc, ih hothers, hrow.increasing_iff, StartsLater,
        and_assoc]

/-- After any sessions without faults the journal holds what it held before,
and then what the sessions ask for, each at increasing positions from the first
reading of its clock on.  All positions together strictly increase just when
those before did and every session that leaves something starts after them. -/
theorem positions_increase_iff_sessions_start_later {initial : List kind.Entry}
    (hserves : Journal.Serves volume path initial)
    (hroom : Room.forBatch config.writer = .ok ())
    (hrun : runAll kind limit config path sessions volume = some after) :
    ∃ rows : List (WriterSession × List kind.Entry), rows.map Prod.fst = sessions ∧
      (∀ row ∈ rows, row.1.Leaves row.2) ∧
      (Journal.readValid after path).1 = .ok (initial ++ rows.flatMap Prod.snd) ∧
      (((initial ++ rows.flatMap Prod.snd).map TableEntry.position).Pairwise Position.Before ↔
        (initial.map TableEntry.position).Pairwise Position.Before ∧
          StartsLater initial rows) := by
  obtain ⟨rows, hsessions, hrows, hafter⟩ := runAll_serves hserves hroom hrun
  exact ⟨rows, hsessions, hrows, hafter.readValid, increasing_iff_startsLater hrows⟩

/-! ## Two sessions in the same millisecond -/

theorem serves_workingIn (E : Type) [TableEntry E] :
    Journal.Serves (Volume.workingIn "/") "d/j" ([] : List E) := by
  have hquiet := Volume.faultless_workingIn "/"
  have hmissing : (Volume.workingIn "/").contentAt? "d/j" = none := by cbv
  have hmade : (Volume.workingIn "/").tree.makeDirectories (Path.above "d/j") =
      (.ok (), (Volume.workingIn "/").tree.insert ["d"] .directory) := by cbv
  obtain ⟨opened, hfile⟩ : ∃ opened, Volume.fileFor { Volume.workingIn "/" with
      tree := (Volume.workingIn "/").tree.insert ["d"] .directory
      operations := (Volume.workingIn "/").operations + 2 } "d/j" = (.ok 0, opened) :=
    ⟨_, Prod.ext (by cbv) rfl⟩
  have hopens := Journal.open_of_tree hquiet hmade hfile
  refine ⟨hquiet, Volume.sound_workingIn "/", ⟨0, opened, hopens, Or.inr ⟨by cbv, by cbv⟩⟩, ?_⟩
  rw [hmissing]
  exact Scan.Whole.nil.validPrefix

/-- A session that stores one message in a given millisecond. -/
def ofOne (millisecond : UInt64) (payload : Bytes) : WriterSession :=
  ⟨.stopped millisecond, [[.ofPayloads ⟨"a", "b"⟩ none [payload]]]⟩

theorem Leaves.eq_of_one {millisecond : UInt64} {payload : Bytes}
    {block : List TableKind.message.Entry} (hleaves : (ofOne millisecond payload).Leaves block) :
    block = [⟨⟨"a", "b"⟩, false, none, some payload, ⟨millisecond, 0⟩⟩] := by
  have hflat := hleaves.contents ⟨millisecond, 0⟩
  obtain ⟨first, rfl⟩ : ∃ first, block = [first] := by
    have hlength := congrArg List.length hflat
    rw [List.length_map] at hlength
    exact List.length_eq_one_iff.mp hlength
  have hposition := hleaves.first _ rfl
  have hsame : TableKind.message.moved ⟨millisecond, 0⟩ first = first := by
    rw [← show TableEntry.position first = ⟨millisecond, 0⟩ from hposition]
    rfl
  rw [List.map_singleton, hsame] at hflat
  exact hflat

theorem exists_run_ofOne (millisecond : UInt64) (payload : Bytes)
    {held : List TableKind.message.Entry} (hserves : Journal.Serves volume path held) :
    ∃ enough after,
      (∀ limit, enough ≤ limit →
        (ofOne millisecond payload).run .message limit {} path volume = some after) ∧
      Journal.Serves after path
        (held ++ [⟨⟨"a", "b"⟩, false, none, some payload, ⟨millisecond, 0⟩⟩]) := by
  have hroom : Room.forBatch ({} : Config).writer = .ok () := rfl
  have hone : (([Request.ofPayloads ⟨"a", "b"⟩ none [payload]].map
      Pending.fresh).map Pending.chances).sum ≤ Sequencer.limit * 1 := by
    simp [Pending.chances, Pending.fresh, Pending.remaining, Request.ofPayloads,
      Request.payloads, Sequencer.limit]
  have hrises := Clock.rises_one (ofOne millisecond payload).clock
  obtain ⟨enough, after, hrun⟩ := exists_run hserves hroom rfl hrises hone
  obtain ⟨block, hleaves, hafter⟩ := run_serves hserves hroom (hrun enough (Nat.le_refl _))
  rw [hleaves.eq_of_one] at hafter
  exact ⟨enough, after, hrun, hafter⟩

theorem exists_two_sessions (first second : UInt64) :
    ∃ limit after,
      runAll .message limit {} "d/j" [ofOne first [1], ofOne second [2]]
        (Volume.workingIn "/") = some after ∧
      (Journal.readValid after "d/j").1 = .ok
        [(⟨⟨"a", "b"⟩, false, none, some [1], ⟨first, 0⟩⟩ : TableKind.message.Entry),
          ⟨⟨"a", "b"⟩, false, none, some [2], ⟨second, 0⟩⟩] := by
  obtain ⟨enough, between, hfirst, hbetween⟩ :=
    exists_run_ofOne first [1] (serves_workingIn TableKind.message.Entry)
  obtain ⟨more, after, hsecond, hafter⟩ := exists_run_ofOne second [2] hbetween
  refine ⟨max enough more, after, ?_, hafter.readValid⟩
  rw [runAll, hfirst _ (Nat.le_max_left ..), Option.bind_some, runAll,
    hsecond _ (Nat.le_max_right ..), Option.bind_some, runAll]

theorem second_session_starts_later :
    ∃ limit after, ∃ rows : List (WriterSession × List TableKind.message.Entry),
      runAll .message limit {} "d/j" [ofOne 9 [1], ofOne 10 [2]] (Volume.workingIn "/") =
        some after ∧
      rows.map Prod.fst = [ofOne 9 [1], ofOne 10 [2]] ∧
      (Journal.readValid after "d/j").1 = .ok (rows.flatMap Prod.snd) ∧
      ((rows.flatMap Prod.snd).map TableEntry.position).Pairwise Position.Before ∧
      StartsLater [] rows := by
  obtain ⟨limit, after, hrun, hread⟩ := exists_two_sessions 9 10
  obtain ⟨rows, hsessions, -, hrows, hiff⟩ :=
    positions_increase_iff_sessions_start_later
      (serves_workingIn TableKind.message.Entry) rfl hrun
  rw [List.nil_append] at hrows hiff
  have hentries := Except.ok.inj (hrows.symm.trans hread)
  have hincreasing :
      ((rows.flatMap Prod.snd).map TableEntry.position).Pairwise Position.Before := by
    rw [hentries]
    decide
  exact ⟨limit, after, rows, hrun, hsessions, hrows, hincreasing, (hiff.mp hincreasing).2⟩

/-- The clock of the second session shows what that of the first one did, and
both messages stand at one position. -/
theorem stopped_clock_repeats_a_position :
    ∃ limit after first second,
      runAll .message limit {} "d/j" [ofOne 9 [1], ofOne 9 [2]] (Volume.workingIn "/") =
        some after ∧
      (Journal.readValid after "d/j").1 =
        .ok ([first, second] : List TableKind.message.Entry) ∧
      TableEntry.position first = TableEntry.position second := by
  obtain ⟨limit, after, hrun, hread⟩ := exists_two_sessions 9 9
  exact ⟨limit, after, _, _, hrun, hread, rfl⟩

end WriterSession

end MessageStore
