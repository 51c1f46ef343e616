import MessageStore.Proofs.PartialWrites
import MessageStore.Proofs.PublishOnce
import MessageStore.Proofs.WriteFaults

/-!
# A torn line that a repair does not see

A repair looks at the path of a journal before the opening makes directories.  A
path that goes through a missing directory and back up again leads to no file at
first and to an old one later.  So a torn line in that file is not cut off, and
what is published goes behind it, where it cannot be read.
-/

namespace MessageStore

namespace Volume

/-- A payload journal in the working directory, with nothing but a torn line. -/
def withTornPayload : Volume :=
  holding "payloads.jsonl" [0x7B]

theorem sound_withTornPayload : withTornPayload.Sound :=
  sound_holding _ _

theorem distinct_withTornPayload : withTornPayload.Distinct "messages.jsonl" "payloads.jsonl" :=
  fun _ _ hfile _ => absurd (file_holding hfile).1 (by simp)

end Volume

namespace Publish

/-- One payload for the payload table. -/
def onePayload : PublishArguments :=
  ⟨⟨"ns1", "t1"⟩, some 5, true, ["a"]⟩

end Publish

/-! ## Writing behind whatever is there -/

namespace JournalTable

variable {E : Type} [TableEntry E] {base : Volume} {path : String} {id : Nat} {front : Bytes}

/-- The file holds some octets and the lines of some entries behind them, and the call
under way has made the lines of others. -/
structure Lays (base : Volume) (id : Nat) (front : Bytes) (laid taken : List E)
    (table : JournalTable) : Prop where
  file_eq : table.journal.file = some id
  bytes_eq : (table.volume.content id).bytes = front ++ laid.flatMap Record.line
  lines_eq : table.lines = (taken.map Record.line).reverse
  refills : base.Refills table.volume id

/-- Without faults lines are put behind whatever the file holds. -/
theorem lays (hfaultless : base.Faultless) (hhosts : base.Hosts path id) :
    (behaviour E).Keeps (Lays base id front) where
  greedy _ := rfl
  take entry hlays := by
    refine ⟨hlays.file_eq, hlays.bytes_eq, ?_, hlays.refills⟩
    rw [List.map_append, List.map_singleton, List.reverse_append, List.reverse_singleton,
      ← hlays.lines_eq]
    rfl
  finish {laid taken state} hlays := by
    obtain ⟨result, handle, after, happend, hfile, hrefills, ⟨-, hbytes⟩ | ⟨-, hfaulty⟩⟩ :=
      append_cases hhosts hlays.file_eq hlays.lines_eq hlays.refills
    · simp only [behaviour, happend]
      refine ⟨hfile, ?_, rfl, hrefills⟩
      rw [hbytes, hlays.bytes_eq, List.flatMap_append, List.append_assoc]
    · contradiction
  succeeds hlays := succeeds hfaultless hhosts hlays.file_eq hlays.lines_eq hlays.refills

end JournalTable

/-! ## A path through a missing directory -/

/-- The directory of the journals is the working directory, by a path that goes
through another directory. -/
def Config.throughAnother : Config :=
  { storage := { directory := "x/.." } }

namespace Volume

/-- The tree once the other directory has been made. -/
def treeWithAnother : Tree :=
  withTornPayload.tree.insert ["x"] .directory

theorem pieces_back : Path.pieces "x/.." = ["x", ".."] := by
  have hfirst : Path.pieces (.ofList ['x']) = [.ofList ['x']] := Path.pieces_of_unbroken (by decide)
  have hlast : '/' ∉ ['.', '.'] := by decide
  have hpieces := Path.pieces_append ['x'] hlast
  rw [hfirst] at hpieces
  exact hpieces

theorem names_back : Path.names "x/.." = ["x", ".."] := by
  rw [Path.names, pieces_back]
  decide

section

variable {name : String} (hname : Path.IsPlain name)

include hname

theorem pieces_another : Path.pieces (Path.join "x/.." name) = Path.pieces "x/.." ++ [name] := by
  have hends : Path.endsInSeparator "x/.." = false := by cbv
  have hjoin : Path.join "x/.." name = .ofList ("x/..".toList ++ '/' :: name.toList) := by
    apply String.toList_injective
    rw [Path.join, if_neg (by simp [hends]), String.toList_append, String.toList_append,
      String.toList_ofList]
    simp
  rw [hjoin, Path.pieces_append _ hname.unbroken, String.ofList_toList, String.ofList_toList]

theorem names_another : Path.names (Path.join "x/.." name) = ["x", ".."] ++ [name] := by
  rw [Path.names_of_pieces (pieces_another hname), names_back, if_neg hname.ne_empty]

/-- Only the directory on the way is missing. -/
theorem makeDirectories_another : withTornPayload.tree.makeDirectories
    (Path.above (Path.join "x/.." name)) = (.ok (), treeWithAnother) := by
  have hplain : Path.IsPlain "x" := ⟨by decide, by decide, by decide, by decide, by decide⟩
  have habove : Path.above (Path.join "x/.." name) = ["x/..", "x"] := by
    have hstep : Path.isStep (Path.pieces "x/..").length name = true := by
      simp [Path.isStep, hname.ne_empty, hname.ne_here]
    have hstages : Path.stages "x/.." = ["x/..", "x"] := by
      rw [Path.stages, pieces_back]
      decide
    rw [Path.above, Path.stages_of_pieces (pieces_another hname), hstep, hstages]
    rfl
  have hmissing : withTornPayload.tree.makeDirectory "x/.." = .error (.system .notFound) := by
    rw [Tree.makeDirectory, Tree.resolve, names_back]
    rfl
  have hmade : withTornPayload.tree.makeDirectory "x" = .ok treeWithAnother := by
    rw [Tree.makeDirectory, Tree.resolve_name _ hplain (by decide)]
    rfl
  have hthere : treeWithAnother.isDirectory "x/.." = true := by
    have hfind : treeWithAnother.find "x/.." = .ok ([], .directory) := by
      rw [Tree.find, Tree.resolve, names_back]
      cbv
    rw [Tree.isDirectory, hfind]
  have hkind : (IoError.system .notFound).kind = .notFound := rfl
  rw [habove, Tree.makeDirectories, Tree.makeFrom, hmissing]
  dsimp only
  rw [if_pos hkind, Tree.makeFrom, hmade]
  dsimp only
  rw [Tree.makeEach, Tree.makeDirectory_of_isDirectory hthere]
  dsimp only
  rw [if_pos (Tree.isMade_of_isDirectory hthere), Tree.makeEach]

theorem find_missing_another (hcheck : Path.check (Path.join "x/.." name) = .ok ()) :
    withTornPayload.tree.find (Path.join "x/.." name) = .error (.system .notFound) := by
  have hwalk : ["x", ".."].foldlM withTornPayload.tree.enter [] = .error (.system .notFound) := rfl
  have hstart : (if Path.isAbsolute (Path.join "x/.." name) then []
      else withTornPayload.tree.workingDirectory) = [] := ite_self _
  rw [Tree.find, Tree.resolve_of_names _ hname (names_another hname) hcheck, hstart, hwalk]
  rfl

theorem places_another {found : Option Nat}
    (hcheck : Path.check (Path.join "x/.." name) = .ok ())
    (hstands : treeWithAnother.entry? [] name = .ok (found.map Node.file)) :
    treeWithAnother.Places (Path.join "x/.." name) [] name found where
  resolve := by
    have hwalk : ["x", ".."].foldlM treeWithAnother.enter [] = .ok [] := rfl
    have hstart : (if Path.isAbsolute (Path.join "x/.." name) then []
        else treeWithAnother.workingDirectory) = [] := ite_self _
    rw [Tree.resolve_of_names _ hname (names_another hname) hcheck, hstart, hwalk]
    rfl
  separator := Path.endsInSeparator_join hname
  standing := hstands

end

theorem check_payloads_another : Path.check Config.throughAnother.payloadJournal = .ok () := by
  have hjoin : Config.throughAnother.payloadJournal = "x/../payloads.jsonl" := by cbv
  rw [hjoin]
  decide

theorem check_messages_another : Path.check Config.throughAnother.messageJournal = .ok () :=
  (Path.check_join Path.isPlain_messages Path.isPlain_payloads (by decide)).trans
    check_payloads_another

theorem places_payloads_another : treeWithAnother.Places Config.throughAnother.payloadJournal []
    "payloads.jsonl" (some 0) :=
  places_another Path.isPlain_payloads check_payloads_another (by decide)

theorem places_messages_another : treeWithAnother.Places Config.throughAnother.messageJournal []
    "messages.jsonl" none :=
  places_another Path.isPlain_messages check_messages_another (by decide)

/-- The volume once the payload journal has been opened. -/
def withAnother : Volume :=
  { withTornPayload with tree := treeWithAnother, operations := 3 }

theorem faultless_withAnother : withAnother.Faultless :=
  fun _ => rfl

theorem sound_withAnother : withAnother.Sound := by
  have hfree : withTornPayload.tree.node? ["x"] = none := by decide
  exact sound_withTornPayload.extended (.insert hfree) 3

theorem openRepaired_withTornPayload :
    Journal.openRepaired PayloadEntry .throughAnother withTornPayload
        Config.throughAnother.payloadJournal =
      (.ok { path := Config.throughAnother.payloadJournal, file := some 0
             synced := Config.throughAnother.storage.synced }, withAnother) := by
  have hquiet : withTornPayload.Faultless := fun _ => rfl
  have hfile : withAnother.fileFor Config.throughAnother.payloadJournal =
      (.ok 0, withAnother) := by
    rw [fileFor, withAnother, places_payloads_another.place]
  have hlooked : Faultless
      { withTornPayload with operations := withTornPayload.operations + 1 } := hquiet
  have hmade : withTornPayload.tree.makeDirectories
      (Path.above Config.throughAnother.payloadJournal) = (.ok (), treeWithAnother) :=
    makeDirectories_another Path.isPlain_payloads
  have hopen := Journal.open_of_tree hlooked hmade hfile Config.throughAnother.storage.synced
  have hmissing : withTornPayload.tree.find Config.throughAnother.payloadJournal =
      .error (.system .notFound) :=
    find_missing_another Path.isPlain_payloads check_payloads_another
  rw [Journal.openRepaired, Journal.repair_missing hquiet hmissing]
  simp only [hopen]
  rfl

end Volume

namespace Publish

open Volume (withTornPayload withAnother)

theorem payload_behind_torn_line : ∃ enough receipt later between, ∃ block : List PayloadEntry,
    (∀ limit, enough ≤ limit →
      toJournal Shape.payload limit .throughAnother Config.throughAnother.payloadJournal
          onePayload.payloadRequest (.stopped 9) withTornPayload =
        some (.ok receipt, later, between)) ∧
    withAnother.Refills between 0 ∧
    (between.content 0).bytes = [0x7B] ++ block.flatMap Record.line := by
  let journal : Journal :=
    { path := Config.throughAnother.payloadJournal, file := some 0
      synced := Config.throughAnother.storage.synced }
  have hquiet := Volume.faultless_withAnother
  have hhosts : withAnother.Hosts Config.throughAnother.payloadJournal 0 :=
    ⟨⟨_, _, Volume.places_payloads_another⟩, Volume.places_payloads_another.directories,
      Nat.zero_lt_one⟩
  have hcloses {laid : List PayloadEntry} {table : JournalTable}
      (hlays : JournalTable.Lays withAnother 0 [0x7B] laid [] table) :
      ((JournalTable.behaviour PayloadEntry).close table).1 = .ok () := by
    obtain ⟨count, hclose⟩ :=
      Journal.close_faultless (hlays.refills.faultless hquiet) table.journal
    simp only [JournalTable.behaviour, hclose]
  have hlays : JournalTable.Lays withAnother 0 [0x7B] ([] : List PayloadEntry) []
      { journal, volume := withAnother } := ⟨rfl, rfl, rfl, .operations withAnother 3 0⟩
  obtain ⟨enough, block, state, last, honce, -, hlater, hlast⟩ :=
    TableWriter.exists_writeOnce .payload (JournalTable.lays hquiet hhosts) hcloses
      { table := { journal, volume := withAnother }, clock := .stopped 9 } rfl hlays
      onePayload.payloadRequest ⟨1, Clock.rises_one _, by decide⟩
  obtain ⟨count, hclose⟩ := Journal.close_faultless (hlater.refills.faultless hquiet) state.journal
  obtain ⟨receipt, hverdict⟩ :=
    Shape.exists_receipt (PublishArguments.payloadRequest_draft onePayload) block
  refine ⟨enough, receipt, last.clock, last.table.volume, block, fun limit hlimit => ?_, ?_⟩
  · have hwritten : TableWriter.writeOnce (JournalTable.behaviour PayloadEntry) Shape.payload limit
        { table := { journal, volume := withAnother }, clock := .stopped 9 }
        onePayload.payloadRequest = some (.ok receipt, last) :=
      (honce limit hlimit).trans (congrArg (fun told => some (told, last)) hverdict)
    rw [toJournal, Volume.openRepaired_withTornPayload]
    dsimp only
    rw [hwritten]
    rfl
  · simp only [hlast, JournalTable.behaviour, hclose]
    exact ⟨hlater.refills.trans (.operations state.volume count 0), hlater.bytes_eq⟩

theorem reference_behind_torn_line (hrefills : withAnother.Refills between 0) (clock : Clock) :
    ∃ enough told reference later after,
      (∀ limit, enough ≤ limit →
        toJournal Shape.message limit .throughAnother Config.throughAnother.messageJournal
            onePayload.messageRequest clock between = some (.ok told, later, after)) ∧
      Journal.Serves after Config.throughAnother.messageJournal [reference] ∧
      reference = Shape.message.entry onePayload.messageRequest none reference.position := by
  have hquiet := hrefills.faultless Volume.faultless_withAnother
  have hmissing : between.tree.Places Config.throughAnother.messageJournal [] "messages.jsonl"
      none := hrefills.tree ▸ Volume.places_messages_another
  have hserves : Journal.Serves between Config.throughAnother.messageJournal
      ([] : List MessageEntry) := by
    refine ⟨hquiet, hrefills.sound Volume.sound_withAnother,
      ⟨_, Journal.exists_opens hquiet hmissing hmissing.directories⟩, ?_⟩
    rw [Volume.contentAt?, hmissing.find_none]
    exact Scan.Whole.nil.validPrefix
  have hroom : Room.forBatch Config.throughAnother.writer = .ok () := rfl
  obtain ⟨enough, references, later, after, id, opened, hmessages, hrenders, hafter, -⟩ :=
    toJournal_serves .message hroom hserves onePayload.messageRequest clock.suffices_zero
  obtain ⟨reference, rest, hreference, hrest, rfl⟩ := List.forall₂_cons_left_iff.mp hrenders
  obtain rfl := List.forall₂_nil_left_iff.mp hrest
  obtain ⟨told, hverdict⟩ := Shape.exists_receipt
    (rfl : Shape.message.draft onePayload.messageRequest = .ok [none]) [reference]
  refine ⟨enough, told, reference, later, after, fun limit hlimit => ?_, hafter, hreference⟩
  rw [TableKind.shape, hverdict] at hmessages
  exact hmessages limit hlimit

/-- The payload is written behind the torn line and cannot be read, and still the
message journal gets its reference. -/
theorem run_behind_torn_line : ∃ enough conclusion, ∃ reference : MessageEntry,
    (∀ limit, enough ≤ limit →
      run limit .throughAnother onePayload (.stopped 9) withTornPayload = some conclusion) ∧
    conclusion.failure = none ∧
    Journal.Serves conclusion.volume Config.throughAnother.messageJournal [reference] ∧
    reference = Shape.message.entry onePayload.messageRequest none reference.position ∧
    ∃ location, ∃ block : List PayloadEntry,
      conclusion.volume.tree.find Config.throughAnother.payloadJournal =
        .ok (location, .file 0) ∧
      (conclusion.volume.content 0).bytes = [0x7B] ++ block.flatMap Record.line := by
  obtain ⟨enough, receipt, later, between, block, hpayloads, hrefills, hbytes⟩ :=
    payload_behind_torn_line
  obtain ⟨more, told, reference, last, after, hmessages, hafter, hreference⟩ :=
    reference_behind_torn_line hrefills later
  have hsound := hrefills.sound Volume.sound_withAnother
  have hspares : between.Spares after Config.throughAnother.payloadJournal :=
    (toJournal_tends hsound (hmessages more (Nat.le_refl _))).spares hsound
      Path.isPlain_messages Path.isPlain_payloads (by decide) (by decide)
      ((toJournal_tends Volume.sound_withTornPayload (hpayloads enough (Nat.le_refl _))).distinct
        Volume.sound_withTornPayload (by decide) Volume.distinct_withTornPayload)
  have hfind := hspares.stays ["payloads.jsonl"] 0
    (hrefills.tree ▸ Volume.places_payloads_another.find)
  refine ⟨max enough more,
    { printed := [.json receipt.toJson] ++ [.json told.toJson], volume := after }, reference,
    fun limit hlimit => ?_, rfl, hafter, hreference, _, block, hfind, ?_⟩
  · have htable : onePayload.payloadTable = true := rfl
    have hpointer : onePayload.writePointer = some 5 := rfl
    rw [run, htable, hpointer, hpayloads limit (Nat.le_trans (Nat.le_max_left ..) hlimit)]
    simp only [Option.isNone_some, Bool.not_true, Bool.false_eq_true, if_false, messagePhase,
      hmessages limit (Nat.le_trans (Nat.le_max_right ..) hlimit)]
  · rw [(hspares.same _ _ hfind).2, hbytes]

end Publish

/-- Nothing is read from a journal that begins with a torn line. -/
theorem Journal.readValid_behind_torn_line {volume : Volume} {path : String}
    {location : Location} {block : List PayloadEntry} (hfaultless : volume.Faultless)
    (hfind : volume.tree.find path = .ok (location, .file 0))
    (hbytes : (volume.content 0).bytes = [0x7B] ++ block.flatMap Record.line) :
    (readValid (E := PayloadEntry) volume path).1 = .ok [] := by
  have hragged : Ragged PayloadEntry (block.flatMap Record.line) := by
    simpa using (Ragged.unended List.not_mem_nil).lines
  have htorn : (0x0A : UInt8) ∉ [0x7B] := by decide
  rw [readValid, scan_found hfaultless hfind, hbytes]
  exact Ragged.readValid [] htorn hragged

end MessageStore
