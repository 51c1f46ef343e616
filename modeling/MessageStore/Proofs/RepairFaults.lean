import MessageStore.Proofs.FoundFiles
import MessageStore.Proofs.JournalPairs
import MessageStore.Proofs.LongestPrefix

/-!
# Repairs that meet faults

A repair looks at the file, opens and reads it, and if there is more than whole
lines it opens the file once more, cuts it and waits.  Each of these operations
may fail.  Looking and opening fail before anything is done.  But a repair takes
whatever ends its scan for the end of the journal, and so cuts off what it could
not read.
-/

namespace MessageStore

namespace Volume

variable {volume : Volume} {path : String} {location : Location} {id : Nat}

theorem sync_cases (volume : Volume) (id : Nat) :
    ∃ result count, volume.sync id = (result, { volume with operations := count }) := by
  simp only [sync, operate]
  cases volume.faults volume.operations with
  | none => exact ⟨_, _, rfl⟩
  | some fault => exact ⟨_, _, rfl⟩

theorem truncate_cases (hinside : id < volume.contents.size) (size : Nat) :
    ∃ result cut, volume.truncate id size = (result, cut) ∧ volume.Refills cut id ∧
      (result = .ok () ∧ (cut.content id).bytes = (volume.content id).bytes.take size ∨
        (∃ error, result = .error error) ∧
          (cut.content id).bytes = (volume.content id).bytes) := by
  simp only [truncate, operate]
  cases volume.faults volume.operations with
  | some fault =>
      exact ⟨_, _, rfl, .operations volume _ id, .inr ⟨⟨_, rfl⟩, rfl⟩⟩
  | none =>
      refine ⟨_, _, rfl, (Refills.operations volume _ id).trans (.setContent _ id _),
        .inl ⟨rfl, ?_⟩⟩
      rw [content_setContent, Content.bytes_ofBytes]
      · rfl
      · exact hinside

end Volume

namespace Journal

variable {E : Type} [TableEntry E] {volume : Volume} {path : String} {location : Location}
  {id : Nat}

/-! ## Cutting -/

theorem cutTo_cases (hsound : volume.Sound)
    (hfind : volume.tree.find path = .ok (location, .file id)) (size : Nat) :
    ∃ result cut, cutTo volume path size = (result, cut) ∧ volume.Refills cut id ∧
      ((cut.content id).bytes = (volume.content id).bytes.take size ∨
        (∃ error, result = .error error) ∧
          (cut.content id).bytes = (volume.content id).bytes) := by
  simp only [cutTo, Volume.openForWriting, Volume.operate]
  cases volume.faults volume.operations with
  | some fault =>
      exact ⟨_, _, rfl, .operations volume _ id, .inr ⟨⟨_, rfl⟩, rfl⟩⟩
  | none =>
      simp only [hfind]
      have hcounted : volume.Refills { volume with operations := volume.operations + 1 } id :=
        .operations volume _ id
      obtain ⟨result, cut, hcut, hrefills, hcases⟩ :=
        Volume.truncate_cases ((hcounted.sound hsound).inside hfind) size
      rw [hcut]
      rcases hcases with ⟨rfl, hbytes⟩ | ⟨⟨error, rfl⟩, hbytes⟩
      · obtain ⟨result, count, hsync⟩ := cut.sync_cases id
        exact ⟨result, _, hsync, (hcounted.trans hrefills).trans (.operations cut count id),
          .inl hbytes⟩
      · exact ⟨_, _, rfl, hcounted.trans hrefills, .inr ⟨⟨error, rfl⟩, hbytes⟩⟩

/-! ## The scan of a repair -/

theorem scan_of_fault {fault : Fault} (hopen : volume.faults volume.operations = some fault) :
    scan (E := E) volume path =
      (if fault.kind = .notFound then .ok .empty else .error (.io (.system fault.kind)),
        { volume with operations := volume.operations + 1 }) := by
  have hsame : (IoError.system fault.kind).kind = fault.kind := rfl
  simp only [scan, Volume.read, Volume.operate, hopen]
  by_cases hkind : fault.kind = .notFound
  · rw [if_pos (hsame.trans hkind), if_pos hkind]
  · rw [if_neg (hsame ▸ hkind), if_neg hkind]

/-! ## The steps of a repair -/

theorem repair_of_look_fault {fault : Fault}
    (hlook : volume.faults volume.operations = some fault) (hkind : fault.kind ≠ .notFound) :
    repair E volume path =
      (.error (.io (.system fault.kind)), { volume with operations := volume.operations + 1 }) := by
  simp only [repair, Volume.fileSize, Volume.operate, hlook]
  exact if_neg hkind

theorem repair_of_open_fault (hfind : volume.tree.find path = .ok (location, .file id))
    (hlook : volume.faults volume.operations = none) {fault : Fault}
    (hopen : volume.faults (volume.operations + 1) = some fault)
    (hkind : fault.kind ≠ .notFound) :
    repair E volume path =
      (.error (.read (.io (.system fault.kind))),
        { volume with operations := volume.operations + 2 }) := by
  have hcounted : Volume.faults { volume with operations := volume.operations + 1 }
      (volume.operations + 1) = some fault := hopen
  rw [repair, Volume.fileSize_found hfind hlook]
  simp only [scan_of_fault (E := E) hcounted, if_neg hkind]

theorem cutBack_cases (volume : Volume) (hsound : volume.Sound)
    (hfind : volume.tree.find path = .ok (location, .file id)) (size : Nat) :
    ∃ result later, cutBack volume path (volume.content id).bytes.length size =
        (result, later) ∧ volume.Refills later id ∧
      ((later.content id).bytes = (volume.content id).bytes.take size ∨
        (∃ error, result = .error error) ∧
          (later.content id).bytes = (volume.content id).bytes) := by
  rw [cutBack]
  split
  next hfits =>
    exact ⟨_, _, rfl, .operations volume volume.operations id,
      .inl (List.take_of_length_le hfits).symm⟩
  next =>
    obtain ⟨result, cut, hcut, hrefills, hcases⟩ := cutTo_cases hsound hfind size
    rw [hcut]
    cases result with
    | ok =>
        rcases hcases with hbytes | ⟨⟨error, herror⟩, -⟩
        · exact ⟨_, _, rfl, hrefills, .inl hbytes⟩
        · contradiction
    | error error =>
        rcases hcases with hbytes | ⟨-, hsame⟩
        · exact ⟨_, _, rfl, hrefills, .inl hbytes⟩
        · exact ⟨_, _, rfl, hrefills, .inr ⟨⟨_, rfl⟩, hsame⟩⟩

/-- What is kept by a cut behind the whole lines of what was got is whole lines. -/
theorem cutBack_whole (volume : Volume) (hsound : volume.Sound)
    (hfind : volume.tree.find path = .ok (location, .file id)) {got : Bytes}
    (hgot : got <+: (volume.content id).bytes) :
    ∃ result later, cutBack volume path (volume.content id).bytes.length
        (Scan.validSize E got) = (result, later) ∧ volume.Refills later id ∧
      ((∃ error, result = .error error) ∨
        Scan.Whole (later.content id).bytes (Scan.validEntries E got)) := by
  obtain ⟨result, later, hcut, hrefills, hcases⟩ :=
    cutBack_cases volume hsound hfind (Scan.validSize E got)
  refine ⟨result, later, hcut, hrefills, ?_⟩
  rcases hcases with hbytes | ⟨herror, -⟩
  · right
    obtain ⟨rest, hrest⟩ := hgot
    have hfront : (later.content id).bytes = got.take (Scan.validSize E got) := by
      rw [hbytes, ← hrest, List.take_append_of_le_length (Scan.validSize_le got)]
    rw [hfront]
    exact Scan.whole_take got
  · exact .inl herror

theorem repair_of_vanished (hfind : volume.tree.find path = .ok (location, .file id))
    (hlook : volume.faults volume.operations = none) {fault : Fault}
    (hopen : volume.faults (volume.operations + 1) = some fault)
    (hkind : fault.kind = .notFound) :
    repair E volume path =
      cutBack { volume with operations := volume.operations + 2 } path
        (volume.content id).bytes.length (Scan.validSize E []) := by
  have hcounted : Volume.faults { volume with operations := volume.operations + 1 }
      (volume.operations + 1) = some fault := hopen
  rw [repair, Volume.fileSize_found hfind hlook]
  simp only [scan_of_fault (E := E) hcounted, if_pos hkind]
  rfl

/-- A failure to read is taken for the end of the journal. -/
theorem repair_of_read_fault (hsound : volume.Sound)
    (hfind : volume.tree.find path = .ok (location, .file id))
    (hlook : volume.faults volume.operations = none)
    (hopen : volume.faults (volume.operations + 1) = none) {fault : Fault}
    (hread : volume.faults (volume.operations + 2) = some fault)
    (hnone : ∀ operation, volume.operations + 3 ≤ operation →
      volume.faults operation = none) :
    ∃ repaired, repair E volume path = (.ok ((volume.content id).bytes.length -
          Scan.validSize E ((volume.content id).bytes.take fault.progress)), repaired) ∧
      volume.Refills repaired id ∧
      (repaired.content id).bytes = (volume.content id).bytes.take
        (Scan.validSize E ((volume.content id).bytes.take fault.progress)) := by
  have hcounted : volume.Refills { volume with operations := volume.operations + 3 } id :=
    .operations volume _ id
  have hrepair := repair_of_reading (E := E) hfind hlook hopen
  rw [hread] at hrepair
  obtain ⟨repaired, hcut, hrefills, hbytes⟩ := cutBack_of_none
    { volume with operations := volume.operations + 3 } hsound hfind hnone
    (Scan.validSize E ((volume.content id).bytes.take fault.progress))
  exact ⟨repaired, hrepair.trans hcut, hcounted.trans hrefills, hbytes⟩

theorem repair_of_whole_reading (hsound : volume.Sound)
    (hfind : volume.tree.find path = .ok (location, .file id))
    (hlook : volume.faults volume.operations = none)
    (hopen : volume.faults (volume.operations + 1) = none)
    (hread : volume.faults (volume.operations + 2) = none) :
    ∃ result repaired, repair E volume path = (result, repaired) ∧
      volume.Refills repaired id ∧
      ((repaired.content id).bytes = (volume.content id).bytes ∨
        (repaired.content id).bytes =
            (volume.content id).bytes.take (Scan.validSize E (volume.content id).bytes) ∧
          ∃ flaw, (Scan.ofReading ⟨(volume.content id).bytes, none⟩ : Scan E).fault = some flaw ∧
            ∀ error, flaw ≠ .io error) := by
  have hrepair := repair_of_reading (E := E) hfind hlook hopen
  rw [hread] at hrepair
  obtain ⟨result, repaired, hcut, hrefills, hcases⟩ := cutBack_cases
    { volume with operations := volume.operations + 3 } hsound hfind
    (Scan.validSize E (volume.content id).bytes)
  refine ⟨result, repaired, hrepair.trans hcut,
    (Volume.Refills.operations volume _ id).trans hrefills, ?_⟩
  rcases hcases with hcut | ⟨-, hsame⟩
  · cases hfault : (Scan.ofReading ⟨(volume.content id).bytes, none⟩ : Scan E).fault with
    | none =>
        left
        rw [hcut, Scan.validSize_of_fault_none hfault]
        exact List.take_length
    | some flaw =>
        refine .inr ⟨hcut, flaw, rfl, fun error hio => ?_⟩
        have hfailed := Scan.failure_of_io (hio ▸ hfault)
        contradiction
  · exact .inl hsame

/-- What is left of the entries of a file by a repair: the first ones, and all of them
if it could open and read the file. -/
structure Kept (volume : Volume) (id : Nat) (kept : List E) : Prop where
  front : kept <+: Scan.validEntries E (volume.content id).bytes
  all : volume.faults (volume.operations + 1) = none →
    volume.faults (volume.operations + 2) = none →
    kept = Scan.validEntries E (volume.content id).bytes

/-- Unless it takes the file for a missing one, a repair that succeeds leaves whole
lines with what is kept of the entries. -/
theorem repair_cases (hsound : volume.Sound)
    (hfind : volume.tree.find path = .ok (location, .file id))
    (hlook : ∀ fault, volume.faults volume.operations = some fault → fault.kind ≠ .notFound) :
    ∃ result repaired, repair E volume path = (result, repaired) ∧
      volume.Refills repaired id ∧ ((∃ error, result = .error error) ∨
        ∃ kept : List E, Scan.Whole (repaired.content id).bytes kept ∧
          Kept volume id kept) := by
  cases hlooked : volume.faults volume.operations with
  | some fault =>
      exact ⟨_, _, repair_of_look_fault hlooked (hlook fault hlooked), .operations volume _ id,
        .inl ⟨_, rfl⟩⟩
  | none =>
      -- What the scan got decides how much is kept, whatever the cut comes to.
      cases hopened : volume.faults (volume.operations + 1) with
      | some fault =>
          by_cases hkind : fault.kind = .notFound
          · obtain ⟨result, repaired, hcut, hrefills, hcases⟩ :=
              cutBack_whole (E := E) { volume with operations := volume.operations + 2 } hsound
                hfind List.nil_prefix
            refine ⟨result, repaired, (repair_of_vanished hfind hlooked hopened hkind).trans hcut,
              (Volume.Refills.operations volume _ id).trans hrefills,
              hcases.imp_right fun hwhole => ?_⟩
            refine ⟨_, hwhole, Scan.validEntries_prefix List.nil_prefix, fun hquiet => ?_⟩
            rw [hopened] at hquiet
            contradiction
          · exact ⟨_, _, repair_of_open_fault hfind hlooked hopened hkind,
              .operations volume _ id, .inl ⟨_, rfl⟩⟩
      | none =>
          have hgot := Volume.readingOf_prefix (volume.content id).bytes
            (volume.faults (volume.operations + 2))
          obtain ⟨result, repaired, hcut, hrefills, hcases⟩ :=
            cutBack_whole (E := E) { volume with operations := volume.operations + 3 } hsound
              hfind hgot
          refine ⟨result, repaired, (repair_of_reading hfind hlooked hopened).trans hcut,
            (Volume.Refills.operations volume _ id).trans hrefills,
            hcases.imp_right fun hwhole => ?_⟩
          refine ⟨_, hwhole, Scan.validEntries_prefix hgot, fun _ hread => ?_⟩
          rw [hread]
          rfl

/-! ## Whatever fails -/

/-- A failure to look at the journal or to open it is reported by a repair, and
nothing has been done then.  But a failure to read it is not reported: the journal
is cut back to the longest prefix of whole lines among the octets that were got
before it, and what comes behind them is gone.  When reading does not fail, a
journal is cut only at a line that is corrupted, cut short or has another
checksum. -/
theorem repair_cuts_off_what_it_could_not_read (hsound : volume.Sound)
    (hfind : volume.tree.find path = .ok (location, .file id)) :
    (∀ fault, fault.kind ≠ .notFound → volume.faults volume.operations = some fault →
      repair E volume path = (.error (.io (.system fault.kind)),
        { volume with operations := volume.operations + 1 })) ∧
    (volume.faults volume.operations = none →
      (∀ fault, fault.kind ≠ .notFound → volume.faults (volume.operations + 1) = some fault →
        repair E volume path = (.error (.read (.io (.system fault.kind))),
          { volume with operations := volume.operations + 2 })) ∧
      (volume.faults (volume.operations + 1) = none →
        (∀ fault, volume.faults (volume.operations + 2) = some fault →
          (∀ operation, volume.operations + 3 ≤ operation → volume.faults operation = none) →
          ∃ size entries repaired,
            Scan.LongestWhole ((volume.content id).bytes.take fault.progress) size
              (entries : List E) ∧
            repair E volume path = (.ok ((volume.content id).bytes.length - size), repaired) ∧
            repaired.contentAt? path = some ((volume.content id).bytes.take size)) ∧
        (volume.faults (volume.operations + 2) = none →
          (repair E volume path).2.contentAt? path = some (volume.content id).bytes ∨
          ∃ size entries flaw, Scan.LongestWhole (volume.content id).bytes size
              (entries : List E) ∧
            (repair E volume path).2.contentAt? path =
              some ((volume.content id).bytes.take size) ∧
            (Scan.ofReading ⟨(volume.content id).bytes, none⟩ : Scan E).fault = some flaw ∧
            ∀ error, flaw ≠ .io error))) := by
  refine ⟨fun fault hkind hlook => repair_of_look_fault hlook hkind, fun hlook => ⟨?_, ?_⟩⟩
  · exact fun fault hkind hopen => repair_of_open_fault hfind hlook hopen hkind
  intro hopen
  constructor
  · intro fault hread hnone
    obtain ⟨repaired, hrepair, hrefills, hbytes⟩ :=
      repair_of_read_fault (E := E) hsound hfind hlook hopen hread hnone
    refine ⟨_, _, repaired, Scan.longestWhole _, hrepair, ?_⟩
    rw [(hrefills.hosts (hsound.hosts hfind)).contentAt?, hbytes]
  · intro hread
    obtain ⟨result, repaired, hrepair, hrefills, hcases⟩ :=
      repair_of_whole_reading (E := E) hsound hfind hlook hopen hread
    rw [hrepair, (hrefills.hosts (hsound.hosts hfind)).contentAt?]
    refine hcases.imp (congrArg some) ?_
    rintro ⟨hbytes, flaw, hflaw, hbad⟩
    exact ⟨_, _, flaw, Scan.longestWhole _, congrArg some hbytes, hflaw, hbad⟩

end Journal

/-- A volume with nothing but one file, in its working directory. -/
def Volume.holding (name : String) (bytes : Bytes) : Volume where
  tree := { nodes := [([name], .file 0)] }
  contents := #[.ofBytes bytes]

section

variable {name : String} {bytes : Bytes} {location : Location} {id : Nat}

theorem Volume.file_holding
    (hfile : (holding name bytes).tree.node? location = some (.file id)) :
    location = [name] ∧ id = 0 := by
  unfold Tree.node? at hfile
  split at hfile
  next => simp at hfile
  next =>
    by_cases hthere : [name] = location
    · simp [holding, hthere] at hfile
      exact ⟨hthere.symm, hfile.symm⟩
    · simp [holding, hthere] at hfile

theorem Volume.sound_holding (name : String) (bytes : Bytes) : (holding name bytes).Sound := by
  intro location id hfile
  rw [(file_holding hfile).2]
  exact Nat.zero_lt_one

theorem Volume.find_messages (bytes : Bytes) :
    (holding "messages.jsonl" bytes).tree.find "messages.jsonl" =
      .ok (["messages.jsonl"], .file 0) := by
  have hplaces : (holding "messages.jsonl" []).tree.Places "messages.jsonl" [] "messages.jsonl"
      (some 0) := .of_name Path.isPlain_messages (by decide) (by decide)
  exact hplaces.find

end

namespace Journal

theorem second_record_is_cut_off :
    let first : MessageEntry := ⟨⟨"a", "b"⟩, false, none, some [1, 2], ⟨5, 0⟩⟩
    let second : MessageEntry := ⟨⟨"a", "c"⟩, true, some 7, none, ⟨5, 1⟩⟩
    let volume : Volume :=
      { Volume.holding "messages.jsonl" (Record.line first ++ Record.line second) with
        faults := fun operation =>
          if operation = 2 then some ⟨.other, (Record.line first).length⟩ else none }
    ∃ repaired, repair MessageEntry volume "messages.jsonl" =
        (.ok (Record.line second).length, repaired) ∧
      repaired.contentAt? "messages.jsonl" = some (Record.line first) := by
  intro first second volume
  have hbytes : (volume.content 0).bytes = Record.line first ++ Record.line second :=
    Content.bytes_ofBytes _
  have hsound : volume.Sound := Volume.sound_holding _ _
  have hfind : volume.tree.find "messages.jsonl" = .ok (["messages.jsonl"], .file 0) :=
    Volume.find_messages (Record.line first ++ Record.line second)
  obtain ⟨-, hlooked⟩ :=
    repair_cuts_off_what_it_could_not_read (E := MessageEntry) hsound hfind
  obtain ⟨size, entries, repaired, hlongest, hrepair, hcontent⟩ :=
    ((hlooked rfl).2 rfl).1 ⟨.other, (Record.line first).length⟩ rfl fun operation hlater =>
      if_neg (Nat.ne_of_gt hlater)
  rw [hbytes] at hlongest hrepair hcontent
  rw [List.take_left] at hlongest
  obtain rfl : size = (Record.line first).length :=
    Nat.le_antisymm hlongest.inside
      (hlongest.longest _ [first] List.prefix_rfl (Scan.whole_line first))
  refine ⟨repaired, ?_, ?_⟩
  · rw [hrepair, List.length_append, Nat.add_sub_cancel_left]
  · rw [hcontent, List.take_left]

/-- A journal that is in order but cannot be read is emptied, where one who reads it
is told of the failure. -/
theorem unread_journal_is_emptied :
    let entry : MessageEntry := ⟨⟨"a", "b"⟩, false, none, some [1, 2], ⟨5, 0⟩⟩
    let volume : Volume := { Volume.holding "messages.jsonl" (Record.line entry) with
      faults := fun operation => if operation = 2 then some ⟨.other, 0⟩ else none }
    volume.contentAt? "messages.jsonl" = some (Record.line entry) ∧
      Scan.Whole (Record.line entry) [entry] ∧
      (∃ repaired, repair MessageEntry volume "messages.jsonl" =
          (.ok (Record.line entry).length, repaired) ∧
        repaired.contentAt? "messages.jsonl" = some []) ∧
      (readValid (E := MessageEntry) { volume with operations := 1 } "messages.jsonl").1 =
        .error (.io (.system .other)) := by
  intro entry volume
  have hsound : volume.Sound := Volume.sound_holding _ _
  have hfind : volume.tree.find "messages.jsonl" = .ok (["messages.jsonl"], .file 0) :=
    Volume.find_messages (Record.line entry)
  have hbytes : (volume.content 0).bytes = Record.line entry := Content.bytes_ofBytes _
  refine ⟨?_, Scan.whole_line entry, ?_, ?_⟩
  · rw [(hsound.hosts hfind).contentAt?, hbytes]
  · have hread : volume.faults (volume.operations + 2) = some ⟨.other, 0⟩ := rfl
    obtain ⟨repaired, hrepair, hrefills, hcut⟩ :=
      repair_of_read_fault (E := MessageEntry) hsound hfind rfl rfl hread
        fun operation hlater => if_neg (Nat.ne_of_gt hlater)
    have hnothing : Scan.validSize MessageEntry [] = 0 := rfl
    rw [List.take_zero, hnothing] at hrepair hcut
    refine ⟨repaired, ?_, ?_⟩
    · rw [hrepair, hbytes, Nat.sub_zero]
    · rw [(hrefills.hosts (hsound.hosts hfind)).contentAt?, hcut, List.take_zero]
  · have hscan := scan_of_none (E := MessageEntry) { volume with operations := 1 } hfind rfl
    rw [readValid, hscan]
    rfl

end Journal
end MessageStore
