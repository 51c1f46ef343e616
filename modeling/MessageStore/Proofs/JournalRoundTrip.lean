import MessageStore.Proofs.JournalSession
import Mathlib

/-!
# Reading back what was stored

Whatever is done with a journal, as long as nothing fails: readers find the
entries of the calls that were accepted, in order, and nothing to repair.
Wherever the file is cut off after that, they find the entries whose lines
are still whole, and are told of the one that is not.
-/

namespace MessageStore

namespace Journal

variable {E : Type} [TableEntry E] [TableEntry.Lawful E] {volume : Volume}
  {path : String} {id : Nat}

/-! ## Journals of whole lines -/

theorem scan_records (hfaultless : volume.Faultless) {location : Location}
    (hfind : volume.tree.find path = .ok (location, .file id)) {entries : List E}
    {tail : Bytes} (htail : 0x0A ∉ tail)
    (hcontent : (volume.content id).bytes = entries.flatMap Record.line ++ tail) :
    scan volume path =
      (.ok ⟨Scan.placed 0 entries, Scan.ending (entries.length + 1) tail none⟩,
        { volume with operations := volume.operations + 2 }) := by
  rw [scan_found hfaultless hfind, hcontent, Scan.ofReading_records entries htail]

theorem readValid_records (hfaultless : volume.Faultless) {location : Location}
    (hfind : volume.tree.find path = .ok (location, .file id)) {entries : List E}
    {tail : Bytes} (htail : 0x0A ∉ tail)
    (hcontent : (volume.content id).bytes = entries.flatMap Record.line ++ tail) :
    (readValid volume path).1 = .ok entries := by
  rw [readValid, scan_records hfaultless hfind htail hcontent]
  dsimp only
  rw [Scan.readValid, Scan.ending]
  cases tail with
  | nil => simp
  | cons octet tail => simp

theorem repair_records (hfaultless : volume.Faultless) {location : Location}
    (hfind : volume.tree.find path = .ok (location, .file id)) {entries : List E}
    (hcontent : (volume.content id).bytes = entries.flatMap Record.line) :
    repair E volume path =
      (.ok 0, { volume with operations := volume.operations + 3 }) := by
  have hsize : volume.fileSize path = (.ok (entries.flatMap Record.line).length,
      { volume with operations := volume.operations + 1 }) := by
    simp only [Volume.fileSize, Volume.operate, hfaultless _, hfind,
      Volume.content_operations, Content.size_eq_length, hcontent]
  rw [repair, hsize]
  dsimp only
  have hcounted : Volume.Faultless { volume with operations := volume.operations + 1 } :=
    hfaultless
  rw [scan_records hcounted hfind List.not_mem_nil]
  · dsimp only
    rw [Scan.valid_placed, if_pos (Nat.le_refl _)]
  · rw [Volume.content_operations, hcontent, List.append_nil]

/-- Readers find these entries and nothing wrong, and there is nothing to
repair. -/
structure Intact (volume : Volume) (path : String) (entries : List E) : Prop where
  readValid : (readValid volume path).1 = .ok entries
  scan : ∃ found : Scan E, (scan volume path).1 = .ok found ∧ found.fault = none
  repair : (repair E volume path).1 = .ok 0

theorem intact_records (hfaultless : volume.Faultless) {location : Location}
    (hfind : volume.tree.find path = .ok (location, .file id)) {entries : List E}
    (hcontent : (volume.content id).bytes = entries.flatMap Record.line) :
    Intact volume path entries := by
  have hwhole : (volume.content id).bytes = entries.flatMap Record.line ++ [] := by
    rw [hcontent, List.append_nil]
  constructor
  · exact readValid_records hfaultless hfind List.not_mem_nil hwhole
  · rw [scan_records hfaultless hfind List.not_mem_nil hwhole]
    exact ⟨_, rfl, rfl⟩
  · rw [repair_records hfaultless hfind hcontent]

omit [TableEntry.Lawful E] in
theorem intact_missing (hfaultless : volume.Faultless)
    (hfind : volume.tree.find path = .error (.system .notFound)) :
    Intact volume path ([] : List E) := by
  have hscan := scan_missing (E := E) hfaultless hfind
  constructor
  · rw [Journal.readValid, hscan]
    rfl
  · rw [hscan]
    exact ⟨_, rfl, rfl⟩
  · simp only [Journal.repair, Volume.fileSize, Volume.operate, hfaultless _, hfind]
    rfl

/-- A journal that is to open empty is missing, or a file with nothing in
it. -/
theorem OpensEmpty.intact (hfaultless : volume.Faultless) (hsound : volume.Sound)
    (hopens : OpensEmpty volume path) : Intact volume path ([] : List E) := by
  obtain ⟨journal, opened, hopen, hempty⟩ := hopens.exists_open
  obtain ⟨id, _, hhosts, hwithin, _, hcontents⟩ := open_eq_ok hsound hopen
  obtain ⟨location, hfound⟩ := hhosts.find
  rcases hwithin.find path with hmissing | hsame
  · exact intact_missing hfaultless hmissing
  · rw [hhosts.contentAt?, hcontents] at hempty
    rw [hsame] at hfound
    exact intact_records hfaultless hfound (Option.some.inj hempty)

/-! ## Sessions without faults -/

/-- A journal that opened empty and is used without faults: stores fail
through closed handles only, what the others stored is read back and nothing
else, and each handle has counted what it was to write. -/
theorem stored_entries_are_read_back (kind : TableKind) {volume : Volume} {path : String}
    (hfaultless : volume.Faultless) (hsound : volume.Sound)
    (hopens : OpensEmpty volume path) (calls : List (Call kind.Entry)) :
    let session := Session.after volume path calls
    session.handles.length = calls.countP Call.isOpening ∧
    session.accounts.map Account.storing = Call.storings 0 [] calls ∧
    (∀ account ∈ session.accounts,
      (account.closed = false → account.result = .ok ()) ∧
      (account.closed = true →
        account.result = .error .closed ∧ account.after = account.before)) ∧
    session.accepted = Call.admitted calls ∧
    Intact session.volume path session.accepted ∧
    ∀ index handle, session.handles[index]? = some handle →
      handle.recordsWritten = session.recordsOf index ∧
        handle.bytesWritten = session.bytesOf index := by
  intro session
  obtain ⟨hhandles, hstorings⟩ := Session.after_storings hsound hfaultless hopens calls
  refine ⟨hhandles, hstorings, ?_⟩
  rw [Call.admitted, ← hstorings]
  rcases Session.after_cases hsound hopens calls with hidle | ⟨id, hbalanced⟩
  · have hsession : session = { volume } := hidle
    rw [hsession, hidle]
    refine ⟨fun account hmem => ?_, rfl, hopens.intact hfaultless hsound,
      fun index handle hget => ?_⟩
    · contradiction
    · contradiction
  · have hquiet := hbalanced.faultless hfaultless
    obtain ⟨location, hfind⟩ := hbalanced.hosts.find
    refine ⟨?_, ?_, ?_, hbalanced.counted⟩
    · intro account hmem
      refine ⟨hbalanced.granted hquiet account hmem, fun hclosed => ?_⟩
      cases hbalanced.fair account hmem with
      | refused _ hresult hafter => exact ⟨hresult, hafter⟩
      | stored hopen => simp [hclosed] at hopen
      | failed hopen => simp [hclosed] at hopen
    · exact Account.accepted_storings hbalanced.fair (hbalanced.granted hquiet)
    · exact intact_records hquiet hfind (hbalanced.content_accepted hquiet)

/-- Two handles on one journal, the first of which is closed before it is
used again. -/
theorem two_handles_are_read_back :
    let first : MessageEntry := ⟨⟨"a", "b"⟩, false, none, some [1, 2], ⟨5, 0⟩⟩
    let second : MessageEntry := ⟨⟨"a", "c"⟩, true, some 7, none, ⟨5, 1⟩⟩
    let session := Session.after (Volume.workingIn "/") "d/j"
      ([.open true, .store 0 [first], .open false, .store 1 [second, second], .close 0,
        .store 0 [second], .store 1 [first]] : List (Call TableKind.message.Entry))
    session.handles.length = 2 ∧ session.accepted = [first, second, second, first] ∧
      Intact session.volume "d/j" session.accepted := by
  intro first second session
  have hopens : OpensEmpty (Volume.workingIn "/") "d/j" := ⟨by cbv, by cbv⟩
  obtain ⟨hhandles, _, _, haccepted, hintact, _⟩ :=
    stored_entries_are_read_back .message (Volume.faultless_workingIn "/")
      (Volume.sound_workingIn "/") hopens _
  exact ⟨hhandles, haccepted, hintact⟩

/-! ## Journals that were cut off -/

/-- A journal that opened empty, was filled through one handle and is cut off
somewhere: readers find the entries whose lines are whole, and the scan ends
with a truncated record unless the cut is where a line ends. -/
theorem whole_lines_survive_a_cut (kind : TableKind) {volume : Volume} {path : String}
    (hfaultless : volume.Faultless) (hsound : volume.Sound)
    (hopens : OpensEmpty volume path) (synced : Bool) (batches : List (List kind.Entry))
    (size : Nat) :
    let entries := batches.flatten
    let session := Session.after volume path (.open synced :: batches.map (.store 0))
    session.volume.contentAt? path = some (entries.flatMap Record.line) ∧
    (size ≤ (entries.flatMap Record.line).length →
      ∃ cut count, cutTo session.volume path size = (.ok (), cut) ∧
        count ≤ entries.length ∧
        (∀ other ≤ entries.length, Record.lineEnd entries other ≤ size ↔ other ≤ count) ∧
        (readValid cut path).1 = .ok (entries.take count) ∧
        ∃ found : Scan kind.Entry, (scan cut path).1 = .ok found ∧
          found.entries.map (·.1) = entries.take count ∧
          (found.fault = some (.corrupted (count + 1) .truncated) ↔
            ¬ ∃ other ≤ entries.length, Record.lineEnd entries other = size) ∧
          (found.fault = none ↔
            ∃ other ≤ entries.length, Record.lineEnd entries other = size)) := by
  intro entries session
  obtain ⟨id, hquiet, hhosts, hcontent⟩ :=
    Session.after_open hsound hfaultless hopens synced (batches.map (.store 0))
  rw [Call.admitted_stores] at hcontent
  refine ⟨by rw [hhosts.contentAt?, hcontent], fun hsize => ?_⟩
  obtain ⟨tail, htake, htorn⟩ := Record.take_records entries size
  have htail := Record.unbroken_of_torn htorn
  have hcount := Record.wholeLines_le_length entries size
  obtain ⟨cut, hcut, hcutQuiet, hcutHosts, hcutContent⟩ :=
    cutTo_hosted hquiet hhosts size
  obtain ⟨location, hfind⟩ := hcutHosts.find
  rw [hcontent, htake] at hcutContent
  refine ⟨cut, Record.wholeLines entries size, hcut, hcount,
    fun other hother => Record.lineEnd_le_iff hother,
    readValid_records hcutQuiet hfind htail hcutContent, _,
    by rw [scan_records hcutQuiet hfind htail hcutContent], Scan.map_fst_placed _ _, ?_⟩
  rw [← Record.tail_eq_nil_iff hsize htake, List.length_take, Nat.min_eq_left hcount, Scan.ending]
  cases tail with
  | nil => simp
  | cons octet tail => simp

theorem last_record_lacks_its_line_feed :
    let first : MessageEntry := ⟨⟨"a", "b"⟩, false, none, some [1, 2], ⟨5, 0⟩⟩
    let second : MessageEntry := ⟨⟨"a", "c"⟩, true, some 7, none, ⟨5, 1⟩⟩
    let session := Session.after (Volume.workingIn "/") "d/j"
      ([.open true, .store 0 [first], .store 0 [second]] : List (Call TableKind.message.Entry))
    ∃ cut, cutTo session.volume "d/j"
        ((Record.line first).length + (Record.text second).length) = (.ok (), cut) ∧
      (readValid cut "d/j").1 = .ok [first] ∧
      ∃ found : Scan MessageEntry, (scan cut "d/j").1 = .ok found ∧
        found.fault = some (.corrupted 2 .truncated) := by
  intro first second session
  have hopens : OpensEmpty (Volume.workingIn "/") "d/j" := ⟨by cbv, by cbv⟩
  have htext : 0 < (Record.text second).length :=
    List.length_pos_iff.mpr (Record.text_ne_nil second)
  have hline : (Record.line second).length = (Record.text second).length + 1 := by
    simp [Record.line_eq]
  have hends : Record.lineEnd [first, second] 1 = (Record.line first).length ∧
      Record.lineEnd [first, second] 2 =
        (Record.line first).length + (Record.line second).length := by
    simp [Record.lineEnd]
  obtain ⟨_, hcut⟩ := whole_lines_survive_a_cut .message (Volume.faultless_workingIn "/")
    (Volume.sound_workingIn "/") hopens true [[first], [second]]
    ((Record.line first).length + (Record.text second).length)
  obtain ⟨cut, count, hresult, _, hcount, hentries, found, hscan, _, hfault, _⟩ :=
    hcut (by simp [hline])
  have hone : count = 1 := by
    have hfirst := hcount 1 (by simp)
    have hsecond := hcount 2 (by simp)
    simp only [List.flatten_cons, List.flatten_nil, List.append_nil,
      List.singleton_append, hends] at hfirst hsecond
    omega
  subst hone
  refine ⟨cut, hresult, hentries, found, hscan, hfault.mpr ?_⟩
  rintro ⟨other, hother, hend⟩
  simp only [List.flatten_cons, List.flatten_nil, List.append_nil,
    List.singleton_append, List.length_cons, List.length_nil] at hother hend
  obtain rfl | rfl | rfl : other = 0 ∨ other = 1 ∨ other = 2 := by omega
  · rw [Record.lineEnd_zero] at hend
    omega
  · rw [hends.1] at hend
    omega
  · rw [hends.2] at hend
    omega

end Journal

end MessageStore
