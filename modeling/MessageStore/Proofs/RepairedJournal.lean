import MessageStore.Proofs.JournalKeeping
import MessageStore.Proofs.JournalSession
import MessageStore.Proofs.RepairFaults

/-!
# What is left after a repair

A repair cuts a journal back to the longest prefix of whole lines, and does
nothing to it when it is done again.  Readers find the same entries before and
after.  What is stored in the journal then comes right behind the last line that
was kept, so it is read behind the entries that were there.
-/

namespace MessageStore

theorem Volume.exists_file {volume : Volume} {path : String} {bytes : Bytes}
    (hfile : volume.contentAt? path = some bytes) :
    ∃ location id, volume.tree.find path = .ok (location, .file id) ∧
      (volume.content id).bytes = bytes := by
  rw [contentAt?] at hfile
  split at hfile
  next location id hfind => exact ⟨location, id, hfind, Option.some.inj hfile⟩
  next => contradiction

namespace Journal

variable {E : Type} [TableEntry E] {volume : Volume} {path : String} {location : Location}
  {id : Nat}

theorem readValid_found (hfaultless : volume.Faultless)
    (hfind : volume.tree.find path = .ok (location, .file id)) :
    (readValid volume path).1 = .ok (Scan.validEntries E (volume.content id).bytes) := by
  rw [readValid, scan_found hfaultless hfind]
  exact (Scan.validPrefix_validEntries _).readValid

/-! ## Cutting once and again -/

theorem repair_whole (hfaultless : volume.Faultless)
    (hfind : volume.tree.find path = .ok (location, .file id)) {entries : List E}
    (hwhole : Scan.Whole (volume.content id).bytes entries) :
    repair E volume path = (.ok 0, { volume with operations := volume.operations + 3 }) := by
  rw [repair_of_reading hfind (hfaultless _) (hfaultless _), hfaultless, cutBack]
  exact if_pos (Nat.le_of_eq hwhole.validSize_eq.symm)

/-! ## Storing behind what was kept -/

namespace Session

variable {session : Session E} {held : List E}

/-- The first handle of a session is open on the file, and the file is made of
whole lines with these entries. -/
structure Holds (path : String) (id : Nat) (held : List E) (session : Session E) : Prop where
  faultless : session.volume.Faultless
  hosts : session.volume.Hosts path id
  whole : Scan.Whole (session.volume.content id).bytes held
  handle : ∃ journal, session.handles[0]? = some journal ∧ journal.file = some id

theorem Holds.readValid (hholds : session.Holds path id held) :
    (Journal.readValid session.volume path).1 = .ok held := by
  obtain ⟨location, hfind⟩ := hholds.hosts.find
  rw [readValid_found hholds.faultless hfind, hholds.whole.validEntries_eq]

theorem holds_open (hfaultless : volume.Faultless) (hhosts : volume.Hosts path id)
    (hwhole : Scan.Whole (volume.content id).bytes held) (synced : Bool) :
    (step path ({ volume } : Session E) (.open synced)).Holds path id held ∧
      (step path ({ volume } : Session E) (.open synced)).accounts = [] := by
  have hstep : step path ({ volume } : Session E) (.open synced) =
      { volume := { volume with operations := volume.operations + 2 }
        handles := [{ path, file := some id, synced }] } := by
    rw [step, (opens_of_hosts hfaultless hhosts).opens synced]
    rfl
  rw [hstep]
  exact ⟨⟨hfaultless, hhosts.operations _, hwhole, _, rfl, rfl⟩, rfl⟩

variable [TableEntry.Lawful E]

/-- A batch that is stored succeeds, and its entries are held behind the others. -/
theorem Holds.store (hholds : session.Holds path id held) (batch : List E) :
    (session.step path (.store 0 batch)).Holds path id (held ++ batch) ∧
      ∃ account, (session.step path (.store 0 batch)).accounts = session.accounts ++ [account] ∧
        account.entries = batch ∧ account.result = .ok () := by
  obtain ⟨journal, hjournal, hfile⟩ := hholds.handle
  have hcount : batch.flatMap Record.line = [] → batch.length = 0 := by
    intro hnone
    cases batch with
    | nil => rfl
    | cons entry batch => simp [Record.line_eq] at hnone
  obtain ⟨result, handle, after, written, happend, hgains, hcases⟩ :=
    append_cases hholds.hosts hfile hcount
  rcases hcases with ⟨rfl, rfl, rfl⟩ | ⟨-, -, -, hfaulty⟩
  · rw [step]
    simp only [hjournal, Session.store, JournalTable.store_eq, happend]
    have hhandle (handle : Journal) : (session.handles.set 0 handle)[0]? = some handle :=
      List.getElem?_set_self (List.getElem?_eq_some_iff.mp hjournal).1
    refine ⟨⟨?_, hgains.hosts, ?_, _, hhandle _, hfile⟩, _, rfl, rfl, rfl⟩
    · intro operation
      rw [hgains.faults]
      exact hholds.faultless operation
    · rw [hgains.bytes]
      exact hholds.whole.append (Scan.whole_lines batch)
  · exact absurd hholds.faultless hfaulty

theorem Holds.stores (hholds : session.Holds path id held) (batches : List (List E)) :
    ((batches.map (.store 0)).foldl (step path) session).Holds path id
        (held ++ batches.flatten) ∧
      ∃ accounts, ((batches.map (.store 0)).foldl (step path) session).accounts =
          session.accounts ++ accounts ∧
        accounts.map Account.entries = batches ∧
        ∀ account ∈ accounts, account.result = .ok () := by
  induction batches generalizing session held with
  | nil =>
      rw [List.flatten_nil, List.append_nil]
      exact ⟨hholds, [], (List.append_nil _).symm, rfl, nofun⟩
  | cons batch batches ih =>
      obtain ⟨hstored, account, haccount, hentries, hresult⟩ := hholds.store batch
      obtain ⟨hall, accounts, haccounts, hbatches, hresults⟩ := ih hstored
      refine ⟨?_, account :: accounts, ?_, ?_, List.forall_mem_cons.mpr ⟨hresult, hresults⟩⟩
      · rw [List.flatten_cons, ← List.append_assoc]
        exact hall
      · rw [List.map_cons, List.foldl_cons, haccounts, haccount, List.append_assoc]
        rfl
      · rw [List.map_cons, hentries, hbatches]

end Session

/-- Whatever octets a journal holds, a repair leaves just the longest prefix of
whole lines, and says how many octets that removed.  The entries that are read are
the same before and after, and a second repair finds nothing to do.  A table that
is opened then stores any batches, and they are read behind the entries that were
kept. -/
theorem repair_keeps_the_longest_prefix [TableEntry.Lawful E] (hfaultless : volume.Faultless)
    (hsound : volume.Sound) {bytes : Bytes} (hfile : volume.contentAt? path = some bytes) :
    ∃ (size : Nat) (entries : List E) (repaired : Volume),
      Scan.LongestWhole bytes size entries ∧
      repair E volume path = (.ok (bytes.length - size), repaired) ∧
      repaired.contentAt? path = some (bytes.take size) ∧
      (readValid volume path).1 = .ok entries ∧
      (readValid repaired path).1 = .ok entries ∧
      (∃ count, repair E repaired path = (.ok 0, { repaired with operations := count })) ∧
      ∀ (synced : Bool) (batches : List (List E)),
        let session := Session.after repaired path (.open synced :: batches.map (.store 0))
        session.accounts.map Account.entries = batches ∧
          (∀ account ∈ session.accounts, account.result = .ok ()) ∧
          (readValid session.volume path).1 = .ok (entries ++ batches.flatten) := by
  obtain ⟨location, id, hfind, rfl⟩ := Volume.exists_file hfile
  obtain ⟨repaired, hrepair, hrefills, hbytes⟩ :=
    repair_faultless (E := E) hfaultless hsound hfind
  have hquiet := hrefills.faultless hfaultless
  have hhosts := hrefills.hosts (hsound.hosts hfind)
  have hwhole := Scan.whole_take (E := E) (volume.content id).bytes
  rw [← hbytes] at hwhole
  obtain ⟨place, hfound⟩ := hhosts.find
  refine ⟨_, _, repaired, Scan.longestWhole _, hrepair, ?_, readValid_found hfaultless hfind, ?_,
    ⟨_, repair_whole hquiet hfound hwhole⟩, fun synced batches => ?_⟩
  · rw [hhosts.contentAt?, hbytes]
  · rw [readValid_found hquiet hfound, hwhole.validEntries_eq]
  · obtain ⟨hopened, hnone⟩ := Session.holds_open hquiet hhosts hwhole synced
    obtain ⟨hholds, accounts, haccounts, hbatches, hresults⟩ := hopened.stores batches
    rw [hnone, List.nil_append] at haccounts
    intro session
    have hsession : session.accounts = accounts := haccounts
    rw [hsession]
    exact ⟨hbatches, hresults, hholds.readValid⟩

/-- A record behind an empty line goes, and the next one takes its place. -/
theorem record_behind_an_empty_line_is_cut_off :
    let first : MessageEntry := ⟨⟨"a", "b"⟩, false, none, some [1, 2], ⟨5, 0⟩⟩
    let second : MessageEntry := ⟨⟨"a", "c"⟩, true, some 7, none, ⟨5, 1⟩⟩
    let third : MessageEntry := ⟨⟨"a", "c"⟩, true, some 8, none, ⟨6, 0⟩⟩
    let volume := Volume.holding "messages.jsonl"
      (Record.line first ++ ([] ++ [0x0A] ++ Record.line second))
    ∃ repaired, repair MessageEntry volume "messages.jsonl" =
        (.ok (1 + (Record.line second).length), repaired) ∧
      repaired.contentAt? "messages.jsonl" = some (Record.line first) ∧
      (readValid (Session.after repaired "messages.jsonl"
        [.open true, .store 0 [third]]).volume "messages.jsonl").1 = .ok [first, third] := by
  intro first second third volume
  have hsound : volume.Sound := Volume.sound_holding _ _
  have hfile : volume.contentAt? "messages.jsonl" =
      some (Record.line first ++ ([] ++ [0x0A] ++ Record.line second)) := by
    rw [(hsound.hosts (Volume.find_messages _)).contentAt?]
    exact congrArg some (Content.bytes_ofBytes _)
  obtain ⟨size, entries, repaired, hlongest, hrepair, hcontent, -, -, -, hstore⟩ :=
    repair_keeps_the_longest_prefix (E := MessageEntry) (fun _ => rfl) hsound hfile
  have hbad : Scan.Stuck MessageEntry ([] ++ [0x0A] ++ Record.line second) := by
    refine Scan.stuck_of_line List.not_mem_nil (fun entry hspells => ?_) _
    obtain ⟨record, hparse, -⟩ := hspells
    contradiction
  obtain ⟨rfl, rfl⟩ :=
    hlongest.unique (.of_stuck (Scan.whole_line first) hbad)
  refine ⟨repaired, ?_, ?_, (hstore true [[third]]).2.2⟩
  · rw [hrepair, List.length_append, Nat.add_sub_cancel_left, List.length_append]
    rfl
  · rw [hcontent, List.take_left]

end Journal
end MessageStore
