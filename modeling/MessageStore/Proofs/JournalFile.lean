import MessageStore.Journal.Basic
import MessageStore.Proofs.TreeGrowth
import Mathlib.Tactic

/-!
# The file of a journal

Once a journal has been opened, its path leads to one file for good: every
handle writes to that file, and readers read it.  A call that stores puts a
first part of its lines behind what the file held, all of them if it
succeeds, and without faults it succeeds.
-/

namespace MessageStore

namespace Volume

variable {volume : Volume} {path : String} {id : Nat}

/-- No operation is to fail. -/
def Faultless (volume : Volume) : Prop :=
  ∀ operation, volume.faults operation = none

/-- Every file has a content. -/
def Sound (volume : Volume) : Prop :=
  ∀ location id, volume.tree.node? location = some (.file id) →
    id < volume.contents.size

/-- The file of that number is at a path, with all directories above it. -/
structure Hosts (volume : Volume) (path : String) (id : Nat) : Prop where
  places : ∃ directory name, volume.tree.Places path directory name (some id)
  directories : volume.tree.makeDirectories (Path.above path) = (.ok (), volume.tree)
  inside : id < volume.contents.size

theorem content_setContent (hinside : id < volume.contents.size) (content : Content) :
    (volume.setContent id content).content id = content := by
  simp [Volume.content, setContent, hinside]

@[simp] theorem content_operations (volume : Volume) (id count : Nat) :
    content { volume with operations := count } id = volume.content id :=
  rfl

namespace Hosts

theorem setContent (hhosts : volume.Hosts path id) (content : Content) :
    (volume.setContent id content).Hosts path id where
  places := hhosts.places
  directories := hhosts.directories
  inside := by simpa [Volume.setContent] using hhosts.inside

theorem operations (hhosts : volume.Hosts path id) (count : Nat) :
    Hosts { volume with operations := count } path id :=
  ⟨hhosts.places, hhosts.directories, hhosts.inside⟩

theorem find (hhosts : volume.Hosts path id) :
    ∃ location, volume.tree.find path = .ok (location, .file id) := by
  obtain ⟨directory, name, hplaces⟩ := hhosts.places
  exact ⟨_, hplaces.find⟩

theorem fileFor (hhosts : volume.Hosts path id) :
    volume.fileFor path = (.ok id, volume) := by
  obtain ⟨directory, name, hplaces⟩ := hhosts.places
  rw [Volume.fileFor, hplaces.place]

theorem contentAt? (hhosts : volume.Hosts path id) :
    volume.contentAt? path = some (volume.content id).bytes := by
  obtain ⟨location, hfind⟩ := hhosts.find
  rw [Volume.contentAt?, hfind]

end Hosts

/-! ## Making a place for a file -/

theorem makeDirectories_eq_ok {paths : List String} {made : Volume}
    (hmade : volume.makeDirectories paths = (.ok (), made)) :
    (volume.tree.makeDirectories paths).1 = .ok () ∧
      made = { volume with
        tree := (volume.tree.makeDirectories paths).2
        operations := volume.operations + 1 } := by
  simp only [Volume.makeDirectories, operate] at hmade
  split at hmade
  next => simp at hmade
  next =>
    obtain ⟨hresult, rfl⟩ := Prod.mk.inj hmade
    exact ⟨hresult, rfl⟩

theorem Sound.extended (hsound : volume.Sound) {tree : Tree}
    (hextended : volume.tree.Extended tree) (count : Nat) :
    Sound { volume with tree, operations := count } :=
  fun location id hfile => hsound location id (hextended.files location id hfile)

theorem sound_workingIn (path : String) : (workingIn path).Sound := by
  have hempty : Sound {} := by
    intro location id hfile
    unfold Tree.node? at hfile
    split at hfile
    next => simp at hfile
    next => simp at hfile
  have hmade : (withDirectory {} path).Sound :=
    hempty.extended (Tree.makeDirectories_extended _ _) 0
  unfold workingIn
  dsimp only
  split
  next => exact hmade
  next => exact hmade

theorem faultless_workingIn (path : String) : (workingIn path).Faultless := by
  intro operation
  unfold workingIn
  dsimp only
  split
  next => rfl
  next => rfl

theorem fileFor_eq_ok (hsound : volume.Sound) {made : Volume}
    (hfile : volume.fileFor path = (.ok id, made)) :
    (∃ directory name, made.tree.Places path directory name (some id)) ∧
      volume.tree.Within made.tree ∧ id < made.contents.size ∧
      made.faults = volume.faults ∧
      ∀ other, made.content other = volume.content other := by
  rw [fileFor] at hfile
  split at hfile
  next => simp at hfile
  next location found hplace =>
    cases hfile
    obtain ⟨directory, name, -, hplaces⟩ := Tree.exists_places hplace
    have hthere := Tree.node?_of_lookup hplaces.standing
    exact ⟨⟨directory, name, hplaces⟩, .refl _, hsound _ _ hthere, rfl, fun _ => rfl⟩
  next location hplace =>
    cases hfile
    obtain ⟨directory, name, rfl, hplaces⟩ := Tree.exists_places hplace
    have hfree := Tree.node?_of_lookup hplaces.standing
    refine ⟨⟨directory, name, hplaces.insert _⟩, .insert hfree _, ?_, rfl, ?_⟩
    · simp
    · intro other
      -- The new file is empty, as one that is not there is taken to be.
      simp only [Volume.content, Array.getElem?_push]
      split
      next hlast => simp [hlast]
      next => rfl

/-! ## Writing and reading -/

/-- The file was kept, and octets were written behind what it held. -/
structure Gains (volume after : Volume) (path : String) (id : Nat) (written : Bytes) :
    Prop where
  hosts : after.Hosts path id
  bytes : (after.content id).bytes = (volume.content id).bytes ++ written
  faults : after.faults = volume.faults

theorem Gains.none (hhosts : volume.Hosts path id) (count : Nat) :
    Gains volume { volume with operations := count } path id [] :=
  ⟨hhosts.operations count, (List.append_nil _).symm, rfl⟩

theorem Gains.operations {after : Volume} {written : Bytes}
    (hgains : Gains volume after path id written) (count : Nat) :
    Gains volume { after with operations := count } path id written :=
  ⟨hgains.hosts.operations count, hgains.bytes, hgains.faults⟩

theorem append_of_none (hhosts : volume.Hosts path id)
    (hnone : volume.faults volume.operations = none) (bytes : Bytes) :
    ∃ after, volume.append id bytes = (.ok (), after) ∧ Gains volume after path id bytes ∧
      after.operations = volume.operations + 1 := by
  have hcounted := hhosts.operations (volume.operations + 1)
  simp only [Volume.append, operate, hnone]
  refine ⟨_, rfl, ⟨hcounted.setContent _, ?_, rfl⟩, rfl⟩
  rw [content_setContent hcounted.inside, Content.bytes_append]
  rfl

/-- A fault lets the first octets through. -/
theorem append_of_fault (hhosts : volume.Hosts path id) {fault : Fault}
    (hfault : volume.faults volume.operations = some fault) (bytes : Bytes) :
    ∃ after, volume.append id bytes = (.error (.system fault.kind), after) ∧
      Gains volume after path id (bytes.take fault.progress) ∧
      after.operations = volume.operations + 1 := by
  have hcounted := hhosts.operations (volume.operations + 1)
  simp only [Volume.append, operate, hfault]
  refine ⟨_, rfl, ⟨hcounted.setContent _, ?_, rfl⟩, rfl⟩
  rw [content_setContent hcounted.inside, Content.bytes_append]
  rfl

end Volume

namespace Journal

variable {volume : Volume} {path : String} {id : Nat}

/-! ## Opening -/

/-- Opening a journal that was opened before changes no file. -/
theorem open_hosted (hhosts : volume.Hosts path id) (synced : Bool) :
    ∃ result count, «open» volume path synced =
        (result, { volume with operations := count }) ∧
      (result = .ok { path, file := some id, synced } ∨
        (∃ error, result = .error error) ∧ ¬ volume.Faultless) := by
  have hfile := (hhosts.operations (volume.operations + 2)).fileFor
  simp only [«open», Volume.makeDirectories, Volume.openForAppend, Volume.operate]
  cases hfirst : volume.faults volume.operations with
  | some fault =>
      refine ⟨_, _, rfl, .inr ⟨⟨_, rfl⟩, fun hfaultless => ?_⟩⟩
      simp [hfaultless _] at hfirst
  | none =>
      simp only [hhosts.directories]
      cases hsecond : volume.faults (volume.operations + 1) with
      | some fault =>
          refine ⟨_, _, rfl, .inr ⟨⟨_, rfl⟩, fun hfaultless => ?_⟩⟩
          simp [hfaultless _] at hsecond
      | none =>
          simp only [hfile]
          exact ⟨_, _, rfl, .inl rfl⟩

/-- The first opening of a journal gives its path a file, and leaves the
contents of all files as they are. -/
theorem open_eq_ok (hsound : volume.Sound) {synced : Bool} {journal : Journal}
    {opened : Volume} (hopen : «open» volume path synced = (.ok journal, opened)) :
    ∃ id, journal = { path, file := some id, synced } ∧ opened.Hosts path id ∧
      volume.tree.Within opened.tree ∧ opened.faults = volume.faults ∧
      ∀ other, opened.content other = volume.content other := by
  have hextended := volume.tree.makeDirectories_extended (Path.above path)
  rw [«open»] at hopen
  split at hopen
  next => simp at hopen
  next made hmade =>
    obtain ⟨hdirectories, rfl⟩ := Volume.makeDirectories_eq_ok hmade
    rw [Volume.openForAppend, Volume.operate] at hopen
    dsimp only at hopen
    split at hopen
    next => simp at hopen
    next id opened hfile =>
      cases hopen
      split at hfile
      next => simp at hfile
      next =>
        obtain ⟨hplaces, hwithin, hinside, hfaults, hcontents⟩ :=
          Volume.fileFor_eq_ok (hsound.extended hextended _) hfile
        refine ⟨id, rfl, ⟨hplaces, ?_, hinside⟩, ?_, hfaults, hcontents⟩
        · exact Tree.makeDirectories_again hdirectories hwithin
        · exact hextended.toWithin.trans hwithin

/-! ## Storing -/

theorem append_of_fault {journal : Journal} (hhosts : volume.Hosts path id)
    (hfile : journal.file = some id) {fault : Fault}
    (hfault : volume.faults volume.operations = some fault) (count : Nat) {lines : Bytes}
    (hlines : lines ≠ []) :
    ∃ after, journal.append volume count lines =
        (.error (.io (.system fault.kind)), journal, after) ∧
      volume.Gains after path id (lines.take fault.progress) ∧
      after.operations = volume.operations + 1 := by
  obtain ⟨after, happend, hgains⟩ := Volume.append_of_fault hhosts hfault lines
  refine ⟨after, ?_, hgains⟩
  simp only [append, hfile, happend, if_neg (mt List.isEmpty_iff.mp hlines)]

/-- A journal that does not wait for the medium has stored what is written. -/
theorem append_of_none {journal : Journal} (hhosts : volume.Hosts path id)
    (hfile : journal.file = some id) (hnone : volume.faults volume.operations = none)
    (hsynced : journal.synced = false) (count : Nat) {lines : Bytes} (hlines : lines ≠ []) :
    ∃ after, journal.append volume count lines =
        (.ok (), { journal with
          recordsWritten := journal.recordsWritten + count
          bytesWritten := journal.bytesWritten + lines.length }, after) ∧
      volume.Gains after path id lines ∧ after.operations = volume.operations + 1 := by
  obtain ⟨after, happend, hgains⟩ := Volume.append_of_none hhosts hnone lines
  refine ⟨after, ?_, hgains⟩
  simp only [append, hfile, happend, hsynced, if_neg (mt List.isEmpty_iff.mp hlines)]
  rfl

/-- The lines of a call are all written and counted, or a fault lets the first
octets of them through. -/
theorem append_cases {journal : Journal} (hhosts : volume.Hosts path id)
    (hfile : journal.file = some id) {count : Nat} {lines : Bytes}
    (hcount : lines = [] → count = 0) :
    ∃ result handle after written, journal.append volume count lines =
        (result, handle, after) ∧ volume.Gains after path id written ∧
      ((result = .ok () ∧ written = lines ∧
          handle = { journal with
            recordsWritten := journal.recordsWritten + count
            bytesWritten := journal.bytesWritten + lines.length }) ∨
        (∃ error, result = .error (.io error)) ∧ written <+: lines ∧ handle = journal ∧
          ¬ volume.Faultless) := by
  by_cases hempty : lines = []
  · subst hempty
    refine ⟨.ok (), journal, volume, [], ?_, .none hhosts volume.operations, .inl ⟨rfl, rfl, ?_⟩⟩
    · rw [append, hfile]
      rfl
    · rw [hcount rfl]
      rfl
  · cases hfault : volume.faults volume.operations with
    | some fault =>
        obtain ⟨after, happend, hgains, _⟩ := append_of_fault hhosts hfile hfault count hempty
        refine ⟨_, _, _, _, happend, hgains, .inr ⟨⟨_, rfl⟩, List.take_prefix _ _, rfl, ?_⟩⟩
        exact fun hfaultless => by simp [hfaultless _] at hfault
    | none =>
        cases hsynced : journal.synced with
        | false =>
            obtain ⟨after, happend, hgains, _⟩ :=
              append_of_none hhosts hfile hfault hsynced count hempty
            exact ⟨_, _, _, _, happend, hgains, .inl ⟨rfl, rfl, by rw [hsynced]⟩⟩
        | true =>
            obtain ⟨after, happend, hgains, _⟩ := Volume.append_of_none hhosts hfault lines
            simp only [append, hfile, happend, hsynced, if_neg (mt List.isEmpty_iff.mp hempty),
              if_true, Volume.sync, Volume.operate]
            cases hsync : after.faults after.operations with
            | none => exact ⟨_, _, _, _, rfl, hgains.operations _, .inl ⟨rfl, rfl, rfl⟩⟩
            | some fault =>
                refine ⟨_, _, _, _, rfl, hgains.operations _,
                  .inr ⟨⟨_, rfl⟩, List.prefix_rfl, rfl, fun hfaultless => ?_⟩⟩
                rw [hgains.faults, hfaultless] at hsync
                contradiction

theorem close_cases (journal : Journal) (volume : Volume) :
    ∃ result count, journal.close volume =
      (result, { journal with file := none }, { volume with operations := count }) := by
  obtain ⟨place, file, synced, records, octets⟩ := journal
  cases file with
  | none => exact ⟨_, volume.operations, rfl⟩
  | some id =>
      simp only [close, Volume.sync, Volume.operate]
      cases volume.faults volume.operations with
      | none => exact ⟨_, _, rfl⟩
      | some fault => exact ⟨_, _, rfl⟩

/-! ## Reading -/

variable {E : Type} [TableEntry E]

theorem scan_found (hfaultless : volume.Faultless) {location : Location}
    (hfind : volume.tree.find path = .ok (location, .file id)) :
    scan (E := E) volume path =
      (.ok (.ofReading ⟨(volume.content id).bytes, none⟩),
        { volume with operations := volume.operations + 2 }) := by
  simp only [scan, Volume.read, Volume.operate, hfaultless _, hfind]
  rfl

theorem scan_missing (hfaultless : volume.Faultless)
    (hfind : volume.tree.find path = .error (.system .notFound)) :
    scan (E := E) volume path =
      (.ok .empty, { volume with operations := volume.operations + 1 }) := by
  simp only [scan, Volume.read, Volume.operate, hfaultless _, hfind]
  rfl

theorem cutTo_found {location : Location}
    (hnone : ∀ operation, volume.operations ≤ operation → volume.faults operation = none)
    (hfind : volume.tree.find path = .ok (location, .file id)) (size : Nat) :
    cutTo volume path size = (.ok (), Volume.setContent
      { volume with operations := volume.operations + 3 } id
      (.ofBytes ((volume.content id).bytes.take size))) := by
  simp only [cutTo, Volume.openForWriting, Volume.truncate, Volume.sync, Volume.operate,
    hnone _ (Nat.le_refl _), hfind, hnone (volume.operations + 1) (by omega),
    Volume.setContent, hnone (volume.operations + 1 + 1) (by omega)]
  rfl

theorem cutTo_hosted (hfaultless : volume.Faultless) (hhosts : volume.Hosts path id)
    (size : Nat) :
    ∃ cut, cutTo volume path size = (.ok (), cut) ∧ cut.Faultless ∧ cut.Hosts path id ∧
      (cut.content id).bytes = (volume.content id).bytes.take size := by
  obtain ⟨location, hfind⟩ := hhosts.find
  refine ⟨_, cutTo_found (fun operation _ => hfaultless operation) hfind size, hfaultless, ?_, ?_⟩
  · exact (hhosts.operations _).setContent _
  · rw [Volume.content_setContent (hhosts.operations _).inside, Content.bytes_ofBytes]

end Journal

namespace JournalTable

variable {E : Type} [TableEntry E]

theorem offer_eq (table : JournalTable) (entries : List E) :
    (behaviour E).offer table entries =
      ({ table with lines := (entries.map Record.line).reverse ++ table.lines }, []) := by
  induction entries generalizing table with
  | nil => rfl
  | cons entry entries ih =>
      have hwants : (behaviour E).wants table = true := rfl
      rw [Table.offer, if_pos hwants, ih]
      simp [behaviour]

/-- A call with entries writes their lines at once. -/
theorem store_eq (journal : Journal) (volume : Volume) (entries : List E) :
    (behaviour E).store { journal, volume } entries =
      ((journal.append volume entries.length (entries.flatMap Record.line)).1,
        { journal := (journal.append volume entries.length
            (entries.flatMap Record.line)).2.1
          volume := (journal.append volume entries.length
            (entries.flatMap Record.line)).2.2 }, []) := by
  rw [Table.store, offer_eq]
  simp [behaviour, List.flatMap_def]

end JournalTable

end MessageStore
