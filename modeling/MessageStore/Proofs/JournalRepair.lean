import MessageStore.Command.Publish
import MessageStore.Proofs.JournalFile
import MessageStore.Proofs.LongestPrefix

/-!
# Repairing a journal before it is opened

A writer repairs its journal and then opens it.  Whatever octets were at its
path, the file then holds their valid prefix and nothing else, and every other
file is as it was.  How a journal opens depends on the tree of its volume and
on how many files there are, so a repair makes no difference to it.
-/

namespace MessageStore

theorem Tree.node?_of_find {tree : Tree} {path : String} {location : Location} {id : Nat}
    (hfind : tree.find path = .ok (location, .file id)) :
    tree.node? location = some (.file id) := by
  unfold Tree.find at hfind
  cases hresolve : tree.resolve path with
  | error error =>
      rw [hresolve] at hfind
      contradiction
  | ok ending =>
      rw [hresolve] at hfind
      cases ending with
      | directory => simp [bind, Except.bind, pure, Except.pure] at hfind
      | entry directory name =>
          cases hentry : tree.entry? directory name with
          | error error =>
              simp [bind, Except.bind, hentry] at hfind
          | ok node =>
              have hnode := Tree.node?_of_lookup hentry
              simp only [bind, Except.bind, hentry] at hfind
              split at hfind
              next => contradiction
              next => simp [pure, Except.pure] at hfind
              next found =>
                split at hfind
                next => contradiction
                next =>
                  simp only [pure, Except.pure, Except.ok.injEq, Prod.mk.injEq,
                    Node.file.injEq] at hfind
                  obtain ⟨rfl, rfl⟩ := hfind
                  exact hnode

namespace Volume

/-- Only the content of one file has changed, and none came or went. -/
structure Refills (volume later : Volume) (id : Nat) : Prop where
  tree : later.tree = volume.tree
  size : later.contents.size = volume.contents.size
  faults : later.faults = volume.faults
  others : ∀ other, other ≠ id → later.content other = volume.content other

namespace Refills

variable {volume later latest : Volume} {path : String} {id file : Nat}

theorem operations (volume : Volume) (count id : Nat) :
    volume.Refills { volume with operations := count } id :=
  ⟨rfl, rfl, rfl, fun _ _ => rfl⟩

theorem setContent (volume : Volume) (id : Nat) (content : Content) :
    volume.Refills (volume.setContent id content) id where
  tree := rfl
  size := by simp [Volume.setContent]
  faults := rfl
  others other hother := by
    simp [Volume.content, Volume.setContent, Array.getElem?_setIfInBounds_ne hother.symm]

theorem trans (hfirst : volume.Refills later id) (hsecond : later.Refills latest id) :
    volume.Refills latest id where
  tree := hsecond.tree.trans hfirst.tree
  size := hsecond.size.trans hfirst.size
  faults := hsecond.faults.trans hfirst.faults
  others other hother := (hsecond.others other hother).trans (hfirst.others other hother)

theorem faultless (hrefills : volume.Refills later id) (hfaultless : volume.Faultless) :
    later.Faultless := by
  intro operation
  rw [hrefills.faults]
  exact hfaultless operation

theorem sound (hrefills : volume.Refills later id) (hsound : volume.Sound) : later.Sound := by
  intro location id hfile
  rw [hrefills.tree] at hfile
  rw [hrefills.size]
  exact hsound location id hfile

theorem hosts (hrefills : volume.Refills later id) (hhosts : volume.Hosts path file) :
    later.Hosts path file := by
  obtain ⟨hplaces, hdirectories, hinside⟩ := hhosts
  refine ⟨?_, ?_, ?_⟩
  · rwa [hrefills.tree]
  · rwa [hrefills.tree]
  · rwa [hrefills.size]

/-- What another path leads to is still there. -/
theorem contentAt? (hrefills : volume.Refills later id)
    (hother : ∀ location, volume.tree.find path ≠ .ok (location, .file id)) :
    later.contentAt? path = volume.contentAt? path := by
  rw [Volume.contentAt?, Volume.contentAt?, hrefills.tree]
  split
  next location file hfind =>
    rw [hrefills.others file fun hsame => hother location (hsame ▸ hfind)]
  next => rfl

end Refills

theorem Sound.inside {volume : Volume} {path : String} {location : Location} {id : Nat}
    (hsound : volume.Sound) (hfind : volume.tree.find path = .ok (location, .file id)) :
    id < volume.contents.size :=
  hsound location id (Tree.node?_of_find hfind)

/-- Which file a path gets is decided by the tree and the number of files. -/
theorem Refills.fileFor {volume later made : Volume} {path : String} {id other : Nat}
    (hrefills : volume.Refills later other) (hfile : volume.fileFor path = (.ok id, made)) :
    ∃ remade, later.fileFor path = (.ok id, remade) ∧ remade.tree = made.tree ∧
      remade.contents.size = made.contents.size ∧ remade.faults = made.faults := by
  rw [Volume.fileFor] at hfile
  rw [Volume.fileFor, hrefills.tree]
  split at hfile
  next => simp at hfile
  next location found hplace =>
    cases hfile
    exact ⟨later, rfl, hrefills.tree, hrefills.size, hrefills.faults⟩
  next location hplace =>
    cases hfile
    refine ⟨(later.createFile location).2, ?_, ?_, ?_, hrefills.faults⟩
    · simp [createFile, hrefills.size]
    · simp [createFile, hrefills.tree, hrefills.size]
    · simp [createFile, hrefills.size]

theorem Sound.fileFor {volume made : Volume} {path : String} {id : Nat} (hsound : volume.Sound)
    (hfile : volume.fileFor path = (.ok id, made)) : made.Sound := by
  rw [Volume.fileFor] at hfile
  split at hfile
  next => simp at hfile
  next => cases hfile; exact hsound
  next place hplace =>
    cases hfile
    intro location id hnode
    simp only [Array.size_push] at hnode ⊢
    by_cases hsame : place = location
    · subst hsame
      by_cases hroot : place = []
      · simp [Tree.node?, hroot] at hnode
      · rw [Tree.node?_insert_self _ hroot, Option.some.injEq, Node.file.injEq] at hnode
        omega
    · rw [Tree.node?_insert_of_ne _ hsame] at hnode
      exact Nat.lt_succ_of_lt (hsound location id hnode)

section

variable {volume : Volume} {path : String} {location : Location} {id : Nat}

/-- What is got of octets by reading them, with the fault that this meets. -/
def readingOf (bytes : Bytes) : Option Fault → Reading
  | some fault => ⟨bytes.take fault.progress, some (.system fault.kind)⟩
  | none => ⟨bytes, none⟩

theorem readingOf_prefix (bytes : Bytes) (fault : Option Fault) :
    (readingOf bytes fault).bytes <+: bytes := by
  cases fault with
  | none => exact List.prefix_rfl
  | some fault => exact List.take_prefix _ _

theorem fileSize_found (hfind : volume.tree.find path = .ok (location, .file id))
    (hlook : volume.faults volume.operations = none) :
    volume.fileSize path = (.ok (volume.content id).bytes.length,
      { volume with operations := volume.operations + 1 }) := by
  simp only [fileSize, operate, hlook, hfind, Content.size_eq_length]
  rfl

theorem read_found (hfind : volume.tree.find path = .ok (location, .file id))
    (hopen : volume.faults volume.operations = none) :
    volume.read path =
      (.ok (readingOf (volume.content id).bytes (volume.faults (volume.operations + 1))),
        { volume with operations := volume.operations + 2 }) := by
  simp only [read, operate, hopen, hfind]
  cases volume.faults (volume.operations + 1) with
  | none => rfl
  | some fault => rfl

end

end Volume

namespace Journal

variable {volume later opened : Volume} {path : String} {id : Nat}

/-- The journal at a path opens as the file that is there, or as a new one. -/
structure Opens (volume : Volume) (path : String) (id : Nat) (opened : Volume) : Prop where
  opens : ∀ synced, «open» volume path synced =
    (.ok { path, file := some id, synced }, opened)
  found : (∃ location, volume.tree.find path = .ok (location, .file id)) ∨
    volume.tree.find path = .error (.system .notFound) ∧ id = volume.contents.size

/-- Without faults the tree of a volume decides how a journal opens. -/
theorem open_faultless (hfaultless : volume.Faultless) (path : String) (synced : Bool) :
    «open» volume path synced =
      match volume.tree.makeDirectories (Path.above path) with
      | (.error error, tree) =>
        (.error (.io error), { volume with tree, operations := volume.operations + 1 })
      | (.ok (), tree) =>
        match Volume.fileFor { volume with tree, operations := volume.operations + 2 } path with
        | (.error error, made) => (.error (.io error), made)
        | (.ok file, made) => (.ok { path, file := some file, synced }, made) := by
  simp only [«open», Volume.makeDirectories, Volume.openForAppend, Volume.operate,
    hfaultless _]
  rcases volume.tree.makeDirectories (Path.above path) with ⟨error | _, tree⟩
  · rfl
  · rcases hfile : Volume.fileFor { volume with tree, operations := volume.operations + 2 } path
      with ⟨error | file, made⟩
    · simp only [hfaultless (volume.operations + 1), hfile]
    · simp only [hfaultless (volume.operations + 1), hfile]

theorem exists_tree_of_open (hfaultless : volume.Faultless) {synced : Bool}
    (hopen : «open» volume path synced = (.ok { path, file := some id, synced }, opened)) :
    ∃ tree, volume.tree.makeDirectories (Path.above path) = (.ok (), tree) ∧
      Volume.fileFor { volume with tree, operations := volume.operations + 2 } path =
        (.ok id, opened) := by
  rw [open_faultless hfaultless] at hopen
  split at hopen
  next => simp at hopen
  next tree hmade =>
    refine ⟨tree, hmade, ?_⟩
    split at hopen
    next => simp at hopen
    next file made hfile =>
      obtain ⟨hjournal, rfl⟩ := Prod.mk.inj hopen
      simp only [Except.ok.injEq, Journal.mk.injEq, Option.some.injEq] at hjournal
      rw [hfile, hjournal.2.1]

theorem Opens.exists_tree (hfaultless : volume.Faultless)
    (hopens : Opens volume path id opened) :
    ∃ tree, volume.tree.makeDirectories (Path.above path) = (.ok (), tree) ∧
      Volume.fileFor { volume with tree, operations := volume.operations + 2 } path =
        (.ok id, opened) :=
  exists_tree_of_open hfaultless (hopens.opens true)

theorem open_of_tree (hfaultless : volume.Faultless) {tree : Tree}
    (hmade : volume.tree.makeDirectories (Path.above path) = (.ok (), tree))
    (hfile : Volume.fileFor { volume with tree, operations := volume.operations + 2 } path =
      (.ok id, opened)) (synced : Bool) :
    «open» volume path synced = (.ok { path, file := some id, synced }, opened) := by
  rw [open_faultless hfaultless, hmade]
  dsimp only
  rw [hfile]

namespace Opens

theorem hosts (hsound : volume.Sound) (hopens : Opens volume path id opened) :
    opened.Hosts path id ∧ volume.tree.Within opened.tree ∧
      opened.faults = volume.faults ∧ ∀ other, opened.content other = volume.content other := by
  obtain ⟨file, hjournal, hfacts⟩ := open_eq_ok hsound (hopens.opens true)
  simp only [Journal.mk.injEq, Option.some.injEq] at hjournal
  rw [hjournal.2.1]
  exact hfacts

theorem faultless (hfaultless : volume.Faultless) (hsound : volume.Sound)
    (hopens : Opens volume path id opened) : opened.Faultless := by
  intro operation
  rw [(hopens.hosts hsound).2.2.1]
  exact hfaultless operation

theorem sound (hfaultless : volume.Faultless) (hsound : volume.Sound)
    (hopens : Opens volume path id opened) : opened.Sound := by
  obtain ⟨tree, hmade, hfile⟩ := hopens.exists_tree hfaultless
  have hextended := volume.tree.makeDirectories_extended (Path.above path)
  rw [hmade] at hextended
  exact (hsound.extended hextended _).fileFor hfile

/-- A change of a file's content makes no difference to an opening. -/
theorem refilled (hfaultless : volume.Faultless) (hsound : volume.Sound)
    (hopens : Opens volume path id opened) {other : Nat}
    (hrefills : volume.Refills later other) :
    ∃ reopened, Opens later path id reopened ∧ opened.Refills reopened other := by
  obtain ⟨tree, hmade, hfile⟩ := hopens.exists_tree hfaultless
  have hmoved : Volume.Refills { volume with tree, operations := volume.operations + 2 }
      { later with tree, operations := later.operations + 2 } other :=
    ⟨rfl, hrefills.size, hrefills.faults, hrefills.others⟩
  obtain ⟨reopened, hrefile, htree, hsize, hfaults⟩ := hmoved.fileFor hfile
  have hreopens : Opens later path id reopened := by
    refine ⟨open_of_tree (hrefills.faultless hfaultless) ?_ hrefile, ?_⟩
    · rw [hrefills.tree, hmade]
    · rw [hrefills.tree, hrefills.size]
      exact hopens.found
  refine ⟨reopened, hreopens, htree, hsize, hfaults, fun file hfileOther => ?_⟩
  rw [(hopens.hosts hsound).2.2.2, (hreopens.hosts (hrefills.sound hsound)).2.2.2,
    hrefills.others file hfileOther]

end Opens

/-- A journal that was opened before opens without a change. -/
theorem opens_of_hosts (hfaultless : volume.Faultless) (hhosts : volume.Hosts path id) :
    Opens volume path id { volume with operations := volume.operations + 2 } := by
  refine ⟨open_of_tree hfaultless hhosts.directories ?_, Or.inl hhosts.find⟩
  exact (hhosts.operations _).fileFor

/-! ## The repair -/

variable {E : Type} [TableEntry E] {location : Location}

/-- With no faults on the way a file is cut. -/
theorem cutTo_of_none (hsound : volume.Sound)
    (hfind : volume.tree.find path = .ok (location, .file id))
    (hnone : ∀ operation, volume.operations ≤ operation → volume.faults operation = none)
    (size : Nat) :
    ∃ cut, cutTo volume path size = (.ok (), cut) ∧ volume.Refills cut id ∧
      (cut.content id).bytes = (volume.content id).bytes.take size := by
  refine ⟨_, cutTo_found hnone hfind size,
    (Volume.Refills.operations volume _ id).trans (.setContent _ id _), ?_⟩
  rw [Volume.content_setContent, Content.bytes_ofBytes]
  exact hsound.inside hfind

theorem scan_of_none (volume : Volume) (hfind : volume.tree.find path = .ok (location, .file id))
    (hopen : volume.faults volume.operations = none) :
    scan (E := E) volume path =
      (.ok (.ofReading (Volume.readingOf (volume.content id).bytes
          (volume.faults (volume.operations + 1)))),
        { volume with operations := volume.operations + 2 }) := by
  rw [scan, Volume.read_found hfind hopen]

/-- What a repair does at the end of its scan with a file of so many octets. -/
def cutBack (volume : Volume) (path : String) (length size : Nat) :
    Except StoreError Nat × Volume :=
  if length ≤ size then (.ok 0, volume)
  else
    match cutTo volume path size with
    | (.error error, cut) => (.error (.io error), cut)
    | (.ok (), cut) => (.ok (length - size), cut)

theorem cutBack_of_none (volume : Volume) (hsound : volume.Sound)
    (hfind : volume.tree.find path = .ok (location, .file id))
    (hnone : ∀ operation, volume.operations ≤ operation → volume.faults operation = none)
    (size : Nat) :
    ∃ cut, cutBack volume path (volume.content id).bytes.length size =
        (.ok ((volume.content id).bytes.length - size), cut) ∧ volume.Refills cut id ∧
      (cut.content id).bytes = (volume.content id).bytes.take size := by
  rw [cutBack]
  split
  next hfits =>
    refine ⟨volume, ?_, .operations volume volume.operations id,
      (List.take_of_length_le hfits).symm⟩
    rw [Nat.sub_eq_zero_of_le hfits]
  next =>
    obtain ⟨cut, hcut, hrefills, hbytes⟩ :=
      cutTo_of_none hsound hfind hnone size
    rw [hcut]
    exact ⟨cut, rfl, hrefills, hbytes⟩

/-- How far a repair that could open the file keeps it is decided by the octets it
got. -/
theorem repair_of_reading (hfind : volume.tree.find path = .ok (location, .file id))
    (hlook : volume.faults volume.operations = none)
    (hopen : volume.faults (volume.operations + 1) = none) :
    repair E volume path =
      cutBack { volume with operations := volume.operations + 3 } path
        (volume.content id).bytes.length
        (Scan.validSize E (Volume.readingOf (volume.content id).bytes
          (volume.faults (volume.operations + 2))).bytes) := by
  have hcounted : Volume.faults { volume with operations := volume.operations + 1 }
      (volume.operations + 1) = none := hopen
  have hscan := scan_of_none (E := E) { volume with operations := volume.operations + 1 }
    hfind hcounted
  rw [repair, Volume.fileSize_found hfind hlook]
  simp only [hscan, Scan.valid_ofReading]
  rfl

theorem repair_faultless (hfaultless : volume.Faultless) (hsound : volume.Sound)
    (hfind : volume.tree.find path = .ok (location, .file id)) :
    ∃ repaired, repair E volume path = (.ok ((volume.content id).bytes.length -
          Scan.validSize E (volume.content id).bytes), repaired) ∧
      volume.Refills repaired id ∧
      (repaired.content id).bytes =
        (volume.content id).bytes.take (Scan.validSize E (volume.content id).bytes) := by
  have hrepair := repair_of_reading (E := E) hfind (hfaultless _) (hfaultless _)
  rw [hfaultless] at hrepair
  obtain ⟨repaired, hcut, hrefills, hbytes⟩ := cutBack_of_none
    { volume with operations := volume.operations + 3 } hsound hfind
    (fun operation _ => hfaultless operation) (Scan.validSize E (volume.content id).bytes)
  exact ⟨repaired, hrepair.trans hcut, (Volume.Refills.operations volume _ id).trans hrefills,
    hbytes⟩

/-- A repair cuts the file at the path down to its valid prefix. -/
theorem repair_found (hfaultless : volume.Faultless) (hsound : volume.Sound)
    (hfind : volume.tree.find path = .ok (location, .file id)) {entries : List E}
    (hvalid : Scan.ValidPrefix (volume.content id).bytes entries) :
    ∃ removed repaired, repair E volume path = (.ok removed, repaired) ∧
      volume.Refills repaired id ∧ Scan.Whole (repaired.content id).bytes entries := by
  obtain ⟨repaired, hrepair, hrefills, hbytes⟩ :=
    repair_faultless (E := E) hfaultless hsound hfind
  refine ⟨_, repaired, hrepair, hrefills, ?_⟩
  rw [hbytes, ← hvalid.validEntries_eq]
  exact Scan.whole_take _

theorem repair_missing (hfaultless : volume.Faultless)
    (hfind : volume.tree.find path = .error (.system .notFound)) :
    repair E volume path = (.ok 0, { volume with operations := volume.operations + 1 }) := by
  simp only [repair, Volume.fileSize, Volume.operate, hfaultless _, hfind]
  rfl

/-- Whatever octets were at the path, the file that a writer gets holds their
valid prefix. -/
theorem openRepaired_eq (hfaultless : volume.Faultless) (hsound : volume.Sound)
    {config : Config} (hroom : Room.forBatch config.writer = .ok ())
    (hopens : Opens volume path id opened) {entries : List E}
    (hvalid : Scan.ValidPrefix ((volume.contentAt? path).getD []) entries) :
    ∃ ready, openRepaired E config volume path =
        (.ok { path, file := some id, synced := config.storage.synced }, ready) ∧
      opened.Refills ready id ∧ Scan.Whole (ready.content id).bytes entries := by
  have hrepair : ∃ removed repaired, repair E volume path = (.ok removed, repaired) ∧
      volume.Refills repaired id ∧ Scan.Whole (repaired.content id).bytes entries := by
    rcases hopens.found with ⟨location, hfind⟩ | ⟨hmissing, hnew⟩
    · have hcontent : volume.contentAt? path = some (volume.content id).bytes := by
        rw [Volume.contentAt?, hfind]
      rw [hcontent] at hvalid
      exact repair_found hfaultless hsound hfind hvalid
    · have hcontent : volume.contentAt? path = none := by
        rw [Volume.contentAt?, hmissing]
      rw [hcontent] at hvalid
      obtain rfl := hvalid.unique Scan.Whole.nil.validPrefix
      refine ⟨_, _, repair_missing hfaultless hmissing, .operations volume _ id, ?_⟩
      have hempty : volume.content id = {} := by
        simp [Volume.content, hnew]
      rw [Volume.content_operations, hempty]
      exact .nil
  obtain ⟨removed, repaired, hrepair, hrefills, hwhole⟩ := hrepair
  obtain ⟨ready, hready, hreopened⟩ := hopens.refilled hfaultless hsound hrefills
  refine ⟨ready, ?_, hreopened, ?_⟩
  · simp only [openRepaired, hrepair, hready.opens, hroom]
    rfl
  · rwa [(hready.hosts (hrefills.sound hsound)).2.2.2]

end Journal

end MessageStore
