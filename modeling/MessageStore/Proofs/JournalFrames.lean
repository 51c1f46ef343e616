import MessageStore.Proofs.RepairFaults

/-!
# What is left alone

Whoever works on the journal at a path, and be it in vain, adds directories and
at most one file to the volume.  No file has another content afterwards but the
one that the path leads to then.  So a name beside it in one directory keeps its
file, whichever step fails.
-/

namespace MessageStore

namespace Volume

variable {volume later latest : Volume} {path : String} {location : Location} {id : Nat}

/-- Of the files that a volume has later, only the one that the path leads to then
may be new or have another content. -/
structure Tends (volume later : Volume) (path : String) : Prop where
  within : volume.tree.Within later.tree
  size_le : volume.contents.size ≤ later.contents.size
  sound : volume.Sound → later.Sound
  files : ∀ location id, later.tree.node? location = some (.file id) →
    volume.tree.node? location = some (.file id) ∨
      volume.contents.size ≤ id ∧ later.tree.find path = .ok (location, .file id)
  contents : ∀ id, later.content id = volume.content id ∨
    ∃ location, later.tree.find path = .ok (location, .file id)

namespace Tends

theorem trans (hfirst : volume.Tends later path) (hsecond : later.Tends latest path) :
    volume.Tends latest path where
  within := hfirst.within.trans hsecond.within
  size_le := Nat.le_trans hfirst.size_le hsecond.size_le
  sound := hsecond.sound ∘ hfirst.sound
  files location id hfile := by
    rcases hsecond.files location id hfile with hfile | ⟨hnew, hfind⟩
    · exact (hfirst.files location id hfile).imp_right fun ⟨hnew, hfind⟩ =>
        ⟨hnew, (hsecond.within.find path).eq_of_ok hfind⟩
    · exact .inr ⟨Nat.le_trans hfirst.size_le hnew, hfind⟩
  contents id := by
    rcases hsecond.contents id with hsame | hfind
    · rw [hsame]
      exact (hfirst.contents id).imp_right fun ⟨location, hfind⟩ =>
        ⟨location, (hsecond.within.find path).eq_of_ok hfind⟩
    · exact .inr hfind

theorem operations (volume : Volume) (count : Nat) (path : String) :
    volume.Tends { volume with operations := count } path where
  within := .refl _
  size_le := Nat.le_refl _
  sound hsound := hsound
  files _ _ := .inl
  contents _ := .inl rfl

/-- Making directories changes no file, even if it ends with an error. -/
theorem makeDirectories (volume : Volume) (paths : List String) (path : String) :
    volume.Tends (volume.makeDirectories paths).2 path := by
  simp only [Volume.makeDirectories, operate]
  split
  next => exact .operations volume _ path
  next =>
    have hextended := volume.tree.makeDirectories_extended paths
    exact ⟨hextended.toWithin, Nat.le_refl _, fun hsound => hsound.extended hextended _,
      fun location id hfile => .inl (hextended.files location id hfile), fun _ => .inl rfl⟩

theorem fileFor (volume : Volume) (path : String) : volume.Tends (volume.fileFor path).2 path := by
  cases hfile : volume.fileFor path with
  | mk result made =>
      cases result with
      | error error =>
          rw [Volume.fileFor] at hfile
          split at hfile
          next =>
            cases hfile
            exact .operations volume volume.operations path
          next => simp at hfile
          next => simp at hfile
      | ok id =>
          obtain ⟨directory, name, found, hplaces, ⟨rfl, rfl⟩ | ⟨rfl, rfl, rfl⟩⟩ :=
            fileFor_places hfile
          · exact .operations made made.operations path
          · have hfind := (hplaces.insert volume.contents.size).find
            have hfree := Tree.node?_of_lookup hplaces.standing
            refine ⟨.insert hfree _, by simp [createFile], fun hsound => hsound.fileFor hfile, ?_,
              ?_⟩
            · intro location id hstands
              by_cases hsame : name :: directory = location
              · subst hsame
                rw [createFile, Tree.node?_insert_self _ (List.cons_ne_nil _ _), Option.some.injEq,
                  Node.file.injEq] at hstands
                subst hstands
                exact .inr ⟨Nat.le_refl _, hfind⟩
              · rw [createFile, Tree.node?_insert_of_ne _ hsame] at hstands
                exact .inl hstands
            · intro id
              left
              simp only [Volume.content, createFile, Array.getElem?_push]
              split
              next hlast => simp [hlast]
              next => rfl

theorem openForAppend (volume : Volume) (path : String) :
    volume.Tends (volume.openForAppend path).2 path := by
  simp only [Volume.openForAppend, operate]
  split
  next => exact .operations volume _ path
  next => exact (operations volume _ path).trans (.fileFor _ path)

end Tends

/-- Whoever only changes the file that a path leads to tends the path. -/
theorem Refills.tends (hrefills : volume.Refills later id)
    (hfind : volume.tree.find path = .ok (location, .file id)) : volume.Tends later path where
  within := hrefills.tree ▸ .refl _
  size_le := Nat.le_of_eq hrefills.size.symm
  sound := hrefills.sound
  files _ _ hfile := .inl (hrefills.tree ▸ hfile)
  contents other := by
    by_cases hsame : other = id
    · exact .inr ⟨location, by rw [hrefills.tree, hsame, hfind]⟩
    · exact .inl (hrefills.others other hsame)

/-- To look at a path and to read what it leads to changes nothing. -/
theorem fileSize_counts (volume : Volume) (path : String) :
    ∃ result count, volume.fileSize path = (result, { volume with operations := count }) := by
  simp only [fileSize, operate]
  split
  next => exact ⟨_, _, rfl⟩
  next => split <;> exact ⟨_, _, rfl⟩

theorem fileSize_eq_ok {size : Nat} {looked : Volume}
    (hlook : volume.fileSize path = (.ok size, looked)) :
    volume.faults volume.operations = none ∧ ∃ place, volume.tree.find path = .ok place := by
  simp only [fileSize, operate] at hlook
  split at hlook
  next => simp at hlook
  next hquiet =>
    refine ⟨hquiet, ?_⟩
    split at hlook
    next hfind => exact ⟨_, hfind⟩
    next hfind => exact ⟨_, hfind⟩
    next => simp at hlook

theorem read_counts (volume : Volume) (path : String) :
    ∃ result count, volume.read path = (result, { volume with operations := count }) := by
  simp only [read, operate]
  split
  next => exact ⟨_, _, rfl⟩
  next =>
    split
    next => exact ⟨_, _, rfl⟩
    next => exact ⟨_, _, rfl⟩
    next => split <;> exact ⟨_, _, rfl⟩

end Volume

namespace Journal

variable {E : Type} [TableEntry E] {volume later : Volume} {path : String}

theorem open_tends (volume : Volume) (path : String) (synced : Bool) :
    volume.Tends («open» volume path synced).2 path := by
  have hmakes := Volume.Tends.makeDirectories volume (Path.above path) path
  rw [«open»]
  split
  next error made hmade =>
    rw [hmade] at hmakes
    exact hmakes
  next made hmade =>
    rw [hmade] at hmakes
    have hopens := Volume.Tends.openForAppend made path
    split
    next error last hopen =>
      rw [hopen] at hopens
      exact hmakes.trans hopens
    next file last hopen =>
      rw [hopen] at hopens
      exact hmakes.trans hopens

theorem cutTo_tends (hsound : volume.Sound) (path : String) (size : Nat) :
    volume.Tends (cutTo volume path size).2 path := by
  cases hfind : volume.tree.find path with
  | ok found =>
      obtain ⟨location, directory | id⟩ := found
      · simp only [cutTo, Volume.openForWriting, Volume.operate, hfind]
        cases volume.faults volume.operations with
        | some fault => exact .operations volume _ path
        | none => exact .operations volume _ path
      · obtain ⟨result, cut, hcut, hrefills, -⟩ := cutTo_cases hsound hfind size
        rw [hcut]
        exact hrefills.tends hfind
  | error error =>
      simp only [cutTo, Volume.openForWriting, Volume.operate, hfind]
      cases volume.faults volume.operations with
      | some fault => exact .operations volume _ path
      | none => exact .operations volume _ path

theorem scan_counts (volume : Volume) (path : String) :
    ∃ result count, scan (E := E) volume path =
      (result, { volume with operations := count }) := by
  obtain ⟨result, count, hread⟩ := volume.read_counts path
  rw [scan, hread]
  cases result with
  | ok reading => exact ⟨_, _, rfl⟩
  | error error =>
      dsimp only
      split <;> exact ⟨_, _, rfl⟩

theorem repair_tends (hsound : volume.Sound) (path : String) :
    volume.Tends (repair E volume path).2 path := by
  obtain ⟨looked, count, hlook⟩ := volume.fileSize_counts path
  rw [repair, hlook]
  cases looked with
  | error error =>
      dsimp only
      split <;> exact .operations volume count path
  | ok size =>
      obtain ⟨found, more, hscan⟩ :=
        scan_counts (E := E) { volume with operations := count } path
      have hcounted := Volume.Tends.operations volume more path
      simp only [hscan]
      cases found with
      | error error => exact hcounted
      | ok scan =>
          dsimp only
          split
          next => exact hcounted
          next =>
            have hcuts := hcounted.trans (cutTo_tends (hcounted.sound hsound) path scan.valid)
            split
            next error cut hcut =>
              rw [hcut] at hcuts
              exact hcuts
            next cut hcut =>
              rw [hcut] at hcuts
              exact hcuts

theorem openRepaired_tends (hsound : volume.Sound) (config : Config) (path : String) :
    volume.Tends (openRepaired E config volume path).2 path := by
  have hrepairs := repair_tends (E := E) hsound path
  rw [openRepaired]
  split
  next cause repaired hrepair =>
    rw [hrepair] at hrepairs
    exact hrepairs
  next removed repaired hrepair =>
    rw [hrepair] at hrepairs
    have hopens := open_tends repaired path config.storage.synced
    split
    next cause opened hopen =>
      rw [hopen] at hopens
      exact hrepairs.trans hopens
    next journal opened hopen =>
      rw [hopen] at hopens
      exact hrepairs.trans hopens

end Journal

/-! ## The name beside -/

/-- A path whose last name is found ends in that name, in the directory where a path
with another last name ends. -/
theorem Tree.find_beside {tree : Tree} {directory name other : String} {location place : Location}
    {id file : Nat} (hname : Path.IsPlain name) (hother : Path.IsPlain other)
    (hsize : other.utf8ByteSize = name.utf8ByteSize)
    (hfind : tree.find (Path.join directory name) = .ok (location, .file id))
    (hfindOther : tree.find (Path.join directory other) = .ok (place, .file file)) :
    ∃ here, location = name :: here ∧ place = other :: here := by
  obtain ⟨here, first, hplaces⟩ := exists_places_of_find hfind
  obtain ⟨there, second, hplacesOther⟩ := exists_places_of_find hfindOther
  obtain ⟨rfl, rfl, rfl⟩ := hplaces.beside hname hother hsize hplacesOther
  rw [hplaces.find] at hfind
  rw [hplacesOther.find] at hfindOther
  cases hfind
  cases hfindOther
  exact ⟨there, rfl, rfl⟩

namespace Volume

variable {volume later : Volume} {path directory name other : String}

/-- No file has both names in one directory. -/
def Distinct (volume : Volume) (name other : String) : Prop :=
  ∀ here id, volume.tree.node? (name :: here) = some (.file id) →
    volume.tree.node? (other :: here) ≠ some (.file id)

theorem Distinct.symm (hdistinct : volume.Distinct name other) : volume.Distinct other name :=
  fun here id hother hname => hdistinct here id hname hother

/-- Nothing was done to the file at a path: it is where it was, and no other one has
come into its place. -/
structure Spares (volume later : Volume) (path : String) : Prop where
  stays : ∀ location id, volume.tree.find path = .ok (location, .file id) →
    later.tree.find path = .ok (location, .file id)
  same : ∀ location id, later.tree.find path = .ok (location, .file id) →
    id < volume.contents.size ∧ later.content id = volume.content id

theorem Tends.distinct (htends : volume.Tends later path) (hsound : volume.Sound)
    (hne : name ≠ other) (hdistinct : volume.Distinct name other) : later.Distinct name other := by
  intro here id hfile hfileOther
  rcases htends.files _ id hfile with hold | ⟨hnew, hfind⟩
  · rcases htends.files _ id hfileOther with holdOther | ⟨hnew, -⟩
    · exact hdistinct here id hold holdOther
    · exact absurd (hsound _ id hold) (Nat.not_lt_of_le hnew)
  · rcases htends.files _ id hfileOther with holdOther | ⟨-, hfindOther⟩
    · exact absurd (hsound _ id holdOther) (Nat.not_lt_of_le hnew)
    · rw [hfind] at hfindOther
      cases hfindOther
      exact hne rfl

/-- Work on the file of one name spares that of the other. -/
theorem Tends.spares (htends : volume.Tends later (Path.join directory name))
    (hsound : volume.Sound) (hname : Path.IsPlain name) (hother : Path.IsPlain other)
    (hsize : other.utf8ByteSize = name.utf8ByteSize) (hne : name ≠ other)
    (hdistinct : volume.Distinct name other) :
    volume.Spares later (Path.join directory other) where
  stays _ _ := (htends.within.find _).eq_of_ok
  same place id hfind := by
    have hapart := htends.distinct hsound hne hdistinct
    -- The file of the one name is not that of the other, so it is none that was changed.
    have helsewhere : ∀ location, later.tree.find (Path.join directory name) ≠
        .ok (location, .file id) := by
      intro location hthere
      obtain ⟨here, rfl, rfl⟩ := Tree.find_beside hname hother hsize hthere hfind
      exact hapart here id (Tree.node?_of_find hthere) (Tree.node?_of_find hfind)
    constructor
    · rcases htends.files place id (Tree.node?_of_find hfind) with hold | ⟨-, hthere⟩
      · exact hsound place id hold
      · exact absurd hthere (helsewhere place)
    · rcases htends.contents id with hsame | ⟨location, hthere⟩
      · exact hsame
      · exact absurd hthere (helsewhere location)

end Volume

end MessageStore
