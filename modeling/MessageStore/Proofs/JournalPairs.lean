import MessageStore.Proofs.JournalKeeping
import MessageStore.Proofs.PathPieces

/-!
# Two journals on one volume

The two tables have a journal each.  As long as these are two files, whatever
is done to one of them leaves the other one alone: it opens as before, and its
path leads to what it held.  Journals with different names in one directory
are two files, unless the volume had one file under both names before.
-/

namespace MessageStore

theorem Volume.Hosts.within {volume later : Volume} {path : String} {id : Nat}
    (hhosts : volume.Hosts path id) (hwithin : volume.tree.Within later.tree)
    (hsound : later.Sound) : later.Hosts path id := by
  obtain ⟨⟨directory, name, hplaces⟩, hdirectories, -⟩ := hhosts
  have hstays : later.tree.Places path directory name (some id) := by
    refine ⟨(hwithin.resolve path).eq_of_ok hplaces.resolve, hplaces.separator, ?_⟩
    rcases hwithin.lookup directory name with hnone | hsame
    · rw [hplaces.standing] at hnone
      simp at hnone
    · rw [hsame, hplaces.standing]
  refine ⟨⟨directory, name, hstays⟩, ?_, hsound.inside hstays.find⟩
  have hmade : (volume.tree.makeDirectories (Path.above path)).1 = .ok () := by
    rw [hdirectories]
  refine Tree.makeDirectories_again hmade ?_
  rw [hdirectories]
  exact hwithin

/-- What a file gets as its number when its place is looked up, and what that
does to the volume. -/
theorem Volume.fileFor_places {volume made : Volume} {path : String} {id : Nat}
    (hfile : volume.fileFor path = (.ok id, made)) :
    ∃ directory name found, volume.tree.Places path directory name found ∧
      (found = some id ∧ made = volume ∨
        found = none ∧ id = volume.contents.size ∧
          made = (volume.createFile (name :: directory)).2) := by
  rw [fileFor] at hfile
  split at hfile
  next => simp at hfile
  next location found hplace =>
    cases hfile
    obtain ⟨directory, name, rfl, hplaces⟩ := Tree.exists_places hplace
    exact ⟨directory, name, some id, hplaces, .inl ⟨rfl, rfl⟩⟩
  next location hplace =>
    cases hfile
    obtain ⟨directory, name, rfl, hplaces⟩ := Tree.exists_places hplace
    exact ⟨directory, name, none, hplaces, .inr ⟨rfl, rfl, rfl⟩⟩

namespace Tree.Places

variable {tree : Tree} {path directory name other : String} {here there : Location}
  {found foundOther : Option Nat}

theorem find_none (hplaces : tree.Places path here name none) :
    tree.find path = .error (.system .notFound) := by
  simp only [Tree.find, bind, Except.bind, hplaces.resolve, hplaces.standing]
  rfl

theorem beside {first second : String} (hname : Path.IsPlain name) (hother : Path.IsPlain other)
    (hsize : other.utf8ByteSize = name.utf8ByteSize)
    (hplaces : tree.Places (Path.join directory name) here first found)
    (hplacesOther : tree.Places (Path.join directory other) there second foundOther) :
    first = name ∧ second = other ∧ there = here := by
  obtain ⟨walk, hwalk⟩ := tree.exists_walk directory hname
  have hends := hplaces.resolve
  have hendsOther := hplacesOther.resolve
  rw [hwalk name hname rfl] at hends
  rw [hwalk other hother hsize] at hendsOther
  cases walk with
  | error error => contradiction
  | ok place =>
      simp only [Except.map, Except.ok.injEq, Ending.entry.injEq] at hends hendsOther
      exact ⟨hends.2.symm, hendsOther.2.symm, hendsOther.1.symm.trans hends.1⟩

theorem insert_beside (hplaces : tree.Places path here other found) (hne : name ≠ other)
    (hfree : tree.node? (name :: here) = none) (node : Node) :
    (tree.insert (name :: here) node).Places path here other found where
  resolve := ((Within.insert hfree node).resolve path).eq_of_ok hplaces.resolve
  separator := hplaces.separator
  standing := by
    have hbeside : name :: here ≠ other :: here := by simpa using hne
    rw [← hplaces.standing, entry?, entry?, node?_insert_of_ne tree hbeside]

theorem of_name (hname : Path.IsPlain name) (hcheck : Path.check name = .ok ())
    (hstands : tree.entry? tree.workingDirectory name = .ok (found.map Node.file)) :
    tree.Places name tree.workingDirectory name found where
  resolve := tree.resolve_name hname hcheck
  separator := @Path.endsInSeparator_join "" name hname
  standing := hstands

end Tree.Places

/-- When the file of a name is there, the name beside it still has its place.
It does not get the same file, unless both names had it. -/
theorem Volume.fileFor_beside {volume made both : Volume} {directory name other : String}
    {id file : Nat} (hsound : volume.Sound) (hname : Path.IsPlain name)
    (hother : Path.IsPlain other) (hsize : other.utf8ByteSize = name.utf8ByteSize)
    (hne : name ≠ other) (hfile : volume.fileFor (Path.join directory name) = (.ok id, made))
    (hfileOther : volume.fileFor (Path.join directory other) = (.ok file, both))
    (hdistinct : id = file → volume.contents.size ≤ id) :
    ∃ here found, made.tree.Places (Path.join directory other) here other found ∧
      id ≠ found.getD made.contents.size ∧ (volume.contents.size ≤ file → found = none) := by
  obtain ⟨here, first, foundFirst, hplaces, hcases⟩ := fileFor_places hfile
  obtain ⟨there, second, found, hplacesOther, hcasesOther⟩ := fileFor_places hfileOther
  obtain ⟨rfl, rfl, rfl⟩ := hplaces.beside hname hother hsize hplacesOther
  have hknown : ∀ known, found = some known →
      known = file ∧ known < volume.contents.size := by
    rintro known rfl
    obtain ⟨rfl, -⟩ : known = file ∧ _ := by simpa using hcasesOther
    exact ⟨rfl, hsound _ _ (Tree.node?_of_lookup hplacesOther.standing)⟩
  have hnew : volume.contents.size ≤ file → found = none := by
    intro hlarge
    cases found with
    | none => rfl
    | some known =>
        obtain ⟨rfl, hsmall⟩ := hknown known rfl
        omega
  rcases hcases with ⟨rfl, rfl⟩ | ⟨rfl, rfl, rfl⟩
  · refine ⟨there, found, hplacesOther, ?_, hnew⟩
    have hthere := hsound _ _ (Tree.node?_of_lookup hplaces.standing)
    cases found with
    | none => exact Nat.ne_of_lt hthere
    | some known =>
        obtain ⟨rfl, -⟩ := hknown known rfl
        exact fun hsame => absurd (hdistinct hsame) (Nat.not_le_of_lt hthere)
  · refine ⟨there, found,
      hplacesOther.insert_beside hne (Tree.node?_of_lookup hplaces.standing) _, ?_, hnew⟩
    cases found with
    | none => simp [createFile]
    | some known => exact (Nat.ne_of_lt (hknown known rfl).2).symm

namespace Journal

variable {volume later opened : Volume} {first second path : String} {id : Nat}

theorem Opens.unique {other : Nat} {reopened : Volume} (hopens : Opens volume path id opened)
    (hagain : Opens volume path other reopened) : other = id ∧ reopened = opened := by
  have hsame := (hagain.opens true).symm.trans (hopens.opens true)
  simp only [Prod.mk.injEq, Except.ok.injEq, Journal.mk.injEq, Option.some.injEq] at hsame
  exact ⟨hsame.1.2.1, hsame.2⟩

/-- Both journals can be opened, the second one after the first one.  They are
two files, and the first opening has no influence on where the second path
leads to. -/
def Apart (volume : Volume) (first second : String) : Prop :=
  ∃ id opened other both, Opens volume first id opened ∧ Opens opened second other both ∧
    id ≠ other ∧ opened.tree.find second = volume.tree.find second

/-- Two journals that are two files, whichever is opened first. -/
structure Pair (volume : Volume) (first second : String) : Prop where
  apart : Apart volume first second
  apart_symm : Apart volume second first

theorem Pair.symm (hpair : Pair volume first second) : Pair volume second first :=
  ⟨hpair.apart_symm, hpair.apart⟩

theorem Apart.refilled (hfaultless : volume.Faultless) (hsound : volume.Sound)
    (hapart : Apart volume first second) {other : Nat} (hrefills : volume.Refills later other) :
    Apart later first second := by
  obtain ⟨id, opened, file, both, hopens, hopensBoth, hother, hfind⟩ := hapart
  obtain ⟨reopened, hreopens, hopenedRefills⟩ := hopens.refilled hfaultless hsound hrefills
  obtain ⟨last, hlast, -⟩ := hopensBoth.refilled (hopens.faultless hfaultless hsound)
    (hopens.sound hfaultless hsound) hopenedRefills
  refine ⟨id, reopened, file, last, hreopens, hlast, hother, ?_⟩
  rw [hopenedRefills.tree, hrefills.tree, hfind]

/-- After the first opening the first journal is there, and the second one can
still be opened as another file. -/
theorem Apart.pair_of_opens (hfaultless : volume.Faultless) (hsound : volume.Sound)
    (hapart : Apart volume first second) (hopens : Opens volume first id opened) :
    Pair opened first second := by
  obtain ⟨file, reopened, other, both, hreopens, hopensBoth, hother, hfind⟩ := hapart
  obtain ⟨rfl, rfl⟩ := hopens.unique hreopens
  have hquiet := hopens.faultless hfaultless hsound
  have hkept := hopens.sound hfaultless hsound
  have hhosts := (hopens.hosts hsound).1
  obtain ⟨-, hwithin, -, -⟩ := hopensBoth.hosts hkept
  have hbothQuiet := hopensBoth.faultless hquiet hkept
  have hbothKept := hopensBoth.sound hquiet hkept
  have hbothHosts := hhosts.within hwithin hbothKept
  obtain ⟨last, hlast, -⟩ := hopensBoth.refilled hquiet hkept
    (.operations reopened (reopened.operations + 2) file)
  obtain ⟨location, hfound⟩ := hhosts.find
  constructor
  · exact ⟨file, _, other, last, opens_of_hosts hquiet hhosts, hlast, hother, rfl⟩
  · refine ⟨other, both, file, _, hopensBoth, opens_of_hosts hbothQuiet hbothHosts,
      hother.symm, ?_⟩
    rw [(hwithin.find first).eq_of_ok hfound, hfound]

/-- What is done to the first journal leaves the second one alone. -/
theorem Apart.left_alone (hfaultless : volume.Faultless) (hsound : volume.Sound)
    (hapart : Apart volume first second) (hopens : Opens volume first id opened)
    (hrefills : opened.Refills later id) :
    Pair later first second ∧ later.contentAt? second = volume.contentAt? second := by
  have hquiet := hopens.faultless hfaultless hsound
  have hkept := hopens.sound hfaultless hsound
  obtain ⟨hfirst, hsecond⟩ := hapart.pair_of_opens hfaultless hsound hopens
  refine ⟨⟨hfirst.refilled hquiet hkept hrefills, hsecond.refilled hquiet hkept hrefills⟩, ?_⟩
  obtain ⟨file, reopened, other, both, hreopens, hopensBoth, hother, hfind⟩ := hapart
  obtain ⟨rfl, rfl⟩ := hopens.unique hreopens
  have helsewhere : ∀ location, reopened.tree.find second ≠ .ok (location, .file file) := by
    intro location hthere
    rcases hopensBoth.found with ⟨place, hfound⟩ | ⟨hmissing, -⟩
    · rw [hfound] at hthere
      cases hthere
      exact hother rfl
    · rw [hmissing] at hthere
      contradiction
  rw [hrefills.contentAt? helsewhere, Volume.contentAt?, Volume.contentAt?, hfind]
  split
  next location content hfound => rw [(hopens.hosts hsound).2.2.2]
  next => rfl

/-! ## Names in one directory -/

theorem exists_opens (hfaultless : volume.Faultless) {here : Location} {name : String}
    {found : Option Nat} (hplaces : volume.tree.Places path here name found)
    (hmade : volume.tree.makeDirectories (Path.above path) = (.ok (), volume.tree)) :
    ∃ opened, Opens volume path (found.getD volume.contents.size) opened := by
  have hplace := hplaces.place
  obtain ⟨opened, hfile⟩ : ∃ opened,
      Volume.fileFor { volume with operations := volume.operations + 2 } path =
        (.ok (found.getD volume.contents.size), opened) := by
    rw [Volume.fileFor, hplace]
    cases found with
    | none => exact ⟨_, rfl⟩
    | some id => exact ⟨_, rfl⟩
  refine ⟨opened, open_of_tree hfaultless hmade hfile, ?_⟩
  cases found with
  | none => exact .inr ⟨hplaces.find_none, rfl⟩
  | some id => exact .inl ⟨_, hplaces.find⟩

section

variable {directory name other : String} {file : Nat} {both : Volume}

/-- The two paths do not lead to one file. -/
def TwoFiles (volume : Volume) (first second : String) : Prop :=
  ∀ location place id, volume.tree.find first = .ok (location, .file id) →
    volume.tree.find second ≠ .ok (place, .file id)

theorem Opens.found_of_lt (hopens : Opens volume path id opened)
    (hthere : id < volume.contents.size) :
    ∃ location, volume.tree.find path = .ok (location, .file id) := by
  rcases hopens.found with hfound | ⟨-, hnew⟩
  · exact hfound
  · omega

theorem Apart.of_names (hfaultless : volume.Faultless) (hsound : volume.Sound)
    (hname : Path.IsPlain name) (hother : Path.IsPlain other)
    (hsize : other.utf8ByteSize = name.utf8ByteSize) (hne : name ≠ other)
    (hopens : Opens volume (Path.join directory name) id opened)
    (hopensOther : Opens volume (Path.join directory other) file both)
    (htwo : TwoFiles volume (Path.join directory name) (Path.join directory other)) :
    Apart volume (Path.join directory name) (Path.join directory other) := by
  obtain ⟨tree, hmade, hfile⟩ := hopens.exists_tree hfaultless
  obtain ⟨sameTree, hmadeOther, hfileOther⟩ := hopensOther.exists_tree hfaultless
  have habove : Path.above (Path.join directory other) = Path.above (Path.join directory name) :=
    Path.above_join hother hname
  obtain ⟨-, rfl⟩ : Except.ok () = Except.ok () ∧ tree = sameTree := by
    rw [habove, hmade] at hmadeOther
    exact Prod.mk.inj hmadeOther
  have hextended := volume.tree.makeDirectories_extended (Path.above (Path.join directory name))
  rw [hmade] at hextended
  have hdistinct : id = file → volume.contents.size ≤ id := by
    rintro rfl
    by_contra hthere
    obtain ⟨location, hfind⟩ := hopens.found_of_lt (Nat.lt_of_not_le hthere)
    obtain ⟨place, hfindOther⟩ := hopensOther.found_of_lt (Nat.lt_of_not_le hthere)
    exact htwo location place id hfind hfindOther
  obtain ⟨here, found, hstill, hdifferent, hnew⟩ :=
    Volume.fileFor_beside (hsound.extended hextended _) hname hother hsize hne hfile hfileOther
      hdistinct
  obtain ⟨hhosts, hwithin, -⟩ := hopens.hosts hsound
  have hagain : opened.tree.makeDirectories (Path.above (Path.join directory other)) =
      (.ok (), opened.tree) := by
    rw [habove]
    exact hhosts.directories
  obtain ⟨last, hlast⟩ :=
    exists_opens (hopens.faultless hfaultless hsound) hstill hagain
  refine ⟨id, opened, _, last, hopens, hlast, hdifferent, ?_⟩
  rcases hopensOther.found with ⟨location, hfind⟩ | ⟨hmissing, hlargest⟩
  · rw [(hwithin.find _).eq_of_ok hfind, hfind]
  · obtain rfl := hnew (Nat.le_of_eq hlargest.symm)
    rw [hstill.find_none, hmissing]

/-- Two names of the same length in one directory are a pair of journals if
each of them can be opened. -/
theorem pair_of_names (hfaultless : volume.Faultless) (hsound : volume.Sound)
    (hname : Path.IsPlain name) (hother : Path.IsPlain other)
    (hsize : name.utf8ByteSize = other.utf8ByteSize) (hne : name ≠ other)
    (hopens : ∃ id opened, Opens volume (Path.join directory name) id opened)
    (hopensOther : ∃ id opened, Opens volume (Path.join directory other) id opened)
    (htwo : TwoFiles volume (Path.join directory name) (Path.join directory other)) :
    Pair volume (Path.join directory name) (Path.join directory other) := by
  obtain ⟨id, opened, hopens⟩ := hopens
  obtain ⟨file, both, hopensOther⟩ := hopensOther
  constructor
  · exact .of_names hfaultless hsound hname hother hsize.symm hne hopens hopensOther htwo
  · refine .of_names hfaultless hsound hother hname hsize hne.symm hopensOther hopens ?_
    exact fun location place id hfind hfindOther => htwo place location id hfindOther hfind

end

end Journal

end MessageStore
