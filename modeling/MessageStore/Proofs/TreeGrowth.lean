import MessageStore.Volume
import Mathlib.Tactic

/-!
# Trees that grow

Opening a journal only adds to the tree of its volume.  What a path led to
before, it still leads to then, and all that was wrong with it but something
missing is wrong with it still.  So directories that were made are found
when they are to be made again, and a file keeps its path.
-/

namespace MessageStore

namespace Tree

variable {tree later latest : Tree} {path : String}

/-! ## Outcomes that last -/

/-- The later outcome is that of before, unless something was missing. -/
def Lasts {α : Type} (outcome later : Except IoError α) : Prop :=
  outcome = .error (.system .notFound) ∨ later = outcome

namespace Lasts

variable {α β : Type} {outcome later : Except IoError α}

theorem of_eq (hsame : later = outcome) : Lasts outcome later :=
  .inr hsame

theorem eq_of_ok {value : α} (hlasts : Lasts outcome later)
    (hok : outcome = .ok value) : later = .ok value := by
  rcases hlasts with hmissing | hsame
  · rw [hmissing] at hok
    contradiction
  · rw [hsame, hok]

theorem bind {next next' : α → Except IoError β} (hlasts : Lasts outcome later)
    (hnext : ∀ value, Lasts (next value) (next' value)) :
    Lasts (outcome >>= next) (later >>= next') := by
  rcases hlasts with rfl | rfl
  · exact .inl rfl
  · cases later with
    | error error => exact .inr rfl
    | ok value => exact hnext value

end Lasts

/-! ## What grows -/

/-- All that stands in one tree stands in the other. -/
structure Within (tree later : Tree) : Prop where
  workingDirectory : later.workingDirectory = tree.workingDirectory
  node? : ∀ location node, tree.node? location = some node →
    later.node? location = some node

namespace Within

theorem refl (tree : Tree) : Within tree tree :=
  ⟨rfl, fun _ _ hnode => hnode⟩

theorem trans (hfirst : Within tree later) (hsecond : Within later latest) :
    Within tree latest :=
  ⟨hsecond.workingDirectory.trans hfirst.workingDirectory,
    fun location node hnode => hsecond.node? _ _ (hfirst.node? location node hnode)⟩

theorem insert {location : Location} (hfree : tree.node? location = none) (node : Node) :
    Within tree (tree.insert location node) := by
  constructor
  · rfl
  · intro other found hfound
    have hne : location ≠ other := by
      rintro rfl
      simp [hfree] at hfound
    rw [node?_insert_of_ne tree hne, hfound]

theorem lookup (hwithin : Within tree later) (directory : Location) (name : String) :
    tree.entry? directory name = .ok none ∨
      later.entry? directory name = tree.entry? directory name := by
  unfold Tree.entry?
  split
  next => exact .inr rfl
  next =>
    cases hnode : tree.node? (name :: directory) with
    | none => exact .inl rfl
    | some node => exact .inr (by rw [hwithin.node? _ _ hnode])

theorem enter (hwithin : Within tree later) (here : Location) (name : String) :
    Lasts (tree.enter here name) (later.enter here name) := by
  unfold Tree.enter
  split
  next => exact .of_eq rfl
  next =>
    split
    next => exact .of_eq rfl
    next =>
      rcases hwithin.lookup here name with hnone | hsame
      · exact .inl (by rw [hnone])
      · exact .of_eq (by rw [hsame])

theorem walk (hwithin : Within tree later) (names : List String) (start : Location) :
    Lasts (names.foldlM tree.enter start) (names.foldlM later.enter start) := by
  induction names generalizing start with
  | nil => exact .of_eq rfl
  | cons name names ih =>
      rw [List.foldlM_cons, List.foldlM_cons]
      exact (hwithin.enter start name).bind ih

theorem resolve (hwithin : Within tree later) (path : String) :
    Lasts (tree.resolve path) (later.resolve path) := by
  unfold Tree.resolve
  rw [hwithin.workingDirectory]
  apply Lasts.bind (.of_eq rfl)
  intro _
  apply (hwithin.walk _ _).bind
  intro here
  cases (Path.names path).getLast? with
  | none => exact .of_eq rfl
  | some name =>
      dsimp only
      split
      next => exact (hwithin.enter here name).bind fun _ => .of_eq rfl
      next => exact .of_eq rfl

theorem find (hwithin : Within tree later) (path : String) :
    Lasts (tree.find path) (later.find path) := by
  apply (hwithin.resolve path).bind
  intro ending
  cases ending with
  | directory location => exact .of_eq rfl
  | entry directory name =>
      dsimp only
      rcases hwithin.lookup directory name with hnone | hsame
      · exact .inl (by rw [hnone]; rfl)
      · exact .of_eq (by rw [hsame])

end Within

/-! ## The place of a file -/

theorem node?_of_lookup {directory : Location} {name : String} {node : Option Node}
    (hentry : tree.entry? directory name = .ok node) :
    tree.node? (name :: directory) = node := by
  unfold entry? at hentry
  split at hentry
  next => contradiction
  next => exact Except.ok.inj hentry

theorem entry?_insert {directory : Location} {name : String} {node : Option Node}
    (hentry : tree.entry? directory name = .ok node) (added : Node) :
    entry? (tree.insert (name :: directory) added) directory name = .ok (some added) := by
  unfold entry? at hentry ⊢
  split at hentry
  next => contradiction
  next hsize => rw [if_neg hsize, node?_insert_self tree (List.cons_ne_nil _ _)]

/-- Where the file of a path is or goes: at a name in a directory, where
nothing but a file may stand. -/
structure Places (tree : Tree) (path : String) (directory : Location) (name : String)
    (file : Option Nat) : Prop where
  resolve : tree.resolve path = .ok (.entry directory name)
  separator : Path.endsInSeparator path = false
  standing : tree.entry? directory name = .ok (file.map Node.file)

theorem exists_places {location : Location} {file : Option Nat}
    (hplace : tree.place path = .ok (location, file)) :
    ∃ directory name, location = name :: directory ∧
      tree.Places path directory name file := by
  simp only [place, bind, Except.bind] at hplace
  split at hplace
  next => contradiction
  next hresolve =>
    split at hplace
    next => contradiction
    next directory name =>
      split at hplace
      next => contradiction
      next hseparator =>
        rw [Bool.not_eq_true] at hseparator
        split at hplace
        next => contradiction
        next node hentry =>
          split at hplace
          next => contradiction
          next id =>
            cases hplace
            exact ⟨directory, name, rfl, hresolve, hseparator, hentry⟩
          next =>
            cases hplace
            exact ⟨directory, name, rfl, hresolve, hseparator, hentry⟩

namespace Places

variable {directory : Location} {name : String} {file : Option Nat} {id : Nat}

theorem place (hplaces : tree.Places path directory name file) :
    tree.place path = .ok (name :: directory, file) := by
  simp only [Tree.place, bind, Except.bind, hplaces.resolve, hplaces.separator,
    hplaces.standing]
  cases file <;> rfl

theorem find (hplaces : tree.Places path directory name (some id)) :
    tree.find path = .ok (name :: directory, .file id) := by
  simp only [Tree.find, bind, Except.bind, hplaces.resolve, hplaces.separator,
    hplaces.standing]
  rfl

theorem insert (hplaces : tree.Places path directory name none) (id : Nat) :
    (tree.insert (name :: directory) (.file id)).Places path directory name (some id) where
  resolve := by
    have hwithin := Within.insert (node?_of_lookup hplaces.standing) (.file id)
    exact (hwithin.resolve path).eq_of_ok hplaces.resolve
  separator := hplaces.separator
  standing := entry?_insert hplaces.standing (.file id)

end Places

/-! ## Directories that were made -/

/-- Only directories were added. -/
structure Extended (tree later : Tree) : Prop extends Within tree later where
  files : ∀ location id, later.node? location = some (.file id) →
    tree.node? location = some (.file id)

namespace Extended

theorem refl (tree : Tree) : Extended tree tree :=
  ⟨.refl tree, fun _ _ hfile => hfile⟩

theorem trans (hfirst : Extended tree later) (hsecond : Extended later latest) :
    Extended tree latest :=
  ⟨hfirst.toWithin.trans hsecond.toWithin,
    fun location id hfile => hfirst.files _ _ (hsecond.files location id hfile)⟩

theorem insert {location : Location} (hfree : tree.node? location = none) :
    Extended tree (tree.insert location .directory) := by
  refine ⟨.insert hfree .directory, fun other id hfile => ?_⟩
  by_cases hsame : location = other
  · subst hsame
    by_cases hroot : location = []
    · simp [node?, hroot] at hfile
    · simp [node?_insert_self tree hroot] at hfile
  · rwa [node?_insert_of_ne tree hsame] at hfile

end Extended

theorem isDirectory_iff : tree.isDirectory path = true ↔
    ∃ location, tree.find path = .ok (location, .directory) := by
  unfold isDirectory
  split
  next location hfind => exact ⟨fun _ => ⟨location, hfind⟩, fun _ => rfl⟩
  next hnone => exact ⟨nofun, fun ⟨location, hfind⟩ => absurd hfind (hnone location)⟩

theorem Within.isDirectory (hwithin : Within tree later)
    (hthere : tree.isDirectory path = true) : later.isDirectory path = true := by
  obtain ⟨location, hfind⟩ := isDirectory_iff.mp hthere
  exact isDirectory_iff.mpr ⟨location, (hwithin.find path).eq_of_ok hfind⟩

theorem makeDirectory_eq_ok (hmade : tree.makeDirectory path = .ok later) :
    Extended tree later ∧ later.isDirectory path = true := by
  simp only [makeDirectory, bind, Except.bind] at hmade
  split at hmade
  next => contradiction
  next hresolve =>
    split at hmade
    next => contradiction
    next directory name =>
      split at hmade
      next => contradiction
      next hentry =>
        split at hmade
        next => contradiction
        next =>
          cases hmade
          have hextended := Extended.insert (node?_of_lookup hentry)
          refine ⟨hextended, isDirectory_iff.mpr ⟨name :: directory, ?_⟩⟩
          simp only [find, bind, Except.bind, entry?_insert hentry,
            (hextended.resolve path).eq_of_ok hresolve]
          rfl

theorem makeDirectory_of_isDirectory (hthere : tree.isDirectory path = true) :
    tree.makeDirectory path = .error (.system .alreadyExists) := by
  obtain ⟨location, hfind⟩ := isDirectory_iff.mp hthere
  simp only [find, bind, Except.bind] at hfind
  simp only [makeDirectory, bind, Except.bind]
  split at hfind
  next => contradiction
  next =>
    split at hfind
    next => rfl
    next directory name =>
      split at hfind
      next => contradiction
      next =>
        split at hfind
        next => contradiction
        next => rfl
        next => rfl

theorem isMade_of_isDirectory (hthere : tree.isDirectory path = true) :
    tree.isMade path (.system .alreadyExists) = true := by
  rw [isMade, hthere]
  rfl

/-- One directory of a row is there afterwards, or the row ends with it. -/
theorem makeEach_cons (tree : Tree) (path : String) (rest : List String) :
    (∃ next, Extended tree next ∧ next.isDirectory path = true ∧
      tree.makeEach (path :: rest) = next.makeEach rest) ∨
    ∃ error, tree.makeEach (path :: rest) = (.error error, tree) := by
  rw [makeEach]
  split
  next next hmade =>
    obtain ⟨hextended, hthere⟩ := makeDirectory_eq_ok hmade
    exact .inl ⟨next, hextended, hthere, rfl⟩
  next error _ =>
    split
    next hmade =>
      rw [isMade, Bool.and_eq_true] at hmade
      exact .inl ⟨tree, .refl tree, hmade.2, rfl⟩
    next => exact .inr ⟨error, rfl⟩

theorem makeEach_extended (tree : Tree) (paths : List String) :
    Extended tree (tree.makeEach paths).2 := by
  induction paths generalizing tree with
  | nil => exact .refl tree
  | cons path rest ih =>
      rcases tree.makeEach_cons path rest with ⟨next, hextended, _, hnext⟩ | ⟨error, herror⟩
      · rw [hnext]
        exact hextended.trans (ih next)
      · rw [herror]
        exact .refl tree

theorem makeEach_isDirectory {paths : List String}
    (hok : (tree.makeEach paths).1 = .ok ()) :
    ∀ path ∈ paths, (tree.makeEach paths).2.isDirectory path = true := by
  induction paths generalizing tree with
  | nil => simp
  | cons path rest ih =>
      rcases tree.makeEach_cons path rest with ⟨next, _, hthere, hnext⟩ | ⟨error, herror⟩
      · rw [hnext] at hok ⊢
        intro other hmem
        rcases List.mem_cons.mp hmem with rfl | hmem
        · exact (next.makeEach_extended rest).toWithin.isDirectory hthere
        · exact ih hok other hmem
      · rw [herror] at hok
        contradiction

/-- While directories are missing the next one above is tried; with the first
one that is there, or one that cannot be made, that is over. -/
theorem makeFrom_cons (tree : Tree) (missing : List String) (path : String)
    (above : List String) :
    tree.makeFrom missing (path :: above) = tree.makeFrom (path :: missing) above ∨
    (∃ next, Extended tree next ∧ next.isDirectory path = true ∧
      tree.makeFrom missing (path :: above) = next.makeEach missing) ∨
    ∃ error, tree.makeFrom missing (path :: above) = (.error error, tree) := by
  rw [makeFrom]
  split
  next next hmade =>
    obtain ⟨hextended, hthere⟩ := makeDirectory_eq_ok hmade
    exact .inr (.inl ⟨next, hextended, hthere, rfl⟩)
  next error _ =>
    split
    next => exact .inl rfl
    next =>
      split
      next hmade =>
        rw [isMade, Bool.and_eq_true] at hmade
        exact .inr (.inl ⟨tree, .refl tree, hmade.2, rfl⟩)
      next => exact .inr (.inr ⟨error, rfl⟩)

theorem makeFrom_extended (tree : Tree) (missing paths : List String) :
    Extended tree (tree.makeFrom missing paths).2 := by
  induction paths generalizing missing with
  | nil => exact tree.makeEach_extended missing
  | cons path above ih =>
      rcases tree.makeFrom_cons missing path above with
        hmissing | ⟨next, hextended, _, hnext⟩ | ⟨error, herror⟩
      · rw [hmissing]
        exact ih (path :: missing)
      · rw [hnext]
        exact hextended.trans (next.makeEach_extended missing)
      · rw [herror]
        exact .refl tree

theorem makeFrom_isDirectory {missing paths : List String}
    (hok : (tree.makeFrom missing paths).1 = .ok ()) :
    ∀ path, path ∈ missing ∨ path ∈ paths.head? →
      (tree.makeFrom missing paths).2.isDirectory path = true := by
  induction paths generalizing missing with
  | nil =>
      intro path hmem
      exact makeEach_isDirectory hok path (by simpa using hmem)
  | cons first above ih =>
      intro path hmem
      rw [List.head?_cons, Option.mem_some] at hmem
      rcases tree.makeFrom_cons missing first above with
        hmissing | ⟨next, _, hthere, hnext⟩ | ⟨error, herror⟩
      · rw [hmissing] at hok ⊢
        apply ih hok
        rw [List.mem_cons]
        rcases hmem with hmem | rfl
        · exact .inl (.inr hmem)
        · exact .inl (.inl rfl)
      · rw [hnext] at hok ⊢
        rcases hmem with hmem | rfl
        · exact makeEach_isDirectory hok path hmem
        · exact (next.makeEach_extended missing).toWithin.isDirectory hthere
      · rw [herror] at hok
        contradiction

theorem makeDirectories_extended (tree : Tree) (paths : List String) :
    Extended tree (tree.makeDirectories paths).2 :=
  tree.makeFrom_extended [] paths

/-- Directories that were made once need not be made again. -/
theorem makeDirectories_again {paths : List String}
    (hok : (tree.makeDirectories paths).1 = .ok ())
    (hwithin : Within (tree.makeDirectories paths).2 later) :
    later.makeDirectories paths = (.ok (), later) := by
  cases paths with
  | nil => rfl
  | cons path above =>
      have hthere := makeFrom_isDirectory hok path (.inr (by simp))
      have hstill := hwithin.isDirectory hthere
      rw [makeDirectories, makeFrom, makeDirectory_of_isDirectory hstill]
      dsimp only
      rw [if_neg (by decide), if_pos (isMade_of_isDirectory hstill), makeEach]

end Tree

end MessageStore
