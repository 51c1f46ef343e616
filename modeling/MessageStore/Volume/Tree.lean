import MessageStore.Volume.Path

/-!
# The tree of a volume

Directories hold names, and each name is a directory or a file.  A path is
walked name by name from the root or from the working directory: every name
but the last must lead to a directory, and what is wrong with the first name
that does not is what is wrong with the path.
-/

namespace MessageStore

/-- A place in the tree: the names from there up to the root. -/
abbrev Location := List String

inductive Node where
  | directory
  | file (id : Nat)
  deriving DecidableEq, Repr, Inhabited

structure Tree where
  /-- Everything below the root, what was added last first. -/
  nodes : List (Location × Node) := []
  /-- Where a path starts that does not start at the root. -/
  workingDirectory : Location := []

/-- Where a path ends. -/
inductive Ending where
  /-- At a directory itself: it has no name, or `.` or `..` is the last. -/
  | directory (location : Location)
  /-- At a name in a directory, whether that stands for something or not. -/
  | entry (directory : Location) (name : String)
  deriving DecidableEq, Repr

namespace Tree

def node? (tree : Tree) (location : Location) : Option Node :=
  if location = [] then some .directory
  else (tree.nodes.find? (·.1 = location)).map (·.2)

/-- Puts something at a location where nothing stands. -/
def insert (tree : Tree) (location : Location) (node : Node) : Tree :=
  { tree with nodes := (location, node) :: tree.nodes }

/-- Takes away what stands at a location, and everything below it. -/
def erase (tree : Tree) (location : Location) : Tree :=
  { tree with nodes := tree.nodes.filter fun node => !location.isSuffixOf node.1 }

/-! ## Walking -/

/-- What a name in a directory stands for, unless it is too long for one. -/
def entry? (tree : Tree) (directory : Location) (name : String) :
    Except IoError (Option Node) :=
  if Path.maxNameSize < name.utf8ByteSize then .error (.system .invalidFilename)
  else .ok (tree.node? (name :: directory))

/-- Goes from a directory to the directory that a name stands for. -/
def enter (tree : Tree) (here : Location) (name : String) :
    Except IoError Location :=
  if name = "." then .ok here
  else if name = ".." then .ok here.tail
  else match tree.entry? here name with
    | .error error => .error error
    | .ok none => .error (.system .notFound)
    | .ok (some (.file _)) => .error (.system .notADirectory)
    | .ok (some .directory) => .ok (name :: here)

def resolve (tree : Tree) (path : String) : Except IoError Ending := do
  Path.check path
  let start := if Path.isAbsolute path then [] else tree.workingDirectory
  let names := Path.names path
  let here ← names.dropLast.foldlM tree.enter start
  match names.getLast? with
  | none => return .directory here
  | some name =>
    if name = "." ∨ name = ".." then return .directory (← tree.enter here name)
    else return .entry here name

/-- What a path leads to.  A file is not found behind a separator. -/
def find (tree : Tree) (path : String) : Except IoError (Location × Node) := do
  match ← tree.resolve path with
  | .directory location => return (location, .directory)
  | .entry directory name =>
    match ← tree.entry? directory name with
    | none => .error (.system .notFound)
    | some .directory => return (name :: directory, .directory)
    | some (.file id) =>
      if Path.endsInSeparator path then .error (.system .notADirectory)
      else return (name :: directory, .file id)

/-- Where the file at a path is or would be created, and its number if it is
there.  What could be created only as a directory is refused. -/
def place (tree : Tree) (path : String) :
    Except IoError (Location × Option Nat) := do
  match ← tree.resolve path with
  | .directory _ => .error (.system .isADirectory)
  | .entry directory name =>
    if Path.endsInSeparator path then .error (.system .isADirectory)
    else
      match ← tree.entry? directory name with
      | some .directory => .error (.system .isADirectory)
      | some (.file id) => return (name :: directory, some id)
      | none => return (name :: directory, none)

def isDirectory (tree : Tree) (path : String) : Bool :=
  match tree.find path with
  | .ok (_, .directory) => true
  | _ => false

/-! ## Making directories -/

/-- Makes the directory at a path, where nothing may stand yet. -/
def makeDirectory (tree : Tree) (path : String) : Except IoError Tree := do
  match ← tree.resolve path with
  | .directory _ => .error (.system .alreadyExists)
  | .entry directory name =>
    match ← tree.entry? directory name with
    | some _ => .error (.system .alreadyExists)
    | none => return tree.insert (name :: directory) .directory

/-- Whether a directory was not made because it is there already. -/
def isMade (tree : Tree) (path : String) (error : IoError) : Bool :=
  error.kind = .alreadyExists && tree.isDirectory path

/-- Makes directories one after the other, but for those that are there
already. -/
def makeEach (tree : Tree) : List String → Except IoError Unit × Tree
  | [] => (.ok (), tree)
  | path :: rest =>
    match tree.makeDirectory path with
    | .ok tree => tree.makeEach rest
    | .error error =>
      if tree.isMade path error then tree.makeEach rest else (.error error, tree)

/-- Makes a directory and those above it that are missing.  The paths of all
of them are given, that of the directory itself first: the first one that
can be made or is there already tells which are missing, and these are made
after it.  `missing` are the paths tried before, the last one first. -/
def makeFrom (tree : Tree) (missing : List String) :
    List String → Except IoError Unit × Tree
  | [] => tree.makeEach missing
  | path :: above =>
    match tree.makeDirectory path with
    | .ok tree => tree.makeEach missing
    | .error error =>
      if error.kind = .notFound then tree.makeFrom (path :: missing) above
      else if tree.isMade path error then tree.makeEach missing
      else (.error error, tree)

/-- Makes the directory at the first of some paths; the others are those of
the directories above it, the nearest one first. -/
def makeDirectories (tree : Tree) (paths : List String) :
    Except IoError Unit × Tree :=
  tree.makeFrom [] paths

theorem node?_insert_self (tree : Tree) {location : Location} (h : location ≠ [])
    (node : Node) : (tree.insert location node).node? location = some node := by
  simp [node?, insert, h]

theorem node?_insert_of_ne (tree : Tree) {location other : Location}
    (h : location ≠ other) (node : Node) :
    (tree.insert location node).node? other = tree.node? other := by
  simp [node?, insert, h]

end Tree

end MessageStore
