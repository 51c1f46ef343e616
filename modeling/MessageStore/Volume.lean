import MessageStore.Volume.Content
import MessageStore.Volume.Tree

/-!
# Volumes

A volume is a tree of directories and files with the contents of the files.
A file that is open is known by its number, not by its path, so it can be
written to even when its path has been removed.  Every operation may fail as
a plan of faults says; with no plan only the tree decides.  A failing write
or read still gets through a part of its work first.
-/

namespace MessageStore

/-- A failure that an operation is to meet: its kind, and how many octets a
read or write gets through before it. -/
structure Fault where
  kind : IoKind
  progress : Nat := 0

structure Volume where
  tree : Tree := {}
  /-- The contents of all files, by number. -/
  contents : Array Content := #[]
  /-- The faults that the operations meet, by their count. -/
  faults : Nat → Option Fault := fun _ => none
  operations : Nat := 0

/-- What reading a file yields: the octets up to its end or to a failure. -/
structure Reading where
  bytes : Bytes
  failure : Option IoError := none
  deriving DecidableEq, Repr

namespace Volume

def content (volume : Volume) (id : Nat) : Content :=
  (volume.contents[id]?).getD {}

def setContent (volume : Volume) (id : Nat) (content : Content) : Volume :=
  { volume with contents := volume.contents.setIfInBounds id content }

/-- Puts a new empty file at a location where nothing stands. -/
def createFile (volume : Volume) (location : Location) : Nat × Volume :=
  (volume.contents.size, { volume with
    tree := volume.tree.insert location (.file volume.contents.size)
    contents := volume.contents.push {} })

/-- The file at a path, created if it is missing. -/
def fileFor (volume : Volume) (path : String) : Except IoError Nat × Volume :=
  match volume.tree.place path with
  | .error error => (.error error, volume)
  | .ok (_, some id) => (.ok id, volume)
  | .ok (location, none) =>
    let (id, volume) := volume.createFile location
    (.ok id, volume)

/-- Counts an operation and says which fault it meets. -/
def operate (volume : Volume) : Option Fault × Volume :=
  (volume.faults volume.operations,
    { volume with operations := volume.operations + 1 })

/-! ## Operations -/

def directorySize : Nat := 4096

def fileSize (volume : Volume) (path : String) : Except IoError Nat × Volume :=
  let (fault, volume) := volume.operate
  match fault with
  | some fault => (.error (.system fault.kind), volume)
  | none =>
    match volume.tree.find path with
    | .ok (_, .file id) => (.ok (volume.content id).size, volume)
    | .ok (_, .directory) => (.ok directorySize, volume)
    | .error error => (.error error, volume)

/-- Opens what a path leads to and reads it.  A directory can be opened, but
the first read fails. -/
def read (volume : Volume) (path : String) : Except IoError Reading × Volume :=
  let (fault, volume) := volume.operate
  match fault with
  | some fault => (.error (.system fault.kind), volume)
  | none =>
    match volume.tree.find path with
    | .error error => (.error error, volume)
    | .ok (_, .directory) => (.ok ⟨[], some (.system .isADirectory)⟩, volume)
    | .ok (_, .file id) =>
      let bytes := (volume.content id).bytes
      let (fault, volume) := volume.operate
      match fault with
      | some fault =>
        (.ok ⟨bytes.take fault.progress, some (.system fault.kind)⟩, volume)
      | none => (.ok ⟨bytes, none⟩, volume)

/-- Makes the directory at the first of some paths; the others are those of
the directories above it, the nearest one first. -/
def makeDirectories (volume : Volume) (paths : List String) :
    Except IoError Unit × Volume :=
  let (fault, volume) := volume.operate
  match fault with
  | some fault => (.error (.system fault.kind), volume)
  | none =>
    let (result, tree) := volume.tree.makeDirectories paths
    (result, { volume with tree })

/-- Opens a file for appending, and creates it if it is missing. -/
def openForAppend (volume : Volume) (path : String) :
    Except IoError Nat × Volume :=
  let (fault, volume) := volume.operate
  match fault with
  | some fault => (.error (.system fault.kind), volume)
  | none => volume.fileFor path

def openForWriting (volume : Volume) (path : String) :
    Except IoError Nat × Volume :=
  let (fault, volume) := volume.operate
  match fault with
  | some fault => (.error (.system fault.kind), volume)
  | none =>
    match volume.tree.find path with
    | .ok (_, .file id) => (.ok id, volume)
    | .ok (_, .directory) => (.error (.system .isADirectory), volume)
    | .error error => (.error error, volume)

/-- Appends to an open file.  A write that fails may have appended a first
part of the octets. -/
def append (volume : Volume) (id : Nat) (bytes : Bytes) :
    Except IoError Unit × Volume :=
  let (fault, volume) := volume.operate
  let content := volume.content id
  match fault with
  | some fault =>
    (.error (.system fault.kind),
      volume.setContent id (content.append (bytes.take fault.progress)))
  | none => (.ok (), volume.setContent id (content.append bytes))

/-- Waits until what was written to an open file is durable. -/
def sync (volume : Volume) (_id : Nat) : Except IoError Unit × Volume :=
  let (fault, volume) := volume.operate
  match fault with
  | some fault => (.error (.system fault.kind), volume)
  | none => (.ok (), volume)

/-- Cuts an open file down to its first octets. -/
def truncate (volume : Volume) (id size : Nat) : Except IoError Unit × Volume :=
  let (fault, volume) := volume.operate
  match fault with
  | some fault => (.error (.system fault.kind), volume)
  | none =>
    (.ok (), volume.setContent id (.ofBytes ((volume.content id).bytes.take size)))

/-! ## Setting up -/

/-- Makes the directory at a path and those above it. -/
def withDirectory (volume : Volume) (path : String) : Volume :=
  { volume with tree := (volume.tree.makeDirectories (Path.stages path)).2 }

/-- An empty volume but for its working directory. -/
def workingIn (path : String) : Volume :=
  let volume : Volume := withDirectory {} path
  match volume.tree.find path with
  | .ok (location, .directory) => { volume with tree.workingDirectory := location }
  | _ => volume

/-- Gives the file at a path new content; it is created if it is missing, and
so are the directories above it. -/
def withFile (volume : Volume) (path : String) (bytes : Bytes) : Volume :=
  let volume :=
    { volume with tree := (volume.tree.makeDirectories (Path.above path)).2 }
  match volume.fileFor path with
  | (.ok id, volume) => volume.setContent id (.ofBytes bytes)
  | (.error _, volume) => volume

/-- Takes away what stands at a path, and everything below it.  A file that
is open lives on without its path. -/
def without (volume : Volume) (path : String) : Volume :=
  match volume.tree.find path with
  | .ok (location, _) => { volume with tree := volume.tree.erase location }
  | .error _ => volume

/-! ## Looking -/

def contentAt? (volume : Volume) (path : String) : Option Bytes :=
  match volume.tree.find path with
  | .ok (_, .file id) => some (volume.content id).bytes
  | _ => none

/-- The paths of all files below the working directory. -/
def filePaths (volume : Volume) : List String :=
  let start := volume.tree.workingDirectory
  volume.tree.nodes.filterMap fun
    | (location, .file _) =>
      if start.isSuffixOf location then
        some ("/".intercalate (location.take (location.length - start.length)).reverse)
      else none
    | (_, .directory) => none

end Volume

end MessageStore
