import MessageStore.Storage.Error

/-!
# Paths

A path is a text of names between separators.  Two separators that touch
count as one, and `.` and `..` are names like others: what they lead to is
found by walking.  A path has limits of its own, which are looked at before
any name of it.
-/

namespace MessageStore.Path

/-- A name may have this many octets. -/
def maxNameSize : Nat := 255

/-- A path has fewer octets than this. -/
def sizeLimit : Nat := 4096

/-- The system looks at no path with a NUL, at no empty one and at none that
is too long. -/
def check (path : String) : Except IoError Unit :=
  if path.toList.contains '\x00' then
    .error (.described .invalidInput "file name contained an unexpected NUL byte")
  else if path = "" then .error (.system .notFound)
  else if sizeLimit ≤ path.utf8ByteSize then .error (.system .invalidFilename)
  else .ok ()

def isAbsolute (path : String) : Bool :=
  path.startsWith "/"

/-- Whether a path asks for a directory by a separator at its end. -/
def endsInSeparator (path : String) : Bool :=
  path.endsWith "/"

/-- What stands between the separators. -/
def pieces (path : String) : List String :=
  path.splitOn "/"

def names (path : String) : List String :=
  (pieces path).filter (· ≠ "")

/-- Puts a name below a directory.  No separator is doubled. -/
def join (directory name : String) : String :=
  if directory = "" || endsInSeparator directory then directory ++ name
  else directory ++ "/" ++ name

/-- Whether a piece is a step of its path.  The nothing between two
separators is none, and a dot is one only where the path starts with it. -/
def isStep (index : Nat) (piece : String) : Bool :=
  piece ≠ "" && (piece ≠ "." || index = 0)

/-- The paths that end at the steps of a path, the longest one first. -/
def stages (path : String) : List String :=
  ((pieces path).zipIdx.filter fun (piece, index) => isStep index piece).reverse.map
    fun (_, index) => "/".intercalate ((pieces path).take (index + 1))

/-- The paths of the directories above what a path leads to, the nearest one
first.  The directory where the path starts is not among them. -/
def above (path : String) : List String :=
  (stages path).tail

end MessageStore.Path
