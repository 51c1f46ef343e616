import MessageStore.Command.Run
import Std.Time.DateTime.Timestamp

/-!
# The program

Brings the files that a command may look at into a volume, carries the
command out there, and brings the journals that changed back.
-/

namespace MessageStore

/-- How many steps a part of a command may take. -/
def programLimit : Nat := 10000000000

/-- The exit code that stands for being ended from outside. -/
def abortCode : Nat := 134

namespace Disk

/-- Brings what stands at a path into a volume.  What cannot be opened as a
file or a directory is not there. -/
def fetch (volume : Volume) (path : String) : IO Volume := do
  try
    let content ← IO.FS.readBinFile path
    return volume.withFile path content.toList
  catch
    | .inappropriateType .. => return volume.withDirectory path
    | .permissionDenied file code details => throw (.permissionDenied file code details)
    | _ => return volume

/-- Brings a path and what is on the way to it into a volume. -/
def load (volume : Volume) (path : String) : IO Volume :=
  (path :: Path.stages path).reverse.foldlM fetch volume

/-- Brings a file back to the disk if it changed; `old` is what it held. -/
def storeFile (path : String) (old : Option Bytes) (bytes : Bytes) : IO Unit := do
  match old with
  | none => IO.FS.writeBinFile path ⟨bytes.toArray⟩
  | some old =>
    if old = bytes then return
    else if old.isPrefixOf bytes then
      let file ← IO.FS.Handle.mk path .append
      file.write ⟨(bytes.drop old.length).toArray⟩
      file.flush
    else IO.FS.writeBinFile path ⟨bytes.toArray⟩

/-- Brings the directories and files back to the disk that a command made or
changed, in the order in which they were made. -/
def store (before after : Volume) : IO Unit :=
  after.tree.nodes.reverse.forM fun (location, node) => do
    let path := "/" ++ "/".intercalate location.reverse
    match node with
    | .directory => if !before.tree.isDirectory path then IO.FS.createDirAll path
    | .file id => storeFile path (before.contentAt? path) (after.content id).bytes

end Disk

def runOnDisk (arguments : Arguments) : IO UInt32 := do
  let start ← IO.monoNanosNow
  let now ← Std.Time.Timestamp.now
  let clock := Clock.counting now.toMillisecondsSinceUnixEpoch.val.toNat.toUInt64
  let volume := Volume.workingIn (← IO.currentDir).toString
  let volume ← match arguments.config with
    | none => pure volume
    | some path => Disk.load volume path
  let journals := match arguments.loadConfig volume with
    | (.ok config, _) => [config.messageJournal, config.payloadJournal]
    | (.error _, _) => []
  let volume ← journals.foldlM Disk.load volume
  let some conclusion := arguments.run programLimit clock volume
    | IO.eprintln "Error: the clock does not move on"
      return 1
  Disk.store volume conclusion.volume
  let elapsed : Duration := ⟨(← IO.monoNanosNow) - start⟩
  for line in conclusion.printed.flatMap (Printed.lines elapsed) do
    IO.println line
  if let some failure := conclusion.failure then
    IO.eprintln ("Error: " ++ failure.message)
  return (conclusion.exitCode.getD abortCode).toUInt32

end MessageStore

open MessageStore in
def main (arguments : List String) : IO UInt32 := do
  match Invocation.ofCommandLine arguments with
  | .version =>
    IO.println Invocation.versionText
    return 0
  | .misuse =>
    IO.eprintln "usage: tms [--config FILE] [--dir DIRECTORY] publish|dump|bench"
    return 2
  | .run arguments => runOnDisk arguments
