import MirrorAdapter.CommandLine.Run
import MirrorAdapter.Support.Standard

/-!
# The program

Takes a picture of that part of the file system which a run looks at, runs,
and carries over what the run has changed.
-/
namespace MirrorAdapter
namespace Program

open CommandLine
open Support.Standard

def textOf (s : String) : Text := s.toUTF8.toList

def bytesOf (t : Text) : ByteArray := ⟨t.toArray⟩

def stringOf (t : Text) : String := (String.fromUTF8? (bytesOf t)).getD ""

/-- The path of a route. -/
def pathOf (route : Route) : String := stringOf ("/" ++ Text.join "/" route)

/-- The mode of files in a picture. No output is written with it, so a file
with this mode is an old one. -/
def pictureMode : Nat := 32768 + FileMode.writable

/-- The mode of files in a picture that may not be read. -/
def hiddenMode : Nat := 32768

/-- The names in a directory; none if the path is not one that can be
listed. -/
def list? (path : String) : IO (Option (List Text)) := do
  match ← ((← IO.currentDir) / path).readDir.toBaseIO with
  | .ok entries => return some (entries.toList.map fun e => textOf e.fileName)
  | .error _ => return none

/-- Whether there is something at the end of a route. -/
def isListed (route : Route) : IO Bool := do
  return ((← list? (pathOf route.dropLast)).getD []).contains
      (route.getLastD [])

/-- The node at the end of a route; the content of a file is read only on
demand. -/
def look (route : Route) (withContent : Bool) : IO (Option Node) := do
  let path := pathOf route
  if (← list? path).isSome then return some .directory
  else if !withContent then return some (.file ⟨pictureMode, []⟩)
  else
    match ← (IO.FS.readBinFile path).toBaseIO with
    | .ok content => return some (.file ⟨pictureMode, content.toList⟩)
    | .error _ =>
      return if ← isListed route then some (.file ⟨hiddenMode, []⟩) else none

def add (fs : FileSystem) (route : Route) (withContent : Bool) :
    IO FileSystem := do
  match ← look route withContent with
  | some node => return if route.isEmpty then fs else fs.insert route node
  | none => return fs

/-- Adds everything on the way of a path. -/
def addWay (fs : FileSystem) (p : Path) : IO FileSystem := do
  let mut route := if Path.isAbsolute p then [] else fs.working
  let mut seen := fs
  for part in Path.parts p do
    route := FileSystem.step route part
    seen ← add seen route true
  return seen

/-- Adds everything below a directory, with the content of mirror files. -/
partial def addBelow (fs : FileSystem) (route : Route) : IO FileSystem := do
  let mut seen := fs
  for name in (← list? (pathOf route)).getD [] do
    let child := route ++ [name]
    seen ← add seen child (Path.hasExtension Discovery.mirrorExtension name)
    if seen.get? child = some .directory then
      seen ← addBelow seen child
  return seen

/-- Adds what is at some paths and below them. Files named by a path come
last, with their content. -/
def addAll (fs : FileSystem) (paths : List Path) : IO FileSystem := do
  let mut seen := fs
  for p in paths do
    seen ← addWay seen p
    match seen.locate p, seen.status p with
    | .ok route, .ok .directory => seen ← addBelow seen route
    | _, _ => pure ()
  for p in paths do
    seen ← addWay seen p
  return seen

/-- A picture of what a run on the given words looks at. -/
def picture (sources : Path) (words : List Text) : IO FileSystem := do
  let working := textOf (← IO.currentDir).toString
  let fs ← addWay {} working
  let fs :=
    { fs with working := (Path.parts working).filter fun name => !name.isEmpty }
  let fs ← (Emission.runtimePaths sources).foldlM addWay fs
  match readWords words with
  | .ok (.run _ arguments) =>
    let fs ← addAll fs (arguments.filterMap Argument.config?)
    match configuration fs arguments with
    | .ok config =>
      let settings := Settings.of config arguments
      addAll fs
        ((settings.outDir :: settings.inputs).filter fun p => !p.isEmpty)
    | .error _ => return fs
  | _ => return fs

/-- Removes what is no longer as it was, the deepest first. -/
def removeOld (before after : FileSystem) : IO Unit := do
  let old := before.entries.filter fun e => after.get? e.1 != before.get? e.1
  for (route, node) in old.mergeSort fun a b => b.1.length ≤ a.1.length do
    match node with
    | .file _ => IO.FS.removeFile (pathOf route)
    | .directory => IO.FS.removeDir (pathOf route)

/-- Makes what is new, the directories before what lies in them. -/
def makeNew (before after : FileSystem) : IO Unit := do
  let new := after.entries.filter fun e => after.get? e.1 != before.get? e.1
  for (route, node) in new.mergeSort fun a b => a.1.length ≤ b.1.length do
    match node with
    | .directory => IO.FS.createDir (pathOf route)
    | .file f =>
      IO.FS.writeBinFile (pathOf route) (bytesOf f.content)
      IO.Prim.setAccessRights (pathOf route) (UInt32.ofNat f.mode)

end Program
end MirrorAdapter

open MirrorAdapter Support.Standard in
/-- Runs the program on the words after its name. -/
def main (args : List String) : IO UInt32 := do
  let start ← IO.monoMsNow
  let words := args.map Program.textOf
  let sources := Program.textOf (← IO.appDir).toString
  let before ← Program.picture sources words
  let outcome := CommandLine.run ⟨before, sources⟩ words
  Program.removeOld before outcome.fileSystem
  Program.makeNew before outcome.fileSystem
  (← IO.getStdout).write (Program.bytesOf outcome.output)
  let time := CommandLine.seconds ((← IO.monoMsNow) - start)
  (← IO.getStderr).write (Program.bytesOf (outcome.messagesWithin time))
  return outcome.exitCode
