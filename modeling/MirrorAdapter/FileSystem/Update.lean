import MirrorAdapter.FileSystem.Lookup

/-!
# Changing a file system

Making directories, removing, and creating files by path. A change that fails
leaves the file system as it was, with two exceptions: `makeDirectories` may
have made some of the directories, and a file that the device fails is there
in part.
-/
namespace MirrorAdapter

namespace Path

/-- The last name of a path, slashes after it aside. -/
def lastName? (p : Path) : Option Text :=
  ((parts p).filter fun part => part != []).getLast?

/-- Whether a path ends with the name of an entry, slashes aside, and not with
`.` or `..`. -/
def endsWithEntry (p : Path) : Bool :=
  match lastName? p with
  | some name => !isDots name
  | none => false

/-- The path that names a directory without the slashes after its last
name. -/
def withoutSlash (p : Path) : Path :=
  if (fileName p).isEmpty then parent p else p

/-- The parents of a path, the nearest first, as far as the path tells. -/
def ancestors (p : Path) : List Path :=
  let above := parent p
  if above.isEmpty then []
  else if above.length < p.length then above :: ancestors above
  else []
termination_by p.length

end Path

namespace FileSystem

/-- Makes one directory, unless it is there already. -/
def makeDirectory (fs : FileSystem) (p : Path) : Option FileSystem :=
  match fs.locate p with
  | .error _ => none
  | .ok route =>
    match fs.get? route with
    | some .directory => some fs
    | some (.file _) => none
    | none => some (fs.insert route .directory)

/-- Makes directories in order up to the first that cannot be made, and says
whether all were. -/
def makeEach (fs : FileSystem) : List Path → FileSystem × Bool
  | [] => (fs, true)
  | p :: ps =>
    match fs.makeDirectory p with
    | none => (fs, false)
    | some after => makeEach after ps

/-- How many directories can be missing on the way to one that is made. -/
def deepestGap : Nat := 1000

/-- Makes the missing directories on the way to a path that leads nowhere.
Where the way there has a `..`, the name before it is made a directory,
too. -/
def fillGap (fs : FileSystem) (p : Path) : FileSystem × Bool :=
  let target := Path.withoutSlash p
  let above := Path.ancestors target
  let missing :=
    (target :: above.takeWhile fs.lacks).filter
      fun q => !Path.isDots (Path.fileName q)
  let blocked : Bool :=
    match (above.dropWhile fs.lacks).map fs.status with
    | .ok (.file _) :: _ => true
    | _ => false
  if blocked || deepestGap < missing.length then (fs, false)
  else fs.makeEach missing.reverse

/-- Makes a directory and the directories on the way to it, and says whether
it is there now. -/
def makeDirectories (fs : FileSystem) (p : Path) : FileSystem × Bool :=
  match fs.status p with
  | .ok .directory => (fs, true)
  | .ok (.file _) => (fs, false)
  | .error .tooLong => (fs, false)
  | .error .absent => fs.fillGap p

/-- Removes a file or an empty directory. -/
def remove? (fs : FileSystem) (p : Path) : Option FileSystem :=
  match fs.locate p with
  | .error _ => none
  | .ok route =>
    match fs.get? route with
    | none => none
    | some (.file _) => some (fs.erase route)
    | some .directory =>
      if Path.endsWithEntry p.beforeNul && fs.isEmptyBelow route then
        some (fs.erase route)
      else none

/-- Creates a file where nothing is, and says how the device failed it, if it
did. What is left of the file then stays. -/
def create? (fs : FileSystem) (p : Path) (f : StoredFile) :
    Option (FileSystem × Option Fault) :=
  match fs.locate p with
  | .error _ => none
  | .ok route =>
    match fs.get? route with
    | some _ => none
    | none =>
      let fault := fs.faults.lookup route
      some (fs.insert route (.file (Fault.remnant f fault)), fault)

end FileSystem
end MirrorAdapter
