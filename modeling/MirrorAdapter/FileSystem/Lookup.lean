import MirrorAdapter.FileSystem.Basic

/-!
# Following paths

A path is followed name by name from the root or from the working directory,
and every step must start from a directory. So `.`, `..` and a final slash are
more than spelling: what they follow must be there.
-/
namespace MirrorAdapter
namespace FileSystem

/-- Why a path leads nowhere. -/
inductive Obstacle where
  /-- Something is missing, or a file is in the place of a directory. -/
  | absent
  /-- A name or the whole path is too long. -/
  | tooLong
deriving Repr, DecidableEq, Inhabited

/-- The longest name there is. -/
def longestName : Nat := 255

/-- The longest path that can be followed. -/
def longestPath : Nat := 4095

/-- Where a part of a path leads from a directory. -/
def step (route : Route) (part : Text) : Route :=
  if part = [] ∨ part = Text.ofString "." then route
  else if part = Text.ofString ".." then route.dropLast
  else route ++ [part]

/-- Where the parts of a path lead from a route. The end of the way need not
exist. -/
def follow (fs : FileSystem) (route : Route) :
    List Text → Except Obstacle Route
  | [] => .ok route
  | part :: parts =>
    match fs.get? route with
    | some .directory =>
      if longestName < part.length then .error .tooLong
      else follow fs (step route part) parts
    | _ => .error .absent

/-- Where a path leads. It ends before its first NUL byte. -/
def locate (fs : FileSystem) (p : Path) : Except Obstacle Route :=
  let p := p.beforeNul
  if p = [] then .error .absent
  else if longestPath < p.length then .error .tooLong
  else fs.follow (if Path.isAbsolute p then [] else fs.working) (Path.parts p)

/-- What a path leads to. -/
def status (fs : FileSystem) (p : Path) : Except Obstacle Node :=
  match fs.locate p with
  | .error e => .error e
  | .ok route =>
    match fs.get? route with
    | none => .error .absent
    | some node => .ok node

/-- Whether a path leads nowhere because something is missing. -/
def lacks (fs : FileSystem) (p : Path) : Bool :=
  match fs.status p with
  | .error .absent => true
  | _ => false

/-- The text of a regular file that may be read. -/
def fileText? (fs : FileSystem) (p : Path) : Option Text :=
  match fs.status p with
  | .ok (.file f) =>
    if FileMode.isReadable f.mode then some f.content else none
  | _ => none

/-- The text that can be read at a path. A directory can be opened, but has
none. -/
def read? (fs : FileSystem) (p : Path) : Option Text :=
  match fs.status p with
  | .ok .directory => some []
  | _ => fs.fileText? p

/-- The path in normal form and absolute, as seen from the working
directory. -/
def resolved (fs : FileSystem) (p : Path) : Path :=
  Path.resolved fs.workingPath p

end FileSystem
end MirrorAdapter
