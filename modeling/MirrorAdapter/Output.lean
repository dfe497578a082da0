import MirrorAdapter.Depfile
import MirrorAdapter.FileSystem.Update

/-!
# Writing outputs

Outputs are written one after another under a policy, up to the first that
cannot be written. An existing file is removed and created anew, so that its
mode never matters. Every output is recorded before anything is tried, also in
a dry run, which changes nothing.
-/
namespace MirrorAdapter

/-- A file to be written. -/
structure Output where
  /-- The directory that the file's place is seen from; empty for the working
  directory. -/
  directory : Path := []
  place : Path
  content : Text
deriving Repr, DecidableEq, Inhabited

namespace Output

def path (o : Output) : Path := Path.join o.directory o.place

/-- The path in normal form and absolute, as seen from the working
directory. -/
def resolved (fs : FileSystem) (o : Output) : Path :=
  if Path.isAbsolute o.path then Path.normalizeFrom o.directory o.place
  else fs.resolved o.path

structure Policy where
  dryRun : Bool := false
  /-- Existing files are kept, and are an error. -/
  noOverwrite : Bool := false
  /-- The mode of written files, of which the permissions are used. -/
  fileMode : Nat := FileMode.readOnly
deriving Repr, DecidableEq, Inhabited

/-- Why an output could not be written. -/
inductive Error where
  | makeDirectory (path : Path)
  | inspect (path : Path)
  | keep (path : Path)
  | remove (path : Path)
  | create (path : Path)
  | write (path : Path)
  | setMode (path : Path)
deriving Repr, DecidableEq, Inhabited

def Error.message : Error → Text
  | .makeDirectory p => "failed to create output directory " ++ p.beforeNul
  | .inspect p => "failed to stat output path " ++ p.beforeNul
  | .keep p => "refusing to overwrite existing output file: " ++ p.beforeNul
  | .remove p => "failed to remove existing output file " ++ p.beforeNul
  | .create p => "failed to open " ++ p.beforeNul
  | .write p => "failed to write " ++ p.beforeNul
  | .setMode p => "failed to set mode on " ++ p.beforeNul

/-- The error that a fault of the device shows as. -/
def Error.ofFault (p : Path) : Fault → Error
  | .write .. => .write p
  | .setMode _ => .setMode p

/-- The file that an output becomes. -/
def stored (policy : Policy) (o : Output) : StoredFile :=
  ⟨FileMode.permissions policy.fileMode, o.content⟩

/-- Makes the directory of a path, unless the path is a single name. -/
def makeParent (fs : FileSystem) (p : Path) : FileSystem × Bool :=
  let directory := Path.parent p
  if directory.isEmpty then (fs, true) else fs.makeDirectories directory

/-- Makes room for a new file. -/
def clear (policy : Policy) (fs : FileSystem) (p : Path) :
    Except Error FileSystem :=
  match fs.status p with
  | .error .absent => .ok fs
  | .error .tooLong => .error (.inspect p)
  | .ok _ =>
    if policy.noOverwrite then .error (.keep p)
    else
      match fs.remove? p with
      | none => .error (.remove p)
      | some cleared => .ok cleared

/-- Creates the file of an output where there is room for it. -/
def create (policy : Policy) (fs : FileSystem) (o : Output) :
    FileSystem × Option Error :=
  match fs.create? o.path (o.stored policy) with
  | none => (fs, some (.create o.path))
  | some (written, fault) => (written, fault.map (Error.ofFault o.path))

/-- Writes one output. -/
def write (policy : Policy) (fs : FileSystem) (o : Output) :
    FileSystem × Option Error :=
  if policy.dryRun then (fs, none)
  else
    match makeParent fs o.path with
    | (made, false) => (made, some (.makeDirectory (Path.parent o.path)))
    | (made, true) =>
      match clear policy made o.path with
      | .error e => (made, some e)
      | .ok cleared => create policy cleared o

/-- What came of writing outputs. -/
structure Written where
  fileSystem : FileSystem
  /-- The absolute paths of the outputs up to the last that was tried. -/
  recorded : List Path
  error : Option Error
deriving Repr, DecidableEq, Inhabited

/-- Writes outputs in order, up to the first that cannot be written. -/
def writeAll (policy : Policy) (fs : FileSystem) : List Output → Written
  | [] => ⟨fs, [], none⟩
  | o :: rest =>
    match write policy fs o with
    | (after, some e) => ⟨after, [o.resolved fs], some e⟩
    | (after, none) =>
      let others := writeAll policy after rest
      { others with recorded := o.resolved fs :: others.recorded }

/-- The dependency file of an output that is made from the given sources. It
lies beside the output. -/
def depfile (fs : FileSystem) (o : Output) (sources : List Path) : Output where
  place := o.path ++ ".d"
  content := Depfile.render (o.resolved fs) (sources.map fs.resolved)

end Output
end MirrorAdapter
