import MirrorAdapter.Decl.Parser
import MirrorAdapter.FileSystem.Lookup
import MirrorAdapter.Text.Order

/-!
# Finding mirror files

Inputs are files and directories. A file is taken whatever it is called, a
directory stands for the mirror files at any depth in it. The files found are
read once each, in the order of their normal paths.
-/
namespace MirrorAdapter
namespace Discovery

/-- The ending of the names of mirror files. -/
def mirrorExtension : Text := ".mirror"

/-- The normal paths of the mirror files below a directory, as seen from where
the given path is. -/
def mirrorsBelow (fs : FileSystem) (directory : Path) (route : Route) :
    List Path :=
  (fs.filesBelow route).filterMap fun (rest, _) =>
    if Path.hasExtension mirrorExtension (rest.getLastD []) then
      some (Path.normalizeFrom directory (Text.join "/" rest))
    else none

/-- The files that an input stands for; none if it leads nowhere. -/
def expand (fs : FileSystem) (input : Path) : Option (List Path) :=
  match fs.locate input, fs.status input with
  | .ok route, .ok .directory => some (mirrorsBelow fs input route)
  | .ok _, .ok (.file _) => some [Path.normalize input]
  | _, _ => none

def missingInput (input : Path) : Diagnostic where
  severity := .error
  location := .start input
  message := "input does not exist: " ++ input

def unreadableFile (p : Path) : Diagnostic where
  severity := .error
  location := .start p
  message := "failed to read file"

/-- The files found, each with its text, and reports on inputs and files that
are no good. -/
def find (fs : FileSystem) (inputs : List Path) : List (Path × Text) × Log :=
  let expanded := inputs.map fun input => (input, expand fs input)
  let missing := expanded.filterMap fun (input, files) =>
    if files.isNone then some (missingInput input) else none
  let paths :=
    Text.sortedSet (expanded.flatMap fun (_, files) => files.getD [])
  let found := paths.filterMap fun p => (fs.read? p).map fun text => (p, text)
  let unreadable :=
    paths.filterMap
      fun p => if (fs.read? p).isNone then some (unreadableFile p) else none
  (found, missing ++ unreadable)

/-- Reads the declarations of all files found; there is no module without a
file. -/
def readModule (fs : FileSystem) (inputs : List Path) :
    Option Decl.Module × Log :=
  let (found, log) := find fs inputs
  if found.isEmpty then (none, log)
  else
    let (module, reports) := Decl.readFiles found
    (some module, log ++ reports)

/-- The message where there is no module. -/
def nothingFound : Text := "no .mirror input files found"

end Discovery
end MirrorAdapter
