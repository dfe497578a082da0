import MirrorAdapter.FileSystem.Lookup
import MirrorAdapter.Support

/-!
# Configuration

A configuration is a JSON object that gives inputs, the output directory and
other settings; the support library reads its text. Keys may be missing, and
unknown ones are ignored. Of several wrong values the first in the order of
the keys below is reported.
-/
namespace MirrorAdapter

/-- The settings of a configuration; what it does not give is left to
others. -/
structure Config where
  inputs : List Path := []
  outDir : Option Path := none
  jobs : Option Nat := none
  dryRun : Option Bool := none
  noOverwrite : Option Bool := none
  fileMode : Option Nat := none
  writeDepfiles : Option Bool := none
deriving Repr, DecidableEq, Inhabited

namespace Config

/-- Why a text is no configuration. -/
inductive Error where
  /-- The text has no JSON value, for the given reason. -/
  | malformed (reason : Text)
  | notAnObject
  | inputs
  | outDir
  | jobs
  | fileModeNotAString
  | fileMode (found : Text)
  | notABoolean (key : Text)
deriving Repr, DecidableEq, Inhabited

def Error.reason : Error → Text
  | .malformed reason => reason
  | .notAnObject => "top-level value must be an object"
  | .inputs => "'inputs' must be an array of strings"
  | .outDir => "'outDir' must be a non-empty string"
  | .jobs => "'jobs' must be a positive integer"
  | .fileModeNotAString => "'fileMode' must be an octal string"
  | .fileMode found =>
    "'fileMode' must be an octal string, got " ++ found.quoted
  | .notABoolean key => key.quoted ++ " must be a boolean"

/-- The message of an error. It ends before the first NUL byte of what it
quotes. -/
def Error.message (e : Error) : Text :=
  ("invalid config: " ++ e.reason).beforeNul

/-- Whether a number of workers is positive and fits 32 bits. -/
def isJobCount (n : Int) : Bool := 1 ≤ n && n ≤ 4294967295

def readInput (base : Path) (v : JsonValue) : Except Error Path :=
  match v.string? with
  | some p => .ok (Path.normalizeFrom base p)
  | none => .error .inputs

def readInputs (base : Path) (v : JsonValue) : Except Error (List Path) :=
  match v.items? with
  | some items => items.mapM (readInput base)
  | none => .error .inputs

def readOutDir (base : Path) (v : JsonValue) : Except Error Path :=
  match v.string? with
  | some p =>
    if p.isEmpty then .error .outDir else .ok (Path.normalizeFrom base p)
  | none => .error .outDir

def readJobs (v : JsonValue) : Except Error Nat :=
  match v.word?.filter isJobCount with
  | some n => .ok n.toNat
  | none => .error .jobs

def readFileMode (v : JsonValue) : Except Error Nat :=
  match v.string? with
  | none => .error .fileModeNotAString
  | some found =>
    match FileMode.parse? found with
    | some mode => .ok mode
    | none => .error (.fileMode found)

def readFlag (key : Text) (v : JsonValue) : Except Error Bool :=
  match v.bool? with
  | some b => .ok b
  | none => .error (.notABoolean key)

/-- The setting of a key, which may be missing. -/
def setting {α : Type} (members : List (Text × JsonValue)) (key : Text)
    (read : JsonValue → Except Error α) : Except Error (Option α) :=
  match JsonValue.get? members key with
  | none => .ok none
  | some v => (read v).map some

/-- The configuration with the given members, the paths in it being seen from
a base directory. -/
def ofMembers (base : Path) (members : List (Text × JsonValue)) :
    Except Error Config := do
  let inputs ← setting members "inputs" (readInputs base)
  let outDir ← setting members "outDir" (readOutDir base)
  let jobs ← setting members "jobs" readJobs
  let fileMode ← setting members "fileMode" readFileMode
  let dryRun ← setting members "dryRun" (readFlag "dryRun")
  let noOverwrite ← setting members "noOverwrite" (readFlag "noOverwrite")
  let writeDepfiles ← setting members "writeDepfiles" (readFlag "writeDepfiles")
  return {
    inputs := inputs.getD [], outDir, jobs, dryRun, noOverwrite, fileMode,
    writeDepfiles }

/-- Reads the text of a configuration. -/
def parse [Support] (base : Path) (s : Text) : Except Error Config :=
  match Support.parseJson s with
  | .error reason => .error (.malformed reason)
  | .ok v =>
    match v.members? with
    | none => .error .notAnObject
    | some members => ofMembers base members

/-- Why a file gives no configuration. -/
inductive LoadError where
  | unreadable (path : Path)
  | invalid (e : Error)
deriving Repr, DecidableEq, Inhabited

def LoadError.message : LoadError → Text
  | .unreadable p => "failed to read config " ++ p.beforeNul.quoted
  | .invalid e => e.message

/-- Reads a configuration file. The paths in it are seen from its
directory. -/
def load [Support] (fs : FileSystem) (p : Path) : Except LoadError Config :=
  match fs.fileText? p with
  | none => .error (.unreadable p)
  | some text => (parse (Path.parent p) text).mapError .invalid

end Config
end MirrorAdapter
