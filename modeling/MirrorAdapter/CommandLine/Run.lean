import MirrorAdapter.CommandLine.Help
import MirrorAdapter.Decl.Printer
import MirrorAdapter.Discovery
import MirrorAdapter.Emission

/-!
# Runs of the program

A run turns words and a file system into an exit code, two texts and the file
system after it. An argument decides a setting before the configuration, and
that before the default; of several arguments for one setting the last
decides, while all inputs count.
-/
namespace MirrorAdapter
namespace CommandLine

/-- What a run finds around it. -/
structure Environment where
  fileSystem : FileSystem
  /-- The directory that the program was built from. -/
  sources : Path := []
deriving Inhabited

/-- The text of the header that generated code relies on, as a run finds
it. -/
def Environment.runtime (env : Environment) : Option Text :=
  Emission.loadRuntime env.fileSystem env.sources

/-- What comes of a run. -/
structure Outcome where
  exitCode : UInt32
  /-- What is printed as the result. -/
  output : Text := []
  /-- What is printed for the user to read. -/
  messages : Text := []
  /-- Whether the time of the run is printed at the end of the messages. -/
  timed : Bool := false
  fileSystem : FileSystem

/-- The messages with the time that the run took where it belongs. -/
def Outcome.messagesWithin (o : Outcome) (time : Text) : Text :=
  let clock : Text := if o.timed then "  elapsed: " ++ time ++ "\n" else []
  o.messages ++ clock

/-- A number of milliseconds in seconds. -/
def seconds (milliseconds : Nat) : Text :=
  let fraction := milliseconds % 1000
  Text.decimal (milliseconds / 1000) ++ "." ++
    [Text.digit (fraction / 100), Text.digit (fraction / 10 % 10),
      Text.digit (fraction % 10)] ++
    "s"

/-- The settings of a run. -/
structure Settings where
  inputs : List Path
  outDir : Path
  /-- The number of workers, which does not show in the result. -/
  jobs : Nat
  dryRun : Bool
  noOverwrite : Bool
  fileMode : Nat
  writeDepfiles : Bool
  listOutputs : Bool
deriving Repr, DecidableEq, Inhabited

/-- The last value that arguments give for a setting. -/
def lastValue {α : Type} (value : Argument → Option α)
    (arguments : List Argument) : Option α :=
  (arguments.filterMap value).getLast?

def Argument.input? : Argument → Option Path
  | .input p => some p
  | _ => none

def Argument.config? : Argument → Option Path
  | .config p => some p
  | _ => none

def Argument.outDir? : Argument → Option Path
  | .outDir p => some p
  | _ => none

def Argument.jobs? : Argument → Option Nat
  | .jobs n => some n
  | _ => none

def Argument.fileMode? : Argument → Option Nat
  | .fileMode mode => some mode
  | _ => none

/-- The settings that arguments and a configuration give together. -/
def Settings.of (c : Config) (arguments : List Argument) : Settings where
  inputs := c.inputs ++ arguments.filterMap Argument.input?
  outDir := ((lastValue Argument.outDir? arguments).or c.outDir).getD []
  jobs := ((lastValue Argument.jobs? arguments).or c.jobs).getD 1
  dryRun := arguments.contains .dryRun || c.dryRun.getD false
  noOverwrite := arguments.contains .noOverwrite || c.noOverwrite.getD false
  fileMode :=
    ((lastValue Argument.fileMode? arguments).or c.fileMode).getD
      FileMode.readOnly
  writeDepfiles :=
    arguments.contains .writeDepfiles || c.writeDepfiles.getD false
  listOutputs := arguments.contains .listOutputs

def Settings.emission (s : Settings) : Emission.Options where
  outDir := s.outDir
  writeDepfiles := s.writeDepfiles
  policy :=
    { dryRun := s.dryRun, noOverwrite := s.noOverwrite, fileMode := s.fileMode }

/-- The configuration that arguments ask for; without one it gives nothing. -/
def configuration [Support] (fs : FileSystem) (arguments : List Argument) :
    Except Config.LoadError Config :=
  match lastValue Argument.config? arguments with
  | none => .ok {}
  | some p => if p.isEmpty then .ok {} else Config.load fs p

/-- A run that ends before it has begun, with a line for the user. -/
def refuse (fs : FileSystem) (line : Text) : Outcome :=
  { exitCode := 1, messages := line ++ "\n", fileSystem := fs }

/-- The exit code of a run with the given reports. -/
def exitCodeOf (log : Log) : UInt32 := if log.hasErrors then 1 else 0

/-- A run that shows a text, and then reports. -/
def showText (fs : FileSystem) (text : Text) (log : Log) : Outcome :=
  { exitCode := exitCodeOf log, output := text, messages := log.render,
    fileSystem := fs }

/-- The output directory as the summary names it. -/
def outputRoot (fs : FileSystem) (outDir : Path) : Path :=
  if outDir.isEmpty then "stdout" else Path.absolute fs.workingPath outDir

/-- The summary of an emission up to the time it took. -/
def summaryText (root : Path) (s : Emission.Summary) : Text :=
  "Run summary:\n" ++
    "  command: " ++ Command.cpp.word ++ "\n" ++
    "  output root: " ++ root ++ "\n" ++
    "  files generated: " ++ Text.decimal s.files ++ "\n" ++
    "  mirrors emitted: " ++ Text.decimal s.emitted ++ "\n" ++
    "  mirrors failed: " ++ Text.decimal s.failed ++ "\n"

section
variable [Support]

/-- Shows the mapping tables of a module. -/
def showTables (fs : FileSystem) (m : Decl.Module) (log : Log) : Outcome :=
  let compilations := compileModule m
  showText fs (renderTablesOf compilations)
    (log ++ compilations.flatMap (·.log))

/-- Writes the adapters of a module. -/
def emit (env : Environment) (s : Settings) (m : Decl.Module) (log : Log) :
    Outcome :=
  if s.outDir.isEmpty then
    refuse env.fileSystem "--out-dir is required for 'cpp' command"
  else
    let result := Emission.run env.fileSystem env.runtime s.emission m
    let log := log ++ result.log
    match result.summary with
    | .error e =>
      { exitCode := 1, messages := e.message ++ "\n" ++ log.render,
        fileSystem := result.fileSystem }
    | .ok summary =>
      { exitCode := exitCodeOf log
        output :=
          if s.listOutputs then Text.terminated "\n" result.recorded else []
        messages :=
          log.render ++ summaryText (outputRoot env.fileSystem s.outDir) summary
        timed := true
        fileSystem := result.fileSystem }

/-- Carries out a command with its settings. -/
def perform (env : Environment) (command : Command) (s : Settings) : Outcome :=
  let fs := env.fileSystem
  if s.inputs.isEmpty then refuse fs "At least one --input is required"
  else
    match Discovery.readModule fs s.inputs with
    | (none, log) =>
      { exitCode := 1, messages := log.render, fileSystem := fs }
    | (some m, log) =>
      match command with
      | .ast => showText fs (Decl.Module.outline m) log
      | .table => showTables fs m log
      | .cpp => emit env s m log

/-- Carries out a command as its arguments and the configuration have it. -/
def execute (env : Environment) (command : Command)
    (arguments : List Argument) : Outcome :=
  match configuration env.fileSystem arguments with
  | .error e => refuse env.fileSystem e.message
  | .ok config => perform env command (Settings.of config arguments)

/-- Runs the program on the words after its name. -/
def run (env : Environment) (words : List Text) : Outcome :=
  match readWords words with
  | .error e =>
    { exitCode := 1, messages := e.report, fileSystem := env.fileSystem }
  | .ok (.help command) =>
    { exitCode := 0, messages := help command,
      fileSystem := env.fileSystem }
  | .ok (.run command arguments) => execute env command arguments

end

end CommandLine
end MirrorAdapter
