import MirrorAdapter.Config

/-!
# Command lines

The words after the program's name: a command and then arguments in any order.
Words are read from left to right, and the first that makes no sense decides
the error.
-/
namespace MirrorAdapter
namespace CommandLine

/-- What the program can do. -/
inductive Command where
  /-- Show the declarations that were read. -/
  | ast
  /-- Show the mapping tables. -/
  | table
  /-- Write adapters. -/
  | cpp
deriving Repr, DecidableEq, Inhabited

def Command.word : Command → Text
  | .ast => "ast"
  | .table => "table"
  | .cpp => "cpp"

def Command.all : List Command := [.ast, .table, .cpp]

def Command.ofWord? (word : Text) : Option Command :=
  Command.all.find? (·.word == word)

/-- An argument that was given. -/
inductive Argument where
  | input (path : Path)
  | config (path : Path)
  | outDir (path : Path)
  | jobs (n : Nat)
  | fileMode (mode : Nat)
  | dryRun
  | noOverwrite
  | writeDepfiles
  | listOutputs
  | help
deriving Repr, DecidableEq, Inhabited

/-- Why a command line makes no sense. -/
inductive UsageError where
  | noCommand
  | unknownCommand (word : Text)
  | unknownArgument (word : Text)
  | missingValue (option : Text)
  | jobs (value : Text)
  | fileMode (value : Text)
deriving Repr, DecidableEq, Inhabited

/-- The line that tells the error; a missing command has none. -/
def UsageError.line : UsageError → Text
  | .noCommand => []
  | .unknownCommand word => "Unknown command: " ++ word ++ "\n"
  | .unknownArgument word => "Unknown argument: " ++ word ++ "\n"
  | .missingValue option => "Missing value for " ++ option ++ "\n"
  | .jobs value => "Invalid --jobs value: " ++ value ++ "\n"
  | .fileMode value => "Invalid --file-mode value: " ++ value ++ "\n"

/-- The arguments that are a single word. -/
def flags : List (Text × Argument) :=
  [("--help", .help), ("-h", .help), ("--dry-run", .dryRun),
    ("--no-overwrite", .noOverwrite), ("--write-depfiles", .writeDepfiles),
    ("--list-outputs", .listOutputs)]

/-- The arguments whose value is the next word. -/
inductive Setting where
  | input
  | config
  | outDir
  | jobs
  | fileMode
deriving Repr, DecidableEq, Inhabited

namespace Setting

def word : Setting → Text
  | .input => "--input"
  | .config => "--config"
  | .outDir => "--out-dir"
  | .jobs => "--jobs"
  | .fileMode => "--file-mode"

def all : List Setting := [.input, .config, .outDir, .jobs, .fileMode]

def ofWord? (word : Text) : Option Setting := all.find? (·.word == word)

/-- Reads a number of workers. -/
def jobCount? (value : Text) : Option Nat :=
  (value.numeral? 10).filter fun n => Config.isJobCount n

/-- The argument with a given value. -/
def withValue (value : Text) : Setting → Except UsageError Argument
  | .input => .ok (.input value)
  | .config => .ok (.config value)
  | .outDir => .ok (.outDir value)
  | .jobs =>
    match jobCount? value with
    | some n => .ok (.jobs n)
    | none => .error (.jobs value)
  | .fileMode =>
    match FileMode.parse? value with
    | some mode => .ok (.fileMode mode)
    | none => .error (.fileMode value)

end Setting

/-- Reads the words after the command. -/
def readArguments : List Text → Except UsageError (List Argument)
  | [] => .ok []
  | word :: rest =>
    match flags.lookup word with
    | some argument => (readArguments rest).map (argument :: ·)
    | none =>
      match Setting.ofWord? word, rest with
      | none, _ => .error (.unknownArgument word)
      | some _, [] => .error (.missingValue word)
      | some setting, value :: rest => do
        let argument ← setting.withValue value
        (readArguments rest).map (argument :: ·)

/-- The words that ask for help in the place of a command. -/
def helpWords : List Text := ["--help", "-h", "help"]

/-- What a command line asks for. -/
inductive Request where
  /-- To be told how the program, or one of its commands, is used. -/
  | help (command : Option Command)
  | run (command : Command) (arguments : List Argument)
deriving Repr, DecidableEq, Inhabited

/-- Reads all words after the program's name. Help goes before everything but
errors. -/
def readWords : List Text → Except UsageError Request
  | [] => .error .noCommand
  | word :: rest =>
    if helpWords.contains word then .ok (.help none)
    else
      match Command.ofWord? word with
      | none => .error (.unknownCommand word)
      | some command => do
        let arguments ← readArguments rest
        return if arguments.contains .help then .help
            (some command) else .run command arguments

end CommandLine
end MirrorAdapter
