import MirrorAdapter.CommandLine.Arguments

/-!
# Help texts

What is printed where a command line makes no sense, and where help is asked
for.
-/
namespace MirrorAdapter
namespace CommandLine

def lines (texts : List String) : Text :=
  Text.terminated "\n" (texts.map Text.ofString)

def usage : Text :=
  lines
    ["Usage: archwithc <ast|table|cpp> --input <path> [options]",
     "Try: archwithc --help"]

def UsageError.report (e : UsageError) : Text := e.line ++ usage

def introduction : Text :=
  lines ["NAME", "  archwithc - mirror type to archive adapter compiler",
    "", "SYNOPSIS",
    "  archwithc <command> --input <path> [--input <path> ...] [options]",
    "  archwithc <command> --config <file.json> [options]",
    "  archwithc --help", "", "DESCRIPTION",
    "  archwithc reads .mirror declarations of local mirror types annotated with",
    "  archive_with attributes, checks every field correspondence against its remote",
    "  types, and generates C++ adapters that archive, serialize and, where possible,",
    "  deserialize the remote types through the mirror's layout.",
    "", "COMMANDS", "  ast    Print the parsed AST of all inputs.",
    "  table  Print validated field mapping tables as JSON.",
    "  cpp    Generate C++ adapter headers.", ""]

def commonOptions : Text :=
  lines ["COMMON OPTIONS", "  --input <path>",
    "      A .mirror file, or a directory scanned recursively for .mirror files.",
    "      Repeat as needed. Adds to inputs listed in --config.",
    "  --config <file.json>",
    "      JSON object with keys inputs, outDir, jobs, dryRun, noOverwrite,",
    "      fileMode and writeDepfiles. Command-line options take precedence.",
    "  --jobs <N>",
    "      Run per-mirror pipelines on N worker threads (default: 1).",
    "  --help, -h",
    "      Print this help text. With a command, prints command-focused guidance.",
    ""]

def codegenOptions : Text :=
  lines ["CODEGEN OPTIONS (cpp)", "  --out-dir <dir>",
    "      Output directory root for generated files.", "  --dry-run",
    "      Compute outputs without writing them.", "  --no-overwrite",
    "      Fail instead of replacing an existing output.",
    "  --file-mode <octal>",
    "      Permission bits applied to written files (default: 0444).",
    "  --write-depfiles",
    "      Write a make-style <output>.d depfile next to every generated header.",
    "  --list-outputs",
    "      Print the absolute path of every generated file to stdout."]

def Command.details : Command → Text
  | .ast =>
    lines
      ["  Stops after parsing. Directive and validation errors are not reported."]
  | .table =>
    lines ["  Runs every check. Tables of mirrors with errors are omitted."]
  | .cpp =>
    lines
      ["  Requires --out-dir. Honors --dry-run, --no-overwrite, --file-mode,",
       "  --write-depfiles and --list-outputs."]

/-- What follows the help text for one command. -/
def Command.focus (c : Command) : Text :=
  "\nCOMMAND DETAILS (" ++ c.word ++ ")\n" ++ c.details

/-- The help text, with details of a command if one is given. -/
def help (command : Option Command) : Text :=
  let focus : Text :=
    match command with
    | none => []
    | some c => c.focus
  introduction ++ commonOptions ++ codegenOptions ++ focus

end CommandLine
end MirrorAdapter
