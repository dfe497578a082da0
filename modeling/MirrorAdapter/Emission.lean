import MirrorAdapter.Compile
import MirrorAdapter.Output

/-!
# Emitting adapters

The headers of all mirror types that compile are written below one directory,
after the header that all of them rely on. What is to be written is settled
before anything is.
-/
namespace MirrorAdapter
namespace Emission

structure Options where
  outDir : Path
  /-- Whether every generated header gets a dependency file. -/
  writeDepfiles : Bool := false
  policy : Output.Policy := {}
deriving Repr, DecidableEq, Inhabited

inductive Error where
  | noDirectory
  /-- The header that generated code relies on is not at hand. -/
  | noRuntime
  | output (e : Output.Error)
deriving Repr, DecidableEq, Inhabited

def Error.message : Error → Text
  | .noDirectory => "output directory is required"
  | .noRuntime => "failed to read C++ runtime header"
  | .output e => e.message

/-- The counts of an emission. -/
structure Summary where
  emitted : Nat := 0
  failed : Nat := 0
  /-- Outputs written, or that would have been without a dry run. -/
  files : Nat := 0
deriving Repr, DecidableEq, Inhabited

/-- What came of an emission. -/
structure Result where
  fileSystem : FileSystem
  recorded : List Path := []
  log : Log := []
  summary : Except Error Summary

/-- The outputs for one header of a declaration. -/
def headerOutputs (fs : FileSystem) (o : Options) (source : Path)
    (a : Adapter.Artifact) : List Output :=
  let header : Output := ⟨o.outDir, a.path, a.content⟩
  if o.writeDepfiles then [header, Output.depfile fs header [source]]
  else [header]

/-- All outputs, in the order in which they are written. -/
def outputs (fs : FileSystem) (o : Options) (runtime : Text)
    (compilations : List Compilation) : List Output :=
  ⟨o.outDir, Adapter.runtimeName, runtime⟩ :: compilations.flatMap
      fun c => c.headers.flatMap (headerOutputs fs o c.sourceFile)

/-- Where the header that generated code relies on is looked for: below the
directory that the compiler was built from, and below the working
directory. -/
def runtimePaths (sources : Path) : List Path :=
  let place : Path := "runtime/cpp/" ++ Adapter.runtimeName
  [Path.join sources place, place]

/-- The text of that header; the first place where it can be read decides. -/
def loadRuntime (fs : FileSystem) (sources : Path) : Option Text :=
  (runtimePaths sources).findSome? fs.read?

variable [Support]

/-- Writes the adapters of a module; `runtime` is the text of the header that
they rely on. -/
def run (fs : FileSystem) (runtime : Option Text) (o : Options)
    (m : Decl.Module) : Result :=
  if o.outDir.isEmpty then { fileSystem := fs, summary := .error .noDirectory }
  else
    let compilations := compileModule m
    let log := compilations.flatMap (·.log)
    match runtime with
    | none => { fileSystem := fs, log, summary := .error .noRuntime }
    | some runtime =>
      let outputs := outputs fs o runtime compilations
      let written := Output.writeAll o.policy fs outputs
      { fileSystem := written.fileSystem
        recorded := written.recorded
        log
        summary :=
          match written.error with
          | some e => .error (.output e)
          | none =>
            .ok
              { emitted := compilations.countP fun c => !c.failed
                failed := compilations.countP (·.failed)
                files := outputs.length } }

end Emission
end MirrorAdapter
