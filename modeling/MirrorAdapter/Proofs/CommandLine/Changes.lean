import MirrorAdapter.CommandLine.Run
import MirrorAdapter.Proofs.Emission.Containment
import MirrorAdapter.Support.Standard

/-!
# What a run changes

Only an emission changes the file system, and only if it has all it needs and
is no dry run. Then whatever it changes belongs to the output directory, but
that a NUL byte in the path of the directory makes it replace the directory.
-/
namespace MirrorAdapter

open FileSystem (Confined IsBelow IsOnWay routeOf)

/-- What may become of a route if all changes belong to an output directory:
below the directory anything; the directory and what is missing on the way to
it may be made, as directories. -/
def FileSystem.ContainedAt (outDir : Path) (fs after : FileSystem)
    (r : Route) : Prop :=
  IsBelow (routeOf fs.working outDir) r ∨ after.get? r = fs.get? r ∨
    IsOnWay fs.working outDir r ∧ fs.get? r = none ∧
    after.get? r = some .directory

/-- A module is read from the files that were found. -/
theorem Discovery.eq_readFiles_of_readModule {fs : FileSystem}
    {inputs : List Path} {m : Decl.Module} {log : Log}
    (h : readModule fs inputs = (some m, log)) :
    (find fs inputs).1 ≠ [] ∧ m = (Decl.readFiles (find fs inputs).1).1 := by
  unfold readModule at h
  dsimp only at h
  split at h
  · cases h
  · rename_i some_found
    cases h
    exact ⟨by simpa using some_found, rfl⟩

namespace CommandLine

open FileSystem (ContainedAt)

variable {env : Environment} {s : Settings} {m : Decl.Module} {log : Log}

theorem fileSystem_emit [Support] (given : s.outDir ≠ []) :
    (emit env s m log).fileSystem =
      (Emission.run env.fileSystem env.runtime s.emission m).fileSystem := by
  unfold emit
  rw [if_neg (by simpa using given)]
  dsimp only
  split <;> rfl

theorem fileSystem_emit_of_dryRun [Support] (dry : s.dryRun = true) :
    (emit env s m log).fileSystem = env.fileSystem := by
  by_cases given : s.outDir = []
  · simp [emit, given, refuse]
  · rw [fileSystem_emit given]
    exact (Emission.run_of_writes
        (Output.writes_of_dryRun dry env.fileSystem _)).1

/-- A command that changes anything writes adapters of what it has read. -/
theorem perform_cases [Support] (env : Environment)
    (command : Command) (s : Settings) :
    (perform env command s).fileSystem = env.fileSystem ∨ command = .cpp ∧
        let found := (Discovery.find env.fileSystem s.inputs).1
        found ≠ [] ∧ s.outDir ≠ [] ∧ s.dryRun = false ∧
        (perform env command s).fileSystem =
          (Emission.run env.fileSystem env.runtime s.emission
              (Decl.readFiles found).1).fileSystem := by
  unfold perform
  dsimp only
  split
  · exact .inl rfl
  split
  · exact .inl rfl
  rename_i m log read
  have found := Discovery.eq_readFiles_of_readModule read
  cases command with
  | ast => exact .inl rfl
  | table => exact .inl rfl
  | cpp =>
    by_cases given : s.outDir = []
    · exact .inl (by simp [emit, given, refuse])
    cases dry : s.dryRun with
    | true => exact .inl (fileSystem_emit_of_dryRun dry)
    | false =>
      refine .inr ⟨rfl, found.1, given, rfl, ?_⟩
      rw [← found.2]
      exact fileSystem_emit given

/-- A run leaves the file system as it is unless it writes adapters: the
command is to do so, no help is asked for, arguments and configuration make
sense, some file is found, there is an output directory, and it is no dry run.
Then all changes belong to the output directory, except that where a NUL byte
ends its path it may itself be replaced or removed; so they all belong to it
iff there is no such byte or that has not happened. -/
theorem changes_of_run [Support] (env : Environment) (words : List Text) :
    let fs := env.fileSystem
    let after := (run env words).fileSystem
    after = fs ∨
      ∃ arguments config, readWords words = .ok (.run .cpp arguments) ∧
        configuration fs arguments = .ok config ∧
        let s := Settings.of config arguments
        let out := routeOf fs.working s.outDir
        (Discovery.find fs s.inputs).1 ≠ [] ∧ s.outDir ≠ [] ∧
        s.dryRun = false ∧ after.working = fs.working ∧
        (∀ r, r ≠ out → ContainedAt s.outDir fs after r) ∧
        ((∀ r, ContainedAt s.outDir fs after r) ↔
          (0 : Byte) ∉ s.outDir ∨ after.get? out = fs.get? out ∨
          fs.get? out = none ∧ after.get? out = some .directory) := by
  intro fs after
  cases request : readWords words with
  | error e => exact .inl (by simp [after, fs, run, request])
  | ok asked =>
    cases asked with
    | help command => exact .inl (by simp [after, fs, run, request])
    | run command arguments =>
      cases configured : configuration fs arguments with
      | error e =>
        exact .inl
          (by simp [after, fs, run, request, execute, configured, refuse])
      | ok config =>
        have whole :
            after =
              (perform env command
                  (Settings.of config arguments)).fileSystem := by
          simp [after, fs, run, request, execute, configured]
        obtain same | ⟨rfl, found, given, wet, emitted⟩ :=
          perform_cases env command (Settings.of config arguments)
        · exact .inl (whole.trans same)
        refine .inr ⟨arguments, config, rfl, configured, ?_⟩
        intro s out
        have confined :=
          Emission.confined_run (named_readFiles (Discovery.find fs s.inputs).1)
            fs env.runtime s.emission
        rw [← emitted, ← whole] at confined
        have contained (r : Route) (other : (0 : Byte) ∈ s.outDir → r ≠ out) :
            ContainedAt s.outDir fs after r := by
          rcases confined.frame r with (below | ⟨nul, replaced⟩) | rest
          · exact .inl below
          · exact absurd replaced (other nul)
          · exact .inr rest
        refine ⟨found, given, wet, confined.working,
          fun r other => contained r fun _ => other, ?_, ?_⟩
        · intro all
          rcases all out with ⟨-, below⟩ | same | ⟨-, made⟩
          · exact absurd rfl below
          · exact .inr (.inl same)
          · exact .inr (.inr made)
        · rintro (plain | kept) r
          · exact contained r fun nul => absurd nul plain
          · by_cases here : r = out
            · subst here
              exact .inr (kept.imp_right fun made => ⟨.inl rfl, made⟩)
            · exact contained r fun _ => here

/-- Below a directory `b`, the header that generated code relies on as an
empty file. -/
def emptyRuntime : List (Route × Node) :=
  let directory := ["b", "runtime", "cpp"].map Text.ofString
  [(directory.take 1, .directory),
    (directory.take 2, .directory), (directory, .directory),
    (directory ++ [Adapter.runtimeName], .file ⟨FileMode.writable, []⟩)]

/-- A directory, a mirror file without declarations, and a configuration that
names the directory with a NUL byte. -/
def nulDirectory : Environment where
  fileSystem :=
    { entries :=
        [([Text.ofString "c.json"],
            .file ⟨FileMode.writable, "\x7b\"outDir\": \"d\\u0000\"\x7d"⟩),
          ([Text.ofString "in.mirror"], .file ⟨FileMode.writable, []⟩),
          ([Text.ofString "d"], .directory)] ++
        emptyRuntime }
  sources := "b"

section
open Support.Standard

/-- The output directory is removed, and a file takes its place. -/
theorem nulDirectory_replaced :
    let fs := nulDirectory.fileSystem
    let outcome :=
      run nulDirectory ["cpp", "--config", "c.json", "--input", "in.mirror"]
    outcome.exitCode = 0 ∧ ∃ config,
        configuration fs [.config "c.json", .input "in.mirror"] = .ok config ∧
        let outDir :=
          (Settings.of config [.config "c.json", .input "in.mirror"]).outDir
        routeOf fs.working outDir = [Text.ofString "d"] ∧
        fs.get? [Text.ofString "d"] = some .directory ∧
        outcome.fileSystem.get? [Text.ofString "d"] =
          some (.file ⟨FileMode.readOnly, []⟩) ∧
        ¬ContainedAt outDir fs outcome.fileSystem [Text.ofString "d"] := by
  intro fs outcome
  have computed :
      outcome.exitCode = 0 ∧
      (∃ config ∈ (configuration fs
                  [.config "c.json", .input "in.mirror"]).toOption,
          routeOf fs.working
            (Settings.of config [.config "c.json", .input "in.mirror"]).outDir =
            [Text.ofString "d"]) ∧
      fs.get? [Text.ofString "d"] = some .directory ∧
      outcome.fileSystem.get? [Text.ofString "d"] =
        some (.file ⟨FileMode.readOnly, []⟩) := by
    decide +kernel
  obtain ⟨success, ⟨config, configured, route⟩, before, after⟩ := computed
  refine ⟨success, config, eq_ok_of_mem_toOption configured, route, before,
    after, ?_⟩
  rintro (⟨-, below⟩ | same | ⟨-, missing, -⟩)
  · exact below route.symm
  · rw [before, after] at same
    cases same
  · rw [before] at missing
    cases missing

end

end CommandLine
end MirrorAdapter
