import MirrorAdapter.Proofs.Emission
import MirrorAdapter.Proofs.Writing.Keeping
import MirrorAdapter.Support.Standard

/-!
# Emissions as runs over outputs

An emission is settled before it starts: what it sets out to write depends on
the module and the options, but not on the policy. So a dry run tells
beforehand what a successful emission records and counts, and an emission that
overwrites nothing leaves all that was there, whichever output it stops at.
-/
namespace MirrorAdapter

open Decl (Module)

namespace Emission

/-- The outputs that an emission sets out to write. There are none without an
output directory or without the header that generated code relies on. -/
def planned [Support] (fs : FileSystem) (runtime : Option Text)
    (o : Options) (m : Module) : List Output :=
  match runtime with
  | none => []
  | some text =>
    if o.outDir.isEmpty then [] else outputs fs o text (compileModule m)

/-- Why an output could not be written, if an emission stopped at one. -/
def Result.failure? (result : Result) : Option Output.Error :=
  match result.summary with
  | .error (.output e) => some e
  | _ => none

/-- What an emission has written. -/
def Result.written (result : Result) : Output.Written :=
  ⟨result.fileSystem, result.recorded, result.failure?⟩

/-- The counts of an emission of a module that wrote so many files. -/
def counts [Support] (m : Module) (files : Nat) : Summary where
  emitted := (compileModule m).countP fun c => !c.failed
  failed := (compileModule m).countP (·.failed)
  files := files

section
variable [Support]
variable (fs : FileSystem) (runtime : Option Text) (o : Options) (m : Module)

theorem written_run :
    (run fs runtime o m).written =
      Output.writeAll o.policy fs (planned fs runtime o m) := by
  unfold run planned
  cases runtime with
  | none => split <;> rfl
  | some text =>
    dsimp only
    split
    · rfl
    · obtain ⟨after, recorded, error⟩ :=
        Output.writeAll o.policy fs (outputs fs o text (compileModule m))
      cases error <;> rfl

theorem log_run :
    (run fs runtime o m).log =
      if o.outDir.isEmpty then [] else (compileModule m).flatMap (·.log) := by
  unfold run
  split
  · rfl
  · cases runtime <;> rfl

/-- An emission succeeds iff it has all it needs and all outputs are
written. -/
theorem summary_eq_ok_iff (s : Summary) :
    (run fs runtime o m).summary = .ok s ↔
      o.outDir ≠ [] ∧ runtime.isSome = true ∧
      Output.Succeeds o.policy fs (planned fs runtime o m) ∧
      s = counts m (planned fs runtime o m).length := by
  unfold run planned Output.Succeeds
  cases runtime with
  | none => split <;> simp
  | some text =>
    dsimp only
    split
    · rename_i empty
      simp [List.isEmpty_iff.mp empty]
    · rename_i nonempty
      obtain ⟨after, recorded, error⟩ :=
        Output.writeAll o.policy fs (outputs fs o text (compileModule m))
      cases error with
      | some e => simp
      | none =>
        have directory : o.outDir ≠ [] :=
          fun empty => nonempty (by rw [empty]; rfl)
        exact ⟨fun same => ⟨directory, rfl, rfl, (Except.ok.inj same).symm⟩,
          fun ⟨_, _, _, same⟩ => by rw [same]; rfl⟩

variable {fs runtime o m}

/-- An emission that can write all its outputs does so, and records them. -/
theorem run_of_writes {after : FileSystem}
    (h : Output.Writes o.policy fs (planned fs runtime o m) after) :
    (run fs runtime o m).fileSystem = after ∧ (run fs runtime o m).recorded =
      (planned fs runtime o m).map (·.resolved fs) := by
  have written := (written_run fs runtime o m).trans h.writeAll_eq
  exact ⟨congrArg (·.fileSystem) written, congrArg (·.recorded) written⟩

theorem writes_of_run {s : Summary}
    (success : (run fs runtime o m).summary = .ok s) :
    Output.Writes o.policy fs (planned fs runtime o m)
      (run fs runtime o m).fileSystem := by
  obtain ⟨-, -, succeeds, -⟩ :=
    (summary_eq_ok_iff fs runtime o m s).mp success
  have writes := Output.writes_of_succeeds succeeds
  rwa [← written_run] at writes

end

/-! ## Dry runs -/

/-- The options for a dry run, or for one that is none. -/
def Options.withDryRun (o : Options) (dryRun : Bool) : Options :=
  { o with policy := { o.policy with dryRun } }

/-- A dry run leaves the file system as it is, and tells what the emission
reports. The emission records what the dry run has recorded up to the output
it stops at; if it succeeds, both record and count the same. -/
theorem dryRun_predicts [Support] (fs : FileSystem) (runtime : Option Text)
    (o : Options) (m : Module) :
    let dry := run fs runtime (o.withDryRun true) m
    let emission := run fs runtime (o.withDryRun false) m
    dry.fileSystem = fs ∧ dry.log = emission.log ∧
    emission.recorded <+: dry.recorded ∧ ∀ s, emission.summary = .ok s →
      dry.summary = .ok s ∧ dry.recorded = emission.recorded := by
  intro dry emission
  have preview :
      Output.Writes (o.withDryRun true).policy fs (planned fs runtime o m) fs :=
    Output.writes_of_dryRun rfl fs _
  obtain ⟨unchanged, records⟩ := run_of_writes preview
  refine ⟨unchanged, ?_, ?_, fun s success => ⟨?_, ?_⟩⟩
  · rw [log_run, log_run]
    rfl
  · have recorded : emission.recorded = _ :=
      congrArg (·.recorded) (written_run fs runtime (o.withDryRun false) m)
    rw [recorded, records]
    exact Output.recorded_prefix _ fs _
  · obtain ⟨directory, header, -, same⟩ :=
      (summary_eq_ok_iff fs runtime (o.withDryRun false) m s).mp success
    exact (summary_eq_ok_iff fs runtime (o.withDryRun true) m s).mpr
      ⟨directory, header, preview.succeeds, same⟩
  · rw [records, (run_of_writes (writes_of_run success)).2]
    rfl

section
open Support.Standard

theorem dryRun_oneFails :
    let dry :=
      run olderHeader (some []) (withDepfiles.withDryRun true)
        (Decl.readFiles oneFails).1
    let emission :=
      run olderHeader (some []) (withDepfiles.withDryRun false)
        (Decl.readFiles oneFails).1
    ∃ s, emission.summary = .ok s ∧ s.emitted = 1 ∧ s.failed = 1 ∧
      dry.summary = .ok s ∧ dry.recorded = emission.recorded ∧
      dry.fileSystem = olderHeader := by
  intro dry emission
  have found :
      ∃ s ∈ emission.summary.toOption, s.emitted = 1 ∧ s.failed = 1 := by
    decide +kernel
  obtain ⟨s, success, emitted, failed⟩ := found
  obtain ⟨unchanged, -, -, predicts⟩ :=
    dryRun_predicts olderHeader (some []) withDepfiles
      (Decl.readFiles oneFails).1
  obtain ⟨counted, recorded⟩ := predicts s (eq_ok_of_mem_toOption success)
  exact ⟨s, eq_ok_of_mem_toOption success, emitted, failed, counted,
    recorded, unchanged⟩

end

/-! ## Runs that overwrite nothing -/

/-- An emission that overwrites nothing keeps every file that was there. It
writes its outputs in order up to the end, or up to the first that cannot be
written and that it fails with. The new files are those of the outputs before,
each with all of its content, and in a dry run there are none. Only if it is
the device that failed the output it stopped at, what the device has stored of
that one is there, too: the compiler does not remove it. -/
theorem files_of_noOverwrite [Support] (fs : FileSystem)
    (runtime : Option Text) (o : Options) (m : Module)
    (keep : o.policy.noOverwrite = true) :
    let result := run fs runtime o m
    let isNew (route : Route) (f : StoredFile) : Prop :=
      result.fileSystem.get? route = some (.file f) ∧
        fs.get? route ≠ some (.file f)
    (∀ route f, fs.get? route = some (.file f) →
        result.fileSystem.get? route = some (.file f)) ∧
    ∃ done rest, planned fs runtime o m = done ++ rest ∧
      Output.Reaches o.policy fs done rest result.written ∧
      (∀ route f, isNew route f ↔ o.policy.dryRun = false ∧
        ((∃ out ∈ done, result.fileSystem.locate out.path = .ok route ∧
            f = out.stored o.policy) ∨
          ∃ out ∈ rest.head?, result.fileSystem.locate out.path = .ok route ∧
            Output.Remains o.policy fs out result.failure? f)) ∧
      ((∀ out ∈ rest.head?, out.fault fs = none) →
        ∀ route f, isNew route f ↔ o.policy.dryRun = false ∧
          ∃ out ∈ done, result.fileSystem.locate out.path = .ok route ∧
            f = out.stored o.policy) := by
  intro result isNew
  obtain ⟨done, rest, split, reaches⟩ :=
    Output.exists_reaches o.policy fs (planned fs runtime o m)
  rw [← written_run] at reaches
  have kept_and_new :
      (∀ route f, fs.get? route = some (.file f) →
          result.fileSystem.get? route = some (.file f)) ∧
      ∀ route f, isNew route f ↔ o.policy.dryRun = false ∧
        ((∃ out ∈ done, result.fileSystem.locate out.path = .ok route ∧
            f = out.stored o.policy) ∨
          ∃ out ∈ rest.head?, result.fileSystem.locate out.path = .ok route ∧
            Output.Remains o.policy fs out result.failure? f) := by
    cases dry : o.policy.dryRun with
    | false =>
      have kept := reaches.preserves keep dry
      exact ⟨fun route f => kept.kept route _, fun route f =>
        (reaches.new_file_iff keep dry route f).trans (and_iff_right rfl).symm⟩
    | true =>
      have same : result.fileSystem = fs :=
        (run_of_writes (Output.writes_of_dryRun dry fs _)).1
      exact ⟨fun route f there => same ▸ there, by simp [isNew, same]⟩
  obtain ⟨kept, new⟩ := kept_and_new
  refine ⟨kept, done, rest, split, reaches, new, fun sound route f => ?_⟩
  rw [new route f, or_iff_left]
  rintro ⟨out, first, -, fault, failed, -⟩
  rw [sound out first] at failed
  cases failed

/-- Nothing may be overwritten. -/
def keepOlder : Options :=
  { outDir := "out", policy := { noOverwrite := true } }

/-- The place of the first header. -/
def firstHeader : Route :=
  ["w", "out", "A.repr.hpp"].map Text.ofString

/-- A device that has no room for more than a few bytes of that header. -/
def fullDevice : FileSystem :=
  { olderHeader with faults := [(firstHeader, .write 0o644 4)] }

section
open Support.Standard

theorem files_of_keepOlder :
    let m := (Decl.readFiles oneFails).1
    let result := run olderHeader (some []) keepOlder m
    let broken := run fullDevice (some []) keepOlder m
    keepOlder.policy.noOverwrite = true ∧
    (result.failure? = some (.keep "out/A.hpp") ∧
      result.fileSystem.get? (["w", "out", "A.hpp"].map Text.ofString) =
        some (.file ⟨FileMode.readOnly, "old"⟩) ∧
      ∃ done rest, planned olderHeader (some []) keepOlder m = done ++ rest ∧
        Output.Reaches keepOlder.policy olderHeader done rest result.written ∧
        ∃ out ∈ done, result.fileSystem.locate out.path = .ok firstHeader) ∧
    broken.failure? = some (.write "out/A.repr.hpp") ∧
    broken.fileSystem.get? (["w", "out", "A.hpp"].map Text.ofString) =
      some (.file ⟨FileMode.readOnly, "old"⟩) ∧
    ∃ out, Output.Remains keepOlder.policy fullDevice out broken.failure?
        ⟨0o644, "// G"⟩ := by
  intro m result broken
  refine ⟨rfl, ?_, ?_⟩
  · have failed : result.failure? = some (.keep "out/A.hpp") := by
      decide +kernel
    have made : ∃ a ∈ headersOf m, result.fileSystem.get? firstHeader =
        some (.file ⟨FileMode.readOnly, a.content⟩) := by
      decide +kernel
    have free : olderHeader.get? firstHeader = none := by decide
    obtain ⟨a, -, made⟩ := made
    obtain ⟨kept, done, rest, split, reaches, -, new⟩ :=
      files_of_noOverwrite olderHeader (some []) keepOlder m rfl
    have sound : ∀ out ∈ rest.head?, out.fault olderHeader = none :=
      fun _ _ => rfl
    obtain ⟨out, inside, located, -⟩ :=
      ((new sound _ _).mp ⟨made, by simp [free]⟩).2
    exact ⟨failed, kept _ _ (by decide), done, rest, split, reaches, out,
      inside, located⟩
  · have failed : broken.failure? = some (.write "out/A.repr.hpp") := by
      decide +kernel
    have left : broken.fileSystem.get? firstHeader =
        some (.file ⟨0o644, "// G"⟩) := by
      decide +kernel
    have free : fullDevice.get? firstHeader = none := by decide
    obtain ⟨kept, _, _, -, -, new, -⟩ :=
      files_of_noOverwrite fullDevice (some []) keepOlder m rfl
    have here := ((new _ _).mp ⟨left, by simp [free]⟩).2
    obtain ⟨out, -, -, whole⟩ | ⟨out, -, -, remains⟩ := here
    · have mode : 0o644 = FileMode.readOnly := congrArg StoredFile.mode whole
      exact absurd mode (by decide)
    · exact ⟨failed, kept _ _ (by decide), out, remains⟩

end

end Emission
end MirrorAdapter
