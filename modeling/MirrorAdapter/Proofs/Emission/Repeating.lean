import MirrorAdapter.Proofs.Emission
import MirrorAdapter.Proofs.Emission.Runs
import MirrorAdapter.Proofs.Writing.Repeating
import MirrorAdapter.Support.Standard

/-!
# Emitting twice

An emission that is repeated writes the same outputs again. It succeeds and
leaves everything as it was exactly when each output is still where it was
put, in a directory. Outputs of modules with proper names always are, unless
the path of the output directory has a NUL byte: then the output directory
itself has become the only output.
-/
namespace MirrorAdapter

open Decl (Module)
open FileSystem (routeOf)

namespace Emission

/-- The results report the same, and nothing in their file systems differs. -/
structure Result.Alike (a b : Result) : Prop where
  summary : a.summary = b.summary
  log : a.log = b.log
  recorded : a.recorded = b.recorded
  working : a.fileSystem.working = b.fileSystem.working
  nodes : ∀ route, a.fileSystem.get? route = b.fileSystem.get? route

/-- What is set out to be written depends on the working directory alone. -/
theorem planned_congr [Support] {fs after : FileSystem}
    (working : after.working = fs.working) (runtime : Option Text) (o : Options)
    (m : Module) : planned after runtime o m = planned fs runtime o m := by
  have resolved : after.resolved = fs.resolved := by
    funext p
    simp only [FileSystem.resolved, FileSystem.workingPath, working]
  have header : headerOutputs after o = headerOutputs fs o := by
    funext source a
    simp only [headerOutputs, Output.depfile, Output.resolved_congr working,
      resolved]
  have all (text : Text) :
      outputs after o text (compileModule m) =
        outputs fs o text (compileModule m) := by
    simp only [outputs, header]
  simp only [planned, all]

section
variable [Support]
variable {fs : FileSystem} {runtime : Option Text} {o : Options}
    {m : Module} {s : Summary}
variable (wet : o.policy.dryRun = false)
    (success : (run fs runtime o m).summary = .ok s)
include wet success

/-- An emission that can be repeated leaves the outputs where they belong. -/
theorem placed_of_again {s' : Summary}
    (again :
      (run (run fs runtime o m).fileSystem runtime o m).summary = .ok s') :
    ∀ out ∈ planned fs runtime o m,
      Output.Placed (run fs runtime o m).fileSystem out := by
  have first := writes_of_run success
  have second := writes_of_run again
  rw [planned_congr (first.advances wet).working] at second
  exact fun out mem => first.placed_of_again wet second mem

/-- An emission that left the outputs where they belong can be repeated, and
makes no difference then. -/
theorem alike_of_placed (replacing : o.policy.noOverwrite = false)
    (placed : ∀ out ∈ planned fs runtime o m,
        Output.Placed (run fs runtime o m).fileSystem out) :
    (run (run fs runtime o m).fileSystem runtime o m).Alike
      (run fs runtime o m) := by
  have first := writes_of_run success
  have working := (first.advances wet).working
  have same := planned_congr working runtime o m
  obtain ⟨last, second, working', nodes⟩ :=
    first.again wet replacing placed (.refl _) fun _ _ => rfl
  rw [← same] at second
  obtain ⟨rfl, recorded⟩ := run_of_writes second
  obtain ⟨directory, header, -, counted⟩ :=
    (summary_eq_ok_iff fs runtime o m s).mp success
  refine
    { summary := ?_
      log := by rw [log_run, log_run]
      recorded := ?_
      working := working'
      nodes := nodes }
  · rw [success, summary_eq_ok_iff, same]
    exact ⟨directory, header, same ▸ second.succeeds, counted⟩
  · rw [recorded, same, (run_of_writes first).2]
    exact List.map_congr_left fun out _ => Output.resolved_congr working out

end

/-! ## Modules with proper names -/

section
variable [Support]
variable {fs : FileSystem} {o : Options} {m : Module} {result : Result}
    {s : Summary} {runtime : Text}
variable (named : m.Named) (wet : o.policy.dryRun = false)
    (done : Done fs o m result s runtime)
include named wet done

/-- Below an output directory without NUL bytes all outputs are where they
belong. -/
theorem Done.placed (plain : (0 : Byte) ∉ o.outDir) {out : Output}
    (h : out ∈ runtimeOutput o runtime :: outputsOf fs o (compileModule m)) :
    Output.Placed result.fileSystem out := by
  have located := done.locate named wet h
  have writes := Output.writes_of_succeeds done.succeeds
  rw [← done.fileSystem] at writes
  obtain ⟨before, behind, front, written, since⟩ := writes.exists_write wet h
  obtain ⟨f, there⟩ := since.file (Output.puts_write wet written).put
  rw [front.working] at there
  refine ⟨?_, f, (FileSystem.status_eq_ok_iff _).mpr ⟨_, located, there⟩⟩
  by_cases inside : Path.parent out.path = []
  · exact .inl inside
  refine .inr
    (FileSystem.status_parent (Path.nul_not_mem_parent ?_) inside located)
  -- Places have no NUL bytes either.
  obtain ⟨p, place, same⟩ :
      ∃ p, Path.IsPlace p ∧ Path.join o.outDir p = out.path := by
    rcases List.mem_cons.mp h with rfl | header
    · exact ⟨_, isPlace_runtimeName, rfl⟩
    · obtain ⟨-, -, p, -, place, same⟩ :=
        exists_place_of_mem_outputsOf named done.nonempty header
      exact ⟨p, place, same⟩
  obtain ⟨trunk, nul, joined⟩ := Path.exists_join_eq done.nonempty
  rw [← same, joined p place.isAbsolute, List.mem_append, List.mem_cons]
  rintro (inTrunk | slash | inPlace)
  · exact plain (nul.mp inTrunk)
  · exact absurd slash (by decide)
  · exact place.nul_not_mem inPlace

omit named wet in
/-- A NUL byte in the path of the output directory ends the paths of all
outputs in their directories. -/
theorem Done.nul_not_mem_of_placed
    (h : Output.Placed result.fileSystem (runtimeOutput o runtime)) :
    (0 : Byte) ∉ o.outDir := by
  intro nul
  obtain ⟨trunk, inside, joined⟩ := Path.exists_join_eq done.nonempty
  obtain ⟨a, b, rfl, -⟩ :
      ∃ a b, trunk = a ++ (0 : Byte) :: b ∧ (0 : Byte) ∉ a :=
    List.eq_append_cons_of_mem (inside.mpr nul)
  have path :
      (runtimeOutput o runtime).path =
        a ++ (0 : Byte) :: (b ++ ('/' : Byte) :: Adapter.runtimeName) := by
    rw [← List.cons_append, ← List.append_assoc]
    exact joined _ isPlace_runtimeName.isAbsolute
  obtain ⟨rest, parent⟩ := exists_parent_eq a b Adapter.runtimeName
  refine h.nul_not_mem ?_
  rw [path, parent]
  simp

end

/-- An emission that succeeded can be repeated with the same results, and then
leaves everything as it was, exactly when each output is still where it was
put, in a directory; otherwise the second one fails. With the names that can
be read from texts this is so exactly when the path of the output directory
has no NUL byte. -/
theorem alike_iff_placed [Support] {fs : FileSystem} {runtime : Option Text}
    {o : Options} {m : Module} {s : Summary} (wet : o.policy.dryRun = false)
    (replacing : o.policy.noOverwrite = false)
    (success : (run fs runtime o m).summary = .ok s) :
    let first := run fs runtime o m
    let second := run first.fileSystem runtime o m
    (second.Alike first ↔
      ∀ out ∈ planned fs runtime o m, Output.Placed first.fileSystem out) ∧
    ((∃ s', second.summary = .ok s') → second.Alike first) ∧
    (m.Named → (second.Alike first ↔ (0 : Byte) ∉ o.outDir)) := by
  intro first second
  have placed {s' : Summary} (again : second.summary = .ok s') :=
    placed_of_again wet success again
  have alike := alike_of_placed wet success replacing
  have whole :
      second.Alike first ↔
        ∀ out ∈ planned fs runtime o m, Output.Placed first.fileSystem out :=
    ⟨fun same => placed (same.summary.trans success), alike⟩
  refine ⟨whole, fun ⟨s', again⟩ => alike (placed again),
    fun named => whole.trans ?_⟩
  cases runtime with
  | none => simp [summary_eq_ok_iff] at success
  | some text =>
    have done := done_of_run success
    have outputs :
        planned fs (some text) o m =
          runtimeOutput o text :: outputsOf fs o (compileModule m) :=
      if_neg (by simpa using done.nonempty)
    rw [outputs]
    exact ⟨fun all => done.nul_not_mem_of_placed (all _ (.head _)),
      fun plain out mem => done.placed named wet plain mem⟩

section
open Support.Standard

theorem alike_oneFails :
    withDepfiles.policy.dryRun = false ∧
    withDepfiles.policy.noOverwrite = false ∧
    ((0 : Byte) ∉ withDepfiles.outDir) ∧ (Decl.readFiles oneFails).1.Named ∧
    (∃ s,
        (run olderHeader (some []) withDepfiles
            (Decl.readFiles oneFails).1).summary = .ok s) ∧
    (run (run olderHeader (some []) withDepfiles
            (Decl.readFiles oneFails).1).fileSystem
        (some []) withDepfiles (Decl.readFiles oneFails).1).Alike
      (run olderHeader (some []) withDepfiles (Decl.readFiles oneFails).1) := by
  have found :
      ∃ s ∈ (run olderHeader (some []) withDepfiles
                (Decl.readFiles oneFails).1).summary.toOption,
        s.emitted = 1 := by
    decide +kernel
  obtain ⟨s, success, -⟩ := found
  replace success := eq_ok_of_mem_toOption success
  have named : (Decl.readFiles oneFails).1.Named := named_readFiles oneFails
  have plain : (0 : Byte) ∉ withDepfiles.outDir := by decide
  obtain ⟨-, -, alike⟩ :=
    alike_iff_placed (m := (Decl.readFiles oneFails).1) rfl rfl success
  exact ⟨rfl, rfl, plain, named, ⟨s, success⟩, (alike named).mpr plain⟩

end

/-- The path of the output directory goes on behind a NUL byte. -/
def behindNul : Options := { outDir := Text.ofString "d" ++ [0] }

section
open Support.Standard

/-- The first emission makes a file out of what the second one takes for a
directory. -/
theorem not_alike_behindNul :
    let first := run {} (some []) behindNul []
    let second := run first.fileSystem (some []) behindNul []
    behindNul.policy.dryRun = false ∧
    behindNul.policy.noOverwrite = false ∧ first.summary = .ok ⟨0, 0, 1⟩ ∧
    second.failure? = some (.makeDirectory behindNul.outDir) ∧
    ¬ second.Alike first := by
  intro first second
  have success : ∃ s ∈ first.summary.toOption, s = ⟨0, 0, 1⟩ := by
    decide +kernel
  have failed : second.failure? = some (.makeDirectory behindNul.outDir) := by
    decide +kernel
  obtain ⟨_, success, rfl⟩ := success
  replace success := eq_ok_of_mem_toOption success
  refine ⟨rfl, rfl, success, failed, fun alike => ?_⟩
  rw [Result.failure?, alike.summary, success] at failed
  cases failed

end

end Emission
end MirrorAdapter
