import MirrorAdapter.Proofs.Emission.Runs
import MirrorAdapter.Proofs.FileSystem.Confinement

/-!
# Emissions stay within their directory

Writing an output changes the node at the end of its path, and makes
directories on the way there. All outputs of an emission have places below the
output directory, so whatever becomes of an emission, also of one that stops,
nothing else changes. Only where a NUL byte ends the path of the output
directory all outputs lead to that directory itself.
-/
namespace MirrorAdapter

open FileSystem (Confined IsOnWay routeOf passedBy)

/-! ## Written outputs -/

namespace Output

variable {policy : Policy} {fs : FileSystem} {o : Output}
    {inside onWay : Route → Prop}

theorem confined_makeParent (fs : FileSystem) (p : Path) :
    Confined inside (IsOnWay fs.working p) fs (makeParent fs p).1 := by
  unfold makeParent
  dsimp only
  split
  · exact .refl fs
  · rename_i nonempty
    have parent :=
      FileSystem.precedes_parent (p := p) (by simpa using nonempty)
    refine (FileSystem.confined_makeDirectories fs (Path.parent p)).mono
      (fun _ within => within) fun r way => .inr ?_
    rcases way with rfl | passed
    · exact parent.route fs.working
    · exact .inr (parent.passed fs.working r passed)

theorem confined_clear {cleared : FileSystem}
    {p : Path} (h : clear policy fs p = .ok cleared) :
    Confined (· = routeOf fs.working p) onWay fs cleared := by
  obtain ⟨working, -, frame⟩ := frame_clear h
  refine ⟨working, fun r => ?_⟩
  by_cases here : r = routeOf fs.working p
  · exact .inl here
  · exact .inr (.inl (frame r here))

theorem confined_create (policy : Policy) (fs : FileSystem) (o : Output) :
    Confined (· = routeOf fs.working o.path) onWay fs
      (create policy fs o).1 := by
  unfold create
  split
  · exact .refl fs
  · rename_i written fault created
    obtain ⟨route, located, missing, -, rfl⟩ := FileSystem.of_create? created
    obtain ⟨-, -, rfl⟩ := (FileSystem.locate_eq_ok_iff fs).mp located
    refine ⟨rfl, fun r => ?_⟩
    by_cases here : r = routeOf fs.working o.path
    · exact .inl here
    · rw [FileSystem.get?_insert fs
          (FileSystem.ne_root_of_get?_eq_none missing), if_neg here]
      exact .inr (.inl rfl)

/-- Writing an output, also in vain, changes what its path leads to and
nothing else but directories on the way. -/
theorem confined_write (policy : Policy) (fs : FileSystem) (o : Output) :
    Confined (· = routeOf fs.working o.path) (IsOnWay fs.working o.path) fs
      (write policy fs o).1 := by
  unfold write
  split
  · exact .refl fs
  · have parent : Confined (· = routeOf fs.working o.path) _ fs _ :=
      confined_makeParent fs o.path
    generalize makeParent fs o.path = result at parent ⊢
    obtain ⟨made, _ | _⟩ := result
    · exact parent
    · dsimp only at parent ⊢
      split
      · exact parent
      · rename_i cleared room
        have clears : Confined _ (IsOnWay fs.working o.path) _ cleared :=
          confined_clear room
        have creates : Confined _ (IsOnWay fs.working o.path) cleared _ :=
          confined_create policy cleared o
        rw [clears.working] at creates
        rw [parent.working] at clears creates
        exact parent.trans (clears.trans creates)

/-- Outputs change nothing beyond what their paths are bound to, however far
they are written. -/
theorem confined_writeAll {outputs : List Output}
    (ends : ∀ out ∈ outputs, inside (routeOf fs.working out.path))
    (ways :
      ∀ out ∈ outputs, ∀ r ∈ passedBy fs.working out.path, inside r ∨ onWay r) :
    Confined inside onWay fs (writeAll policy fs outputs).fileSystem := by
  induction outputs generalizing fs with
  | nil => exact .refl fs
  | cons out outputs ih =>
    rw [List.forall_mem_cons] at ends ways
    have first : Confined inside onWay fs (write policy fs out).1 := by
      refine (confined_write policy fs out).mono (fun r here => here ▸ ends.1)
        fun r way => ?_
      rcases way with rfl | passed
      · exact .inl ends.1
      · exact ways.1 r passed
    rw [writeAll]
    generalize write policy fs out = result at first ⊢
    obtain ⟨after, _ | e⟩ := result
    · have working : after.working = fs.working := first.working
      exact first.trans
        (ih (by rw [working]; exact ends.2) (by rw [working]; exact ways.2))
    · exact first

end Output

/-! ## Places below the output directory -/

namespace FileSystem

/-- The second route goes on from the first. -/
def IsBelow (top r : Route) : Prop := top <+: r ∧ r ≠ top

/-- Without NUL bytes all places below a directory are reached through it. -/
theorem ways_join {base : Path} (nonempty : base ≠ [])
    (plain : (0 : Byte) ∉ base) (working : Route) {p : Path}
    (place : Path.IsPlace p) :
    routeOf working (Path.join base p) = routeOf working base ++ Path.parts p ∧
    ∀ r ∈ passedBy working (Path.join base p), r ∈ passedBy working base ∨
      r ∈ passed (routeOf working base) (Path.parts p) := by
  have down : ∀ part ∈ Path.parts p, part ≠ [] ∧ Path.isDots part = false :=
    fun part inside => place.goesDown inside
  have whole : Text.beforeNul p = p :=
    Text.beforeNul_eq_self place.nul_not_mem
  by_cases slash : base.getLast? = some ('/' : Byte)
  · obtain ⟨trunk, rfl⟩ := List.getLast?_eq_some_iff.mp slash
    have plain : (0 : Byte) ∉ trunk :=
      fun nul => plain (List.mem_append_left _ nul)
    obtain ⟨route, way⟩ := ways_of_slash plain p working
    obtain ⟨ends, passes⟩ := ways_of_slash plain [] working
    have stays :
        ∀ route, (Path.parts (Text.beforeNul [])).foldl step route = route :=
      fun route => by
      simp [Text.beforeNul, Path.parts, step]
    have joined :
        Path.join (trunk ++ [('/' : Byte)]) p = trunk ++ ('/' : Byte) :: p := by
      rw [Path.join, place.isAbsolute, if_neg (by simp), if_pos (by simp),
        List.append_assoc]
      rfl
    rw [stays] at ends
    rw [joined, route, way, ends, passes, whole, foldl_step_down down]
    exact ⟨rfl, fun r passed =>
        (List.mem_append.mp passed).imp_left (List.mem_append_left _)⟩
  · obtain ⟨route, way⟩ := ways_of_slash plain p working
    obtain ⟨ends, passes⟩ := ways_of_plain plain nonempty working
    have joined : Path.join base p = base ++ ('/' : Byte) :: p := by
      rw [Path.join, place.isAbsolute, if_neg (by simpa using nonempty),
        if_neg (by simpa using slash), List.append_assoc]
      rfl
    rw [joined, route, way, ends, passes, whole, foldl_step_down down]
    exact ⟨rfl, fun r => List.mem_append.mp⟩

/-- Behind a NUL byte in the path of a directory nothing counts. -/
theorem beforeNul_join {base p : Path}
    (nul : (0 : Byte) ∈ base) (place : Path.IsPlace p) :
    Text.beforeNul (Path.join base p) = Text.beforeNul base := by
  obtain ⟨a, b, rfl, first⟩ := List.eq_append_cons_of_mem nul
  obtain ⟨more, joined⟩ :
      ∃ more, Path.join (a ++ (0 : Byte) :: b) p =
          (a ++ (0 : Byte) :: b) ++ more := by
    rw [Path.join, place.isAbsolute, if_neg (by simp)]
    split
    · exact ⟨_, rfl⟩
    · exact ⟨_, List.append_assoc _ _ _⟩
  rw [joined, List.append_assoc, Text.beforeNul_append_of_not_mem first,
    Text.beforeNul_append_of_not_mem first]
  rfl

end FileSystem

namespace Emission

open FileSystem (IsBelow)

variable {m : Decl.Module} (named : m.Named) (fs : FileSystem)
    (runtime : Option Text) (o : Options)
include named

theorem exists_place_of_mem_planned [Support]
    {out : Output} (h : out ∈ planned fs runtime o m) :
    o.outDir ≠ [] ∧ ∃ p, Path.IsPlace p ∧ out.path = Path.join o.outDir p := by
  unfold planned at h
  split at h
  · cases h
  · split at h
    · cases h
    · rename_i given
      have nonempty : o.outDir ≠ [] := by simpa using given
      refine ⟨nonempty, ?_⟩
      rcases List.mem_cons.mp h with rfl | later
      · exact ⟨_, isPlace_runtimeName, rfl⟩
      · obtain ⟨a, -, p, -, place, path⟩ :=
          exists_place_of_mem_outputsOf named nonempty later
        exact ⟨p, place, path.symm⟩

/-- An emission changes what lies below its directory, and makes that
directory and others on the way to it. Where a NUL byte ends the path of the
directory, the directory itself may be replaced. -/
theorem confined_run [Support] :
    Confined (fun r => IsBelow (routeOf fs.working o.outDir) r ∨
          (0 : Byte) ∈ o.outDir ∧ r = routeOf fs.working o.outDir)
      (IsOnWay fs.working o.outDir) fs (run fs runtime o m).fileSystem := by
  have written :
      (run fs runtime o m).fileSystem =
        (Output.writeAll o.policy fs (planned fs runtime o m)).fileSystem :=
    congrArg (·.fileSystem) (written_run fs runtime o m)
  rw [written]
  by_cases nul : (0 : Byte) ∈ o.outDir
  · have same (out : Output) (h : out ∈ planned fs runtime o m) :
        routeOf fs.working out.path = routeOf fs.working o.outDir ∧
          passedBy fs.working out.path = passedBy fs.working o.outDir := by
      obtain ⟨-, p, place, path⟩ :=
        exists_place_of_mem_planned named fs runtime o h
      rw [path]
      exact FileSystem.ways_congr (FileSystem.beforeNul_join nul place)
        fs.working
    exact Output.confined_writeAll (fun out h => .inr ⟨nul, (same out h).1⟩)
      fun out h r passed => .inr (.inr ((same out h).2 ▸ passed))
  · refine Output.confined_writeAll (fun out h => .inl ?_)
      fun out h r passed => ?_
    · obtain ⟨nonempty, p, place, path⟩ :=
        exists_place_of_mem_planned named fs runtime o h
      rw [path, (FileSystem.ways_join nonempty nul fs.working place).1]
      exact ⟨List.prefix_append _ _, by simp [Path.parts_ne_nil]⟩
    · obtain ⟨nonempty, p, place, path⟩ :=
        exists_place_of_mem_planned named fs runtime o h
      rw [path] at passed
      rcases (FileSystem.ways_join nonempty nul fs.working place).2 r passed
          with above | below
      · exact .inr (.inr above)
      · obtain ⟨front, -, rfl⟩ :=
          FileSystem.mem_passed_down
            (fun part inside => place.goesDown inside) below
        cases front with
        | nil => exact .inr (.inl (List.append_nil _))
        | cons part front =>
          exact .inl (.inl ⟨List.prefix_append _ _, by simp⟩)

end Emission
end MirrorAdapter
