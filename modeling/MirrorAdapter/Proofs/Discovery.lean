import MirrorAdapter.Discovery
import MirrorAdapter.Proofs.FileSystem.NormalRoutes
import MirrorAdapter.Proofs.Sorting

/-!
# Files found twice

Files are told apart by the normal forms of their paths, which start where the
inputs start that they are found by. A file that is reached by inputs that
start alike is found once, whichever ways lead to it. It is found again by an
input that starts elsewhere: at a root and not in the working directory, or
further up from there.
-/
namespace MirrorAdapter

/-- The entries of all directories have names. -/
def FileSystem.Named (fs : FileSystem) : Prop :=
  ∀ e ∈ fs.entries, ∀ name ∈ e.1, Path.IsEntryName name

instance (fs : FileSystem) : Decidable fs.Named :=
  inferInstanceAs
    (Decidable (∀ e ∈ fs.entries, ∀ name ∈ e.1, Path.IsEntryName name))

namespace Discovery

open MirrorAdapter.Path (Anchored)

variable (fs : FileSystem)

/-- The files that an input stands for and that can be read. -/
def readable (input : Path) : List Path :=
  ((expand fs input).getD []).filter fun p => (fs.read? p).isSome

/-- The paths of the files found. -/
def foundPaths (inputs : List Path) : List Path :=
  (find fs inputs).1.map Prod.fst

theorem foundPaths_eq (inputs : List Path) :
    foundPaths fs inputs =
      (Text.sortedSet (inputs.flatMap fun i => (expand fs i).getD [])).filter
        fun p => (fs.read? p).isSome := by
  have kept (paths : List Path) :
      (paths.filterMap fun p => (fs.read? p).map fun text => (p, text)).map
        Prod.fst = paths.filter fun p => (fs.read? p).isSome := by
    induction paths with
    | nil => rfl
    | cons p paths ih =>
      cases read : fs.read? p <;> simp [read, ih]
  rw [foundPaths, find, kept, List.flatMap_map]

theorem mem_foundPaths {inputs : List Path} {p : Path} :
    p ∈ foundPaths fs inputs ↔ ∃ i ∈ inputs, p ∈ readable fs i := by
  simp only [foundPaths_eq, readable, List.mem_filter, Text.mem_sortedSet,
    List.mem_flatMap]
  constructor
  · rintro ⟨⟨i, given, stands⟩, read⟩
    exact ⟨i, given, stands, read⟩
  · rintro ⟨i, given, stands, read⟩
    exact ⟨⟨i, given, stands⟩, read⟩

theorem nodup_foundPaths (inputs : List Path) :
    (foundPaths fs inputs).Nodup := by
  rw [foundPaths_eq]
  exact (Text.nodup_sortedSet _).filter _

/-! ## Where files that are found start -/

variable {fs}

theorem anchored_of_mem_mirrorsBelow (named : fs.Named)
    {directory p : Path} {route : Route} (nonempty : directory ≠ [])
    (found : p ∈ mirrorsBelow fs directory route) :
    Anchored directory.root directory.climbs p := by
  obtain ⟨⟨rest, file⟩, below, kept⟩ := List.mem_filterMap.mp found
  obtain ⟨e, stored, under⟩ := List.mem_filterMap.mp below
  have names : ∀ name ∈ rest, Path.IsEntryName name := by
    split at under
    · split at under
      · obtain ⟨rfl, -⟩ := Prod.mk.inj (Option.some.inj under)
        exact fun name inside =>
          named e stored name (List.mem_of_mem_drop inside)
      · cases under
    · cases under
  dsimp only at kept
  split at kept
  · rename_i extension
    have someNames : rest ≠ [] := by
      rintro rfl
      exact absurd extension (by decide)
    rw [← Option.some.inj kept]
    exact Path.anchored_normalizeFrom nonempty someNames names
  · cases kept

/-- A file starts where the input starts that it is found by. -/
theorem anchored_of_mem_readable (named : fs.Named) {input p : Path}
    (found : p ∈ readable fs input) : Anchored input.root input.climbs p := by
  have listed : p ∈ (expand fs input).getD [] := (List.mem_filter.mp found).1
  unfold expand at listed
  split at listed
  · rename_i located _
    exact anchored_of_mem_mirrorsBelow named
      (FileSystem.ne_nil_of_locate located) listed
  · rename_i located _
    rw [List.mem_singleton.mp listed]
    exact Path.anchored_normalize (FileSystem.ne_nil_of_locate located)
  · cases listed

/-- No file is found twice exactly if inputs by which the same file is found
start alike: they are below the same root or all have none, and their normal
forms climb as many times from the working directory. -/
theorem found_nodup_iff (named : fs.Named) (inputs : List Path) :
    ((find fs inputs).1.map fun e => fs.resolved e.1).Nodup ↔
      ∀ i ∈ inputs, ∀ j ∈ inputs, ∀ p ∈ readable fs i,
            ∀ q ∈ readable fs j, fs.resolved p = fs.resolved q →
              i.root = j.root ∧ i.climbs = j.climbs := by
  have resolved :
      ((find fs inputs).1.map fun e => fs.resolved e.1) =
        (foundPaths fs inputs).map fs.resolved := by
    rw [foundPaths, List.map_map]
    rfl
  rw [resolved, List.nodup_map_iff_inj_on (nodup_foundPaths fs inputs)]
  constructor
  · intro apart i hi j hj p hp q hq same
    have equal :=
      apart p ((mem_foundPaths fs).mpr ⟨i, hi, hp⟩) q
        ((mem_foundPaths fs).mpr ⟨j, hj, hq⟩) same
    subst equal
    exact (anchored_of_mem_readable named hp).unique
      (anchored_of_mem_readable named hq)
  · intro alike p hp q hq same
    obtain ⟨i, hi, inI⟩ := (mem_foundPaths fs).mp hp
    obtain ⟨j, hj, inJ⟩ := (mem_foundPaths fs).mp hq
    obtain ⟨roots, climbs⟩ := alike i hi j hj p inI q inJ same
    have first := anchored_of_mem_readable named inI
    have second := anchored_of_mem_readable named inJ
    rw [← roots, ← climbs] at second
    exact first.eq_of_resolved_eq rfl second same

/-- A file in the working directory. -/
def oneFile : FileSystem where
  working := ["w"]
  entries := [(["w"], .directory), (["w", "a.mirror"], .file ⟨0o644, []⟩)]

/-- By ways from the root the file is found once. -/
theorem found_nodup_oneFile :
    let inputs : List Path := ["/w", "//w/./a.mirror", "/w/../w/a.mirror"]
    oneFile.Named ∧ (∀ i ∈ inputs, readable oneFile i = ["/w/a.mirror"]) ∧
    foundPaths oneFile inputs = ["/w/a.mirror"] ∧
    ((find oneFile inputs).1.map fun e => oneFile.resolved e.1).Nodup := by
  intro inputs
  have named : oneFile.Named := by decide
  refine ⟨named, by decide +kernel, by decide +kernel,
    (found_nodup_iff named inputs).mpr ?_⟩
  decide +kernel

/-- By its name in the working directory and by its absolute path the file is
found twice. -/
theorem oneFile_found_twice :
    foundPaths oneFile ["a.mirror", "/w/a.mirror"] =
      ["/w/a.mirror", "a.mirror"] ∧
    oneFile.resolved "a.mirror" = "/w/a.mirror" ∧
    ¬((find oneFile ["a.mirror", "/w/a.mirror"]).1.map
        fun e => oneFile.resolved e.1).Nodup := by
  decide +kernel

end Discovery
end MirrorAdapter
