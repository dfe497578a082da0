import MirrorAdapter.Proofs.FileSystem.Changes
import MirrorAdapter.Proofs.FileSystem.Parents

/-!
# Changes within bounds

What may change, and what may at most be made a directory, are given as sets
of routes. The directories that are made for a path are on its way or at its
end: they are named by the ancestors of the path, and whoever follows the path
comes through each of them. Where a NUL byte ends the path, it also ends the
ancestors that have it, at the same place.
-/
namespace MirrorAdapter
namespace FileSystem

/-! ## Bounded changes -/

/-- Beyond the routes inside nothing has changed, but some of the routes on
the way have become directories. -/
structure Confined (inside onWay : Route → Prop) (fs after : FileSystem) :
    Prop where
  working : after.working = fs.working
  frame : ∀ r, inside r ∨ after.get? r = fs.get? r ∨
    onWay r ∧ fs.get? r = none ∧ after.get? r = some .directory

section
variable {inside onWay inside' onWay' : Route → Prop}
    {fs middle after : FileSystem} {p q : Path}

theorem Confined.refl (fs : FileSystem) : Confined inside onWay fs fs :=
  ⟨rfl, fun _ => .inr (.inl rfl)⟩

theorem Confined.trans (first : Confined inside onWay fs middle)
    (second : Confined inside onWay middle after) :
    Confined inside onWay fs after := by
  refine ⟨second.working.trans first.working, fun r => ?_⟩
  rcases second.frame r with within | same | ⟨way, missing, made⟩
  · exact .inl within
  · rw [same]
    exact first.frame r
  · rcases first.frame r with within | same | ⟨-, -, there⟩
    · exact .inl within
    · exact .inr (.inr ⟨way, same ▸ missing, made⟩)
    · rw [missing] at there
      cases there

/-- Bounds can be widened. What was on the way may be inside then. -/
theorem Confined.mono (h : Confined inside onWay fs after)
    (wider : ∀ r, inside r → inside' r)
    (wider' : ∀ r, onWay r → inside' r ∨ onWay' r) :
    Confined inside' onWay' fs after := by
  refine ⟨h.working, fun r => ?_⟩
  rcases h.frame r with within | same | ⟨way, missing, made⟩
  · exact .inl (wider r within)
  · exact .inr (.inl same)
  · rcases wider' r way with within | way
    · exact .inl within
    · exact .inr (.inr ⟨way, missing, made⟩)

/-! ## Ancestors of a path -/

/-- The first path leads to where the second one leads or comes through, by a
part of its way. -/
structure Precedes (q p : Path) : Prop where
  route : ∀ working, routeOf working q = routeOf working p ∨
      routeOf working q ∈ passedBy working p
  passed : ∀ working, ∀ r ∈ passedBy working q, r ∈ passedBy working p

theorem Precedes.refl (p : Path) : Precedes p p :=
  ⟨fun _ => .inl rfl, fun _ _ passed => passed⟩

theorem Precedes.trans {o : Path} (first : Precedes o q)
    (second : Precedes q p) : Precedes o p := by
  refine ⟨fun working => ?_, fun working r passed =>
      second.passed working r (first.passed working r passed)⟩
  rcases first.route working with same | passed
  · rw [same]
    exact second.route working
  · exact .inr (second.passed working _ passed)

/-- Only what stands before the first NUL byte counts. -/
theorem ways_congr (same : q.beforeNul = p.beforeNul) (working : Route) :
    routeOf working q = routeOf working p ∧
    passedBy working q = passedBy working p := by
  simp only [routeOf, passedBy, startOf, wayOf, same, and_self]

theorem precedes_of_beforeNul (same : q.beforeNul = p.beforeNul) :
    Precedes q p :=
  ⟨fun working => .inl (ways_congr same working).1,
    fun working r => by rw [(ways_congr same working).2]; exact id⟩

/-- A path with a slash comes through what stands before the slash. -/
theorem ways_of_slash {front : Path} (plain : (0 : Byte) ∉ front)
    (rest : Path) (working : Route) :
    let start := startOf working (front ++ [('/' : Byte)])
    let route := (Path.parts front).foldl step start
    routeOf working (front ++ ('/' : Byte) :: rest) =
      (Path.parts rest.beforeNul).foldl step route ∧
    passedBy working (front ++ ('/' : Byte) :: rest) =
      passed start (Path.parts front) ++
        passed route (Path.parts rest.beforeNul) := by
  have whole (rest : Path) :
      Text.beforeNul (front ++ ('/' : Byte) :: rest) =
        front ++ ('/' : Byte) :: rest.beforeNul :=
    Text.beforeNul_append_of_not_mem plain _
  have way :
      wayOf (front ++ ('/' : Byte) :: rest) =
        Path.parts front ++ Path.parts rest.beforeNul := by
    rw [wayOf, whole, Path.parts_append_slash]
  have start :
      startOf working (front ++ ('/' : Byte) :: rest) =
        startOf working (front ++ [('/' : Byte)]) := by
    rw [startOf, startOf, whole, whole]
    cases front <;> rfl
  dsimp only
  rw [routeOf, passedBy, way, start, List.foldl_append, passed_append]
  exact ⟨rfl, rfl⟩

theorem ways_of_plain {front : Path} (plain : (0 : Byte) ∉ front)
    (nonempty : front ≠ []) (working : Route) :
    let start := startOf working (front ++ [('/' : Byte)])
    routeOf working front = (Path.parts front).foldl step start ∧
      passedBy working front = passed start (Path.parts front) := by
  have whole : Text.beforeNul front = front := Text.beforeNul_eq_self plain
  have start :
      startOf working (front ++ [('/' : Byte)]) = startOf working front := by
    obtain ⟨b, others, rfl⟩ := List.exists_cons_of_ne_nil nonempty
    rw [startOf, startOf, whole, Text.beforeNul_append_of_not_mem plain]
    rfl
  rw [start, routeOf, passedBy, wayOf, whole]
  exact ⟨rfl, rfl⟩

theorem precedes_slash {front : Path} (nonempty : front ≠ []) (rest : Path) :
    Precedes front (front ++ ('/' : Byte) :: rest) := by
  by_cases nul : (0 : Byte) ∈ front
  · obtain ⟨a, b, rfl, first⟩ := List.eq_append_cons_of_mem nul
    refine precedes_of_beforeNul ?_
    rw [List.append_assoc, Text.beforeNul_append_of_not_mem first,
      Text.beforeNul_append_of_not_mem first]
    rfl
  · have whole := ways_of_slash nul rest
    have part := ways_of_plain nul nonempty
    refine ⟨fun working => .inr ?_, fun working r passed => ?_⟩
    · obtain ⟨next, others, further⟩ :=
        List.exists_cons_of_ne_nil (Path.parts_ne_nil (Text.beforeNul rest))
      rw [(part working).1, (whole working).2, further, passed]
      exact List.mem_append_right _ (.head _)
    · rw [(part working).2] at passed
      rw [(whole working).2]
      exact List.mem_append_left _ passed

theorem precedes_root (rest : Path) :
    Precedes (Text.ofString "/") (('/' : Byte) :: rest) := by
  have whole := @ways_of_slash [] List.not_mem_nil rest
  refine ⟨fun working => .inr ?_, fun working r passed => ?_⟩
  · rw [show routeOf working (Text.ofString "/") = [] from rfl]
    exact (whole working).2 ▸ .head _
  · obtain rfl : r = [] := by
      simpa [show passedBy working (Text.ofString "/") = [[], []] from rfl]
        using passed
    exact (whole working).2 ▸ .head _

theorem precedes_parent (inside : Path.parent p ≠ []) :
    Precedes (Path.parent p) p := by
  cases nameless : p.isNameless with
  | true =>
    rw [Path.parent_of_isNameless nameless]
    exact .refl p
  | false =>
    obtain ⟨front, rest, rfl, same | ⟨rfl, root⟩⟩ :=
      Path.exists_eq_append_slash nameless inside
    · rw [same] at inside ⊢
      exact precedes_slash inside rest
    · rw [root]
      exact precedes_root rest

theorem precedes_withoutSlash (nonempty : Path.withoutSlash p ≠ []) :
    Precedes (Path.withoutSlash p) p := by
  unfold Path.withoutSlash at nonempty ⊢
  split at nonempty
  · rename_i ends
    rw [if_pos ends]
    exact precedes_parent nonempty
  · rename_i ends
    rw [if_neg ends]
    exact .refl p

theorem precedes_of_mem_ancestors (h : q ∈ Path.ancestors p) :
    Precedes q p := by
  fun_induction Path.ancestors p with
  | case1 => cases h
  | case2 p above nonempty shorter ih =>
    have parent : Precedes above p :=
      precedes_parent (by simpa using nonempty)
    rcases List.mem_cons.mp h with rfl | further
    · exact parent
    · exact (ih further).trans parent
  | case3 => cases h

/-! ## Making directories -/

/-- Made at the end of a path, or on its way. -/
def IsOnWay (working : Route) (p : Path) (r : Route) : Prop :=
  r = routeOf working p ∨ r ∈ passedBy working p

theorem confined_makeDirectory {inside : Route → Prop}
    (precedes : q ≠ [] → Precedes q p) (h : fs.makeDirectory q = some after) :
    Confined inside (IsOnWay fs.working p) fs after := by
  unfold makeDirectory at h
  split at h
  · cases h
  rename_i route located
  obtain ⟨followable, -, rfl⟩ := (locate_eq_ok_iff fs).mp located
  split at h
  · cases h
    exact .refl fs
  · cases h
  · rename_i missing
    cases h
    have nonempty : q ≠ [] := by
      rintro rfl
      exact followable.nonempty rfl
    refine ⟨rfl, fun r => .inr ?_⟩
    rw [get?_insert fs (ne_root_of_get?_eq_none missing)]
    by_cases same : r = routeOf fs.working q
    · subst same
      rw [if_pos rfl]
      exact .inr ⟨(precedes nonempty).route fs.working, missing, rfl⟩
    · rw [if_neg same]
      exact .inl rfl

theorem confined_makeEach {inside : Route → Prop}
    {qs : List Path} (precede : ∀ q ∈ qs, q ≠ [] → Precedes q p) :
    Confined inside (IsOnWay fs.working p) fs (fs.makeEach qs).1 := by
  induction qs generalizing fs with
  | nil => exact .refl fs
  | cons q qs ih =>
    rw [List.forall_mem_cons] at precede
    rw [makeEach]
    split
    · exact .refl fs
    · rename_i after made
      have first : Confined inside (IsOnWay fs.working p) fs after :=
        confined_makeDirectory precede.1 made
      have later :
          Confined inside (IsOnWay after.working p) after
            (after.makeEach qs).1 :=
        ih precede.2
      rw [first.working] at later
      exact first.trans later

/-- Making the directories of a path changes nothing but what is missing on
its way. -/
theorem confined_makeDirectories {inside : Route → Prop}
    (fs : FileSystem) (p : Path) :
    Confined inside (IsOnWay fs.working p) fs (fs.makeDirectories p).1 := by
  unfold makeDirectories
  split
  · exact .refl fs
  · exact .refl fs
  · exact .refl fs
  · unfold fillGap
    extract_lets target above missing blocked
    split
    · exact .refl fs
    · refine confined_makeEach fun q inside nonempty => ?_
      have known := (List.mem_filter.mp (List.mem_reverse.mp inside)).1
      rcases List.mem_cons.mp known with rfl | farther
      · exact precedes_withoutSlash nonempty
      · have ancestor : q ∈ Path.ancestors target :=
          (List.takeWhile_sublist _).subset farther
        by_cases empty : target = []
        · rw [empty] at ancestor
          simp [Path.ancestors, Path.parent, Path.isNameless] at ancestor
        · exact (precedes_of_mem_ancestors ancestor).trans
            (precedes_withoutSlash empty)

end

end FileSystem
end MirrorAdapter
