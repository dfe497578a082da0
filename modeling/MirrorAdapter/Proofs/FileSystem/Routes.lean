import MirrorAdapter.FileSystem.Lookup
import MirrorAdapter.Proofs.Paths

/-!
# Where paths lead

Whether a path can be followed depends on the directories on its way, but not
where it leads: that is settled by the path and the working directory. So a
path leads to the same place in all file systems that have directories on its
way.
-/
namespace MirrorAdapter
namespace FileSystem

/-! ## The way of a path -/

/-- The routes from which parts of a path are followed, in order. -/
def passed (route : Route) : List Text → List Route
  | [] => []
  | part :: parts => route :: passed (step route part) parts

theorem passed_append (route : Route) (parts more : List Text) :
    passed route (parts ++ more) =
      passed route parts ++ passed (parts.foldl step route) more := by
  induction parts generalizing route with
  | nil => rfl
  | cons part parts ih => rw [List.cons_append, passed, ih]; rfl

/-- Following a path succeeds iff all directories on its way are there, and it
leads where its parts say. -/
theorem follow_eq_ok_iff (fs : FileSystem)
    {route target : Route} {parts : List Text} :
    fs.follow route parts = .ok target ↔
      (∀ r ∈ passed route parts, fs.get? r = some .directory) ∧
      (∀ part ∈ parts, part.length ≤ longestName) ∧
      target = parts.foldl step route := by
  induction parts generalizing route with
  | nil => simp [follow, passed, eq_comm]
  | cons part parts ih =>
    rw [follow, passed, List.forall_mem_cons, List.forall_mem_cons,
      List.foldl_cons]
    cases here : fs.get? route with
    | none => simp
    | some node =>
      cases node with
      | file f => simp
      | directory =>
        dsimp only
        split
        · rename_i long
          simp [Nat.not_le.mpr long]
        · rename_i short
          rw [ih]
          simp [Nat.not_lt.mp short]

/-- The part of a path that is followed, before the first NUL byte. -/
def wayOf (p : Path) : List Text := Path.parts p.beforeNul

/-- Where a path starts, seen from a working directory. -/
def startOf (working : Route) (p : Path) : Route :=
  if Path.isAbsolute p.beforeNul then [] else working

/-- Where a path leads, whatever is there. -/
def routeOf (working : Route) (p : Path) : Route :=
  (wayOf p).foldl step (startOf working p)

/-- The directories that a path goes through. -/
def passedBy (working : Route) (p : Path) : List Route :=
  passed (startOf working p) (wayOf p)

/-- The path can be followed as far as its text goes. -/
structure Followable (p : Path) : Prop where
  nonempty : p.beforeNul ≠ []
  length : p.beforeNul.length ≤ longestPath
  names : ∀ part ∈ wayOf p, part.length ≤ longestName

theorem locate_eq_ok_iff (fs : FileSystem) {p : Path} {target : Route} :
    fs.locate p = .ok target ↔ Followable p ∧
      (∀ r ∈ passedBy fs.working p, fs.get? r = some .directory) ∧
      target = routeOf fs.working p := by
  unfold locate
  dsimp only
  constructor
  · intro h
    split at h
    · cases h
    split at h
    · cases h
    rename_i nonempty short
    obtain ⟨way, names, rfl⟩ := (follow_eq_ok_iff fs).mp h
    exact ⟨⟨nonempty, Nat.not_lt.mp short, names⟩, way, rfl⟩
  · rintro ⟨⟨nonempty, short, names⟩, way, rfl⟩
    rw [if_neg nonempty, if_neg (Nat.not_lt.mpr short)]
    exact (follow_eq_ok_iff fs).mpr ⟨way, names, rfl⟩

/-- A path leads to the same place in a file system that has directories on
its way, too. -/
theorem locate_of_passedBy {fs other : FileSystem} {p : Path}
    {route : Route} (working : other.working = fs.working)
    (way : ∀ r ∈ passedBy fs.working p,
        fs.get? r = some .directory → other.get? r = some .directory)
    (located : fs.locate p = .ok route) : other.locate p = .ok route := by
  obtain ⟨followable, directories, rfl⟩ := (locate_eq_ok_iff fs).mp located
  refine (locate_eq_ok_iff other).mpr
    ⟨followable, fun r passed => ?_, by rw [working]⟩
  rw [working] at passed
  exact way r passed (directories r passed)

theorem status_eq_ok_iff (fs : FileSystem) {p : Path} {node : Node} :
    fs.status p = .ok node ↔
      ∃ route, fs.locate p = .ok route ∧ fs.get? route = some node := by
  unfold status
  cases fs.locate p with
  | error e => simp
  | ok route =>
    dsimp only
    cases here : fs.get? route <;> simp [here]

/-- Only what stands before the first NUL byte counts. -/
theorem status_congr (fs : FileSystem) {p q : Path}
    (same : p.beforeNul = q.beforeNul) : fs.status p = fs.status q := by
  simp only [status, locate, same]

/-! ## Paths below a directory -/

theorem step_down {route : Route} {part : Text}
    (nonempty : part ≠ []) (named : Path.isDots part = false) :
    step route part = route ++ [part] := by
  rw [Path.isDots, Bool.or_eq_false_iff,
    beq_eq_false_iff_ne, beq_eq_false_iff_ne]
    at named
  rw [step, if_neg (by simp [nonempty, named.1]), if_neg named.2]

theorem foldl_step_down {parts : List Text}
    (down : ∀ part ∈ parts, part ≠ [] ∧ Path.isDots part = false)
    (route : Route) : parts.foldl step route = route ++ parts := by
  induction parts generalizing route with
  | nil => simp
  | cons part parts ih =>
    rw [List.forall_mem_cons] at down
    rw [List.foldl_cons, step_down down.1.1 down.1.2, ih down.2,
      List.append_assoc]
    rfl

theorem mem_passed_down {parts : List Text}
    (down : ∀ part ∈ parts, part ≠ [] ∧ Path.isDots part = false)
    {route r : Route} (h : r ∈ passed route parts) :
    ∃ front, front <+: parts ∧ r = route ++ front := by
  induction parts generalizing route with
  | nil => cases h
  | cons part parts ih =>
    rw [List.forall_mem_cons] at down
    rcases List.mem_cons.mp h with rfl | later
    · exact ⟨[], List.nil_prefix, by simp⟩
    · rw [step_down down.1.1 down.1.2] at later
      obtain ⟨front, short, rfl⟩ := ih down.2 later
      exact ⟨part :: front, List.cons_prefix_cons.mpr ⟨rfl, short⟩, by simp⟩

/-- Without NUL bytes all places below a directory are reached through it. -/
theorem exists_routeOf_join {base : Path} (nonempty : base ≠ [])
    (plain : (0 : Byte) ∉ base) (working : Route) :
    ∃ (route : Route) (front : List Route), ∀ p, Path.IsPlace p →
        routeOf working (Path.join base p) = route ++ Path.parts p ∧
        passedBy working (Path.join base p) =
          front ++ passed route (Path.parts p) := by
  obtain ⟨trunk, nul, joined⟩ := Path.exists_join_eq nonempty
  let start : Route :=
    if Path.isAbsolute (trunk ++ [('/' : Byte)]) then [] else working
  refine ⟨(Path.parts trunk).foldl step start,
    passed start (Path.parts trunk), fun p place => ?_⟩
  have whole : (Path.join base p).beforeNul = trunk ++ ('/' : Byte) :: p := by
    rw [joined p place.isAbsolute]
    refine List.takeWhile_eq_self_iff.mpr fun b inside => bne_iff_ne.mpr ?_
    rintro rfl
    rcases List.mem_append.mp inside with front | back
    · exact plain (nul.mp front)
    · exact place.nul_not_mem ((List.mem_cons.mp back).resolve_left (by decide))
  have way : wayOf (Path.join base p) = Path.parts trunk ++ Path.parts p := by
    rw [wayOf, whole, Path.parts_append_slash]
  have starts : startOf working (Path.join base p) = start := by
    have absolute :
        Path.isAbsolute (trunk ++ ('/' : Byte) :: p) =
          Path.isAbsolute (trunk ++ [('/' : Byte)]) := by
      cases trunk <;> rfl
    rw [startOf, whole, absolute]
  have down : ∀ part ∈ Path.parts p, part ≠ [] ∧ Path.isDots part = false :=
    fun part inside => place.goesDown inside
  rw [routeOf, passedBy, way, starts, List.foldl_append,
    foldl_step_down down, passed_append]
  exact ⟨rfl, rfl⟩

end FileSystem
end MirrorAdapter
