import MirrorAdapter.FileSystem.Update
import MirrorAdapter.Proofs.FileSystem.Routes

/-!
# What changes leave alone

Making directories puts them where nothing was; removing and creating concern
one route, the one that the path leads to. Beyond that every route has what it
had.
-/
namespace MirrorAdapter
namespace FileSystem

/-! ## Making directories -/

/-- The second file system has what the first one has, and may have more
directories. -/
structure Grows (fs after : FileSystem) : Prop where
  working : after.working = fs.working
  faults : after.faults = fs.faults
  frame : ∀ r, after.get? r = fs.get? r ∨
      (fs.get? r = none ∧ after.get? r = some .directory)

theorem Grows.refl (fs : FileSystem) : Grows fs fs :=
  ⟨rfl, rfl, fun _ => .inl rfl⟩

theorem Grows.trans {a b c : FileSystem} (first : Grows a b)
    (second : Grows b c) : Grows a c := by
  refine ⟨second.working.trans first.working,
    second.faults.trans first.faults, fun r => ?_⟩
  rcases second.frame r with same | ⟨missing, made⟩
  · rw [same]
    exact first.frame r
  · rcases first.frame r with same | ⟨-, there⟩
    · exact .inr ⟨same ▸ missing, made⟩
    · rw [missing] at there
      cases there

theorem ne_root_of_get?_eq_none {fs : FileSystem} {r : Route}
    (h : fs.get? r = none) : r ≠ [] := by
  rintro rfl
  cases h

theorem Grows.insert {fs : FileSystem} {route : Route}
    (h : fs.get? route = none) : Grows fs (fs.insert route .directory) := by
  refine ⟨rfl, rfl, fun r => ?_⟩
  rw [get?_insert fs (ne_root_of_get?_eq_none h)]
  by_cases same : r = route
  · rw [if_pos same, same]
    exact .inr ⟨h, rfl⟩
  · rw [if_neg same]
    exact .inl rfl

theorem grows_makeDirectory {fs after : FileSystem} {p : Path}
    (h : fs.makeDirectory p = some after) : Grows fs after := by
  unfold makeDirectory at h
  split at h
  · cases h
  · split at h
    · cases h
      exact .refl fs
    · cases h
    · rename_i missing
      cases h
      exact .insert missing

theorem grows_makeEach (fs : FileSystem) (ps : List Path) :
    Grows fs (fs.makeEach ps).1 := by
  induction ps generalizing fs with
  | nil => exact .refl fs
  | cons p ps ih =>
    rw [makeEach]
    split
    · exact .refl fs
    · rename_i after made
      exact (grows_makeDirectory made).trans (ih after)

theorem grows_makeDirectories (fs : FileSystem) (p : Path) :
    Grows fs (fs.makeDirectories p).1 := by
  unfold makeDirectories
  split
  · exact .refl fs
  · exact .refl fs
  · exact .refl fs
  · unfold fillGap
    extract_lets target above missing blocked
    split
    · exact .refl fs
    · exact grows_makeEach fs _

/-! ## Removing and creating -/

theorem get?_erase_of_ne (fs : FileSystem) {route r : Route}
    (other : r ≠ route) : (fs.erase route).get? r = fs.get? r := by
  by_cases root : r = []
  · subst root
    rfl
  · simp [get?, root, erase, lookup_filter_ne, other]

/-- What is removed is what the path leads to. -/
theorem eq_erase_of_remove? {fs after : FileSystem}
    {p : Path} (h : fs.remove? p = some after) :
    after = fs.erase (routeOf fs.working p) := by
  unfold remove? at h
  split at h
  · cases h
  rename_i route located
  obtain ⟨-, -, rfl⟩ := (locate_eq_ok_iff fs).mp located
  split at h
  · cases h
  · cases h
    rfl
  · split at h
    · cases h
      rfl
    · cases h

/-- A file is created where a path leads and nothing is. -/
theorem of_create? {fs after : FileSystem} {p : Path} {f : StoredFile}
    {fault : Option Fault} (h : fs.create? p f = some (after, fault)) :
    ∃ route, fs.locate p = .ok route ∧
      fs.get? route = none ∧ fault = fs.faults.lookup route ∧
      after = fs.insert route (.file (Fault.remnant f fault)) := by
  unfold create? at h
  split at h
  · cases h
  rename_i route located
  split at h
  · cases h
  · rename_i missing
    cases h
    exact ⟨route, located, missing, rfl, rfl⟩

/-- The file at the end of a path has been put there; beyond that there may be
more directories. -/
structure Puts (fs after : FileSystem) (p : Path) (f : StoredFile) : Prop where
  working : after.working = fs.working
  faults : after.faults = fs.faults
  located : after.locate p = .ok (routeOf fs.working p)
  put : after.get? (routeOf fs.working p) = some (.file f)
  frame : ∀ r, r ≠ routeOf fs.working p → after.get? r = fs.get? r ∨
      (fs.get? r = none ∧ after.get? r = some .directory)

/-- Creating a file does not get in the way of its own path. -/
theorem puts_create? {fs after : FileSystem} {p : Path} {f : StoredFile}
    {fault : Option Fault} (h : fs.create? p f = some (after, fault)) :
    Puts fs after p (Fault.remnant f fault) := by
  obtain ⟨route, located, missing, -, rfl⟩ := of_create? h
  obtain ⟨-, -, rfl⟩ := (locate_eq_ok_iff fs).mp located
  have read :=
    get?_insert fs (ne_root_of_get?_eq_none missing)
      (.file (Fault.remnant f fault))
  refine ⟨rfl, rfl,
    locate_of_passedBy (working_insert ..) (fun r _ there => ?_) located,
    by rw [read, if_pos rfl],
    fun r other => ?_⟩
  · have other : r ≠ routeOf fs.working p := by
      rintro rfl
      rw [missing] at there
      cases there
    rw [read, if_neg other, there]
  · rw [read, if_neg other]
    exact .inl rfl

/-- What was done before, above and below the route, does not matter. -/
theorem Puts.after {fs middle after : FileSystem} {p : Path} {f : StoredFile}
    (h : Puts middle after p f) (working : middle.working = fs.working)
    (faults : middle.faults = fs.faults)
    (frame : ∀ r, r ≠ routeOf fs.working p → middle.get? r = fs.get? r ∨
        (fs.get? r = none ∧ middle.get? r = some .directory)) :
    Puts fs after p f := by
  obtain ⟨working', faults', located, put, frame'⟩ := h
  rw [working] at working' located put frame'
  refine ⟨working', faults'.trans faults, located, put, fun r other => ?_⟩
  rcases frame' r other with same | ⟨missing, made⟩
  · rw [same]
    exact frame r other
  · rcases frame r other with same | ⟨-, there⟩
    · exact .inr ⟨same ▸ missing, made⟩
    · rw [missing] at there
      cases there

/-! ## What stays at a path -/

/-- The route of the second path is not that of the first, and a directory on
the way of the first only if it is one on its own way. -/
structure Spares (working : Route) (p q : Path) : Prop where
  apart : routeOf working q ≠ routeOf working p
  passing : routeOf working q ∈ passedBy working p →
    routeOf working q ∈ passedBy working q

section
variable {fs after : FileSystem} {p q : Path} {f g : StoredFile}

/-- A file that was put somewhere is no directory on its own way. -/
theorem Puts.not_passed (h : Puts fs after p f) :
    routeOf fs.working p ∉ passedBy fs.working p := by
  intro passed
  have way := ((locate_eq_ok_iff after).mp h.located).2.1
  rw [h.working] at way
  have directory := way _ passed
  rw [h.put] at directory
  cases directory

/-- Putting a file loses nothing elsewhere. -/
theorem Puts.kept (h : Puts fs after p f) {r : Route} {node : Node}
    (other : r ≠ routeOf fs.working p) (there : fs.get? r = some node) :
    after.get? r = some node := by
  rcases h.frame r other with same | ⟨missing, -⟩
  · rw [same, there]
  · rw [missing] at there
    cases there

/-- Putting a file elsewhere keeps the file at a path. -/
theorem Puts.keeps (h : Puts fs after q g) (spares : Spares fs.working p q)
    (there : fs.status p = .ok (.file f)) :
    after.status p = .ok (.file f) := by
  obtain ⟨route, located, here⟩ := (status_eq_ok_iff fs).mp there
  obtain ⟨-, -, rfl⟩ := (locate_eq_ok_iff fs).mp located
  refine (status_eq_ok_iff after).mpr
    ⟨routeOf fs.working p, ?_, h.kept spares.apart.symm here⟩
  refine locate_of_passedBy h.working
    (fun r passed there => h.kept (fun same => ?_) there) located
  exact h.not_passed (spares.passing (same ▸ passed))

theorem Puts.status (h : Puts fs after p f) : after.status p = .ok (.file f) :=
  (status_eq_ok_iff after).mpr ⟨_, h.located, h.put⟩

/-- Files elsewhere are the same. -/
theorem Puts.file_iff (h : Puts fs after p f)
    {r : Route} (other : r ≠ routeOf fs.working p) :
    after.get? r = some (.file g) ↔ fs.get? r = some (.file g) := by
  rcases h.frame r other with same | ⟨missing, made⟩
  · rw [same]
  · rw [missing, made]
    simp

end

end FileSystem
end MirrorAdapter
