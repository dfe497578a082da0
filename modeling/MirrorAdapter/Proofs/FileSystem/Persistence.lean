import MirrorAdapter.Proofs.FileSystem.Changes

/-!
# What lasts

Of one file system and a later one: whether all that was there still is,
whether at least nothing is lost, and whether they differ in the contents of
files only. Paths that could be followed can be followed later as long as no
directory on their way has become a file.
-/
namespace MirrorAdapter
namespace FileSystem

variable {fs middle after : FileSystem} {p : Path} {route : Route}
    {f : StoredFile}

/-! ## Everything stays -/

/-- All that was there is there, as it was. -/
structure Preserves (fs after : FileSystem) : Prop where
  working : after.working = fs.working
  kept : ∀ r node, fs.get? r = some node → after.get? r = some node

theorem Preserves.refl (fs : FileSystem) : Preserves fs fs :=
  ⟨rfl, fun _ _ there => there⟩

theorem Preserves.trans (first : Preserves fs middle)
    (second : Preserves middle after) : Preserves fs after :=
  ⟨second.working.trans first.working,
    fun r node there => second.kept r node (first.kept r node there)⟩

theorem Grows.preserves (h : Grows fs after) : Preserves fs after where
  working := h.working
  kept r node there := by
    rcases h.frame r with same | ⟨missing, -⟩
    · rw [same, there]
    · rw [missing] at there
      cases there

/-- Making directories makes no files. -/
theorem Grows.file_iff (h : Grows fs after) (r : Route) :
    after.get? r = some (.file f) ↔ fs.get? r = some (.file f) := by
  rcases h.frame r with same | ⟨missing, made⟩
  · rw [same]
  · rw [missing, made]
    simp

theorem Puts.preserves (h : Puts fs after p f)
    (vacant : fs.get? (routeOf fs.working p) = none) : Preserves fs after where
  working := h.working
  kept r node there := by
    have other : r ≠ routeOf fs.working p := by
      rintro rfl
      rw [vacant] at there
      cases there
    exact h.kept other there

/-- A path leads where it led. -/
theorem Preserves.locate (h : Preserves fs after)
    (located : fs.locate p = .ok route) : after.locate p = .ok route :=
  locate_of_passedBy h.working (fun r _ => h.kept r _) located

/-! ## Nothing is lost -/

/-- What was there is as it was, or a file is in its place. -/
structure Advances (fs after : FileSystem) : Prop where
  working : after.working = fs.working
  nodes : ∀ r node, fs.get? r = some node →
      after.get? r = some node ∨ ∃ f, after.get? r = some (.file f)

theorem Advances.refl (fs : FileSystem) : Advances fs fs :=
  ⟨rfl, fun _ _ there => .inl there⟩

theorem Advances.trans (first : Advances fs middle)
    (second : Advances middle after) : Advances fs after := by
  refine ⟨second.working.trans first.working, fun r node there => ?_⟩
  rcases first.nodes r node there with same | ⟨f, file⟩
  · exact second.nodes r node same
  · rcases second.nodes r _ file with same | replaced
    · exact .inr ⟨f, same⟩
    · exact .inr replaced

theorem Puts.advances (h : Puts fs after p f) : Advances fs after where
  working := h.working
  nodes r node there := by
    by_cases here : r = routeOf fs.working p
    · exact .inr ⟨f, here ▸ h.put⟩
    · exact .inl (h.kept here there)

/-- Files stay files. -/
theorem Advances.file (h : Advances fs after)
    (there : fs.get? route = some (.file f)) :
    ∃ g, after.get? route = some (.file g) := by
  rcases h.nodes route _ there with same | replaced
  · exact ⟨f, same⟩
  · exact replaced

/-- A path that leads somewhere before and after has led there all the time: a
directory on its way that had become a file would be one still. -/
theorem Advances.locate (first : Advances fs middle)
    (second : Advances middle after) (before : fs.locate p = .ok route)
    (later : ∃ route', after.locate p = .ok route') :
    middle.locate p = .ok route := by
  obtain ⟨route', later⟩ := later
  have way := ((locate_eq_ok_iff after).mp later).2.1
  rw [second.working, first.working] at way
  refine locate_of_passedBy first.working (fun r passed there => ?_) before
  rcases first.nodes r _ there with same | ⟨g, file⟩
  · exact same
  · obtain ⟨g', still⟩ := second.file file
    rw [way r passed] at still
    cases still

/-! ## Contents of files -/

/-- The file systems have the same directories and have files at the same
places. -/
structure Resembles (fs other : FileSystem) : Prop where
  working : other.working = fs.working
  faults : other.faults = fs.faults
  nodes : ∀ r, other.get? r = fs.get? r ∨
    (∃ f, fs.get? r = some (.file f)) ∧ ∃ f, other.get? r = some (.file f)

theorem Resembles.refl (fs : FileSystem) : Resembles fs fs :=
  ⟨rfl, rfl, fun _ => .inl rfl⟩

theorem Resembles.directory {other : FileSystem} (h : Resembles fs other)
    {r : Route} (there : fs.get? r = some .directory) :
    other.get? r = some .directory := by
  rcases h.nodes r with same | ⟨⟨f, file⟩, -⟩
  · rw [same, there]
  · rw [there] at file
    cases file

theorem Resembles.file {other : FileSystem} (h : Resembles fs other)
    {r : Route} (there : fs.get? r = some (.file f)) :
    ∃ g, other.get? r = some (.file g) := by
  rcases h.nodes r with same | ⟨-, file⟩
  · exact ⟨f, same.trans there⟩
  · exact file

theorem Resembles.locate {other : FileSystem} (h : Resembles fs other)
    (located : fs.locate p = .ok route) : other.locate p = .ok route :=
  locate_of_passedBy h.working (fun _ _ => h.directory) located

end FileSystem
end MirrorAdapter
