import MirrorAdapter.Proofs.NormalPaths

/-!
# Trees of files

What is read from a file system through its map are entries of its list. So
whether it is a tree can be checked entry by entry, and the files below a
directory are those at the routes that go on from it.
-/
namespace MirrorAdapter
namespace FileSystem

variable {fs : FileSystem} {route rest : Route} {f : StoredFile}

/-- What is there has an entry, the root apart. -/
theorem mem_entries_of_get? {node : Node} (there : fs.get? route = some node)
    (below : route ≠ []) : (route, node) ∈ fs.entries := by
  rw [get?, if_neg below] at there
  obtain ⟨before, behind, entries, -⟩ := List.lookup_eq_some_iff.mp there
  simp [entries]

theorem get?_ne_none_of_mem {e : Route × Node} (listed : e ∈ fs.entries) :
    fs.get? e.1 ≠ none := by
  rw [get?]
  split
  · simp
  · rw [Ne, List.lookup_eq_none_iff]
    intro hidden
    simpa using hidden e listed

theorem mem_filesBelow :
    (rest, f) ∈ fs.filesBelow route ↔
      fs.get? (route ++ rest) = some (.file f) := by
  rw [filesBelow, List.mem_filterMap]
  constructor
  · rintro ⟨⟨key, node⟩, -, found⟩
    split at found
    · rename_i below
      obtain ⟨behind, rfl⟩ := List.isPrefixOf_iff_prefix.mp below
      split at found
      · rename_i stored
        obtain ⟨rfl, rfl⟩ : behind = rest ∧ _ = f := by simpa using found
        exact stored
      · cases found
    · cases found
  · intro stored
    have below : route ++ rest ≠ [] := by
      intro root
      rw [root] at stored
      cases stored
    exact ⟨_, mem_entries_of_get? stored below, by simp [stored]⟩

theorem isTree_iff :
    fs.IsTree ↔ (∀ e ∈ fs.entries, fs.get? e.1.dropLast = some .directory) ∧
      fs.get? fs.working = some .directory := by
  constructor
  · intro tree
    exact ⟨fun e listed => tree.parent e.1 (get?_ne_none_of_mem listed),
      tree.working⟩
  · rintro ⟨parents, working⟩
    refine ⟨fun route there => ?_, working⟩
    by_cases root : route = []
    · subst root
      rfl
    · obtain ⟨node, found⟩ := Option.ne_none_iff_exists'.mp there
      exact parents _ (mem_entries_of_get? found root)

instance (fs : FileSystem) : Decidable fs.IsTree :=
  decidable_of_iff _ isTree_iff.symm

/-- A name that an entry of a directory can have. -/
structure IsStorable (name : Text) : Prop where
  entry : Path.IsEntryName name
  plain : (0 : Byte) ∉ name
  short : name.length ≤ longestName

instance (name : Text) : Decidable (IsStorable name) :=
  decidable_of_iff
    (Path.IsEntryName name ∧ (0 : Byte) ∉ name ∧ name.length ≤ longestName)
    ⟨fun h => ⟨h.1, h.2.1, h.2.2⟩, fun h => ⟨h.entry, h.plain, h.short⟩⟩

/-- A tree of directories and of files that may be read, whose entries have
names. -/
structure IsReadable (fs : FileSystem) : Prop where
  tree : fs.IsTree
  storable : ∀ e ∈ fs.entries, ∀ name ∈ e.1, IsStorable name
  readable : ∀ route f,
      fs.get? route = some (.file f) → FileMode.isReadable f.mode = true

/-- Files may be read if that is so for all files with an entry. -/
theorem isReadable_of_entries (tree : fs.IsTree)
    (storable : ∀ e ∈ fs.entries, ∀ name ∈ e.1, IsStorable name)
    (readable : ∀ e ∈ fs.entries, e.2 = .directory ∨
        ∃ f, e.2 = .file f ∧ FileMode.isReadable f.mode = true) :
    fs.IsReadable := by
  refine ⟨tree, storable, fun route f stored => ?_⟩
  have below : route ≠ [] := by
    rintro rfl
    cases stored
  rcases readable _ (mem_entries_of_get? stored below)
      with directory | ⟨_, same, permitted⟩
  · cases directory
  · cases same
    exact permitted

theorem IsReadable.storable_of_get? (h : fs.IsReadable)
    (there : fs.get? route ≠ none) : ∀ name ∈ route, IsStorable name := by
  by_cases root : route = []
  · simp [root]
  · obtain ⟨node, found⟩ := Option.ne_none_iff_exists'.mp there
    exact h.storable _ (mem_entries_of_get? found root)

end FileSystem
end MirrorAdapter
