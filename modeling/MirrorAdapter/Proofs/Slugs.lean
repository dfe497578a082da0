import Mathlib.Data.List.Nodup
import Mathlib.Data.List.Perm.Subperm
import MirrorAdapter.Name.Slug
import MirrorAdapter.Proofs.Decimals
import MirrorAdapter.Proofs.Lexemes

/-!
# Slugs of remote types

Whatever the types of a list are, each gets a name of its own, and the name
can be part of a file name: it is not empty and has letters, digits and
underscores only. Two names for one slug differ in their numbers, which can be
read back, so among one name more than are taken there is one that is free.
-/
namespace MirrorAdapter
namespace Name

/-! ## One name for each type -/

theorem numbered_injective (base : Text) :
    Function.Injective (numbered base) := by
  intro i j same
  have numbered_ne (n : Nat) : numbered base (n + 1) ≠ base := by
    simp [numbered, Text.ofString]
  cases i with
  | zero =>
    cases j with
    | zero => rfl
    | succ j => exact absurd same.symm (numbered_ne j)
  | succ i =>
    cases j with
    | zero => exact absurd same (numbered_ne i)
    | succ j =>
      have numbers : Text.decimal (i + 2) = Text.decimal (j + 2) :=
        List.append_cancel_left same
      have := Text.decimal_injective numbers
      omega

/-- Of the names to try, one is not taken. -/
theorem exists_free (taken : List Text) (base : Text) :
    ∃ n < taken.length + 1, numbered base n ∉ taken := by
  by_contra all
  push Not at all
  have inside :
      (List.range (taken.length + 1)).map (numbered base) ⊆ taken := by
    intro name found
    obtain ⟨n, small, rfl⟩ := List.mem_map.mp found
    exact all n (List.mem_range.mp small)
  have distinct : ((List.range (taken.length + 1)).map (numbered base)).Nodup :=
    List.nodup_range.map (numbered_injective base)
  have := (distinct.subperm inside).length_le
  simp only [List.length_map, List.length_range] at this
  omega

/-- The name that is found is the first of those to try that is free. -/
theorem exists_first_free (taken : List Text) (base : Text) :
    ∃ n ≤ taken.length, free taken base = numbered base n ∧
      numbered base n ∉ taken ∧ ∀ i < n, numbered base i ∈ taken := by
  obtain ⟨n, small, unused⟩ := exists_free taken base
  unfold free
  dsimp only
  rw [List.find?_map]
  cases found : (List.range (taken.length + 1)).find?
      ((fun name => !taken.contains name) ∘ numbered base) with
  | none =>
    have := List.find?_eq_none.mp found n (List.mem_range.mpr small)
    simp [unused] at this
  | some k =>
    obtain ⟨new, inside, earlier⟩ := List.find?_range_eq_some.mp found
    refine ⟨k, Nat.le_of_lt_succ (List.mem_range.mp inside), rfl,
      by simpa using new, fun i less => ?_⟩
    simpa using earlier i less

theorem exists_free_eq (taken : List Text) (base : Text) :
    ∃ n, free taken base = numbered base n ∧ numbered base n ∉ taken := by
  obtain ⟨n, -, found, unused, -⟩ := exists_first_free taken base
  exact ⟨n, found, unused⟩

theorem distinctSlugsFrom_distinct (taken spellings : List Text) :
    (distinctSlugsFrom taken spellings).Nodup ∧
    ∀ name ∈ distinctSlugsFrom taken spellings, name ∉ taken := by
  induction spellings generalizing taken with
  | nil => simp [distinctSlugsFrom]
  | cons spelling rest ih =>
    obtain ⟨n, name, unused⟩ := exists_free_eq taken (slug spelling)
    obtain ⟨distinct, others⟩ := ih (free taken (slug spelling) :: taken)
    rw [distinctSlugsFrom]
    refine ⟨List.nodup_cons.mpr
        ⟨fun again => others _ again (.head _), distinct⟩, ?_⟩
    rintro other (_ | ⟨_, found⟩)
    · rwa [name]
    · exact fun known => others other found (.tail _ known)

theorem nodup_distinctSlugs (spellings : List Text) :
    (distinctSlugs spellings).Nodup :=
  (distinctSlugsFrom_distinct [] spellings).1

/-! ## Slugs in file names -/

theorem isNameByte_of_mem_joinWords {gap : Bool} {s : Text} {b : Byte}
    (h : b ∈ joinWords gap s) : isNameByte b = true := by
  fun_induction joinWords gap s with
  | case1 => cases h
  | case2 _ c rest letter ih =>
    rcases List.mem_cons.mp h with rfl | found
    · simp [isNameByte, letter]
    · exact ih found
  | case3 _ _ _ ih => exact ih h
  | case4 _ _ _ _ _ ih =>
    rcases List.mem_cons.mp h with rfl | found
    · rfl
    · exact ih found

theorem isName_slug (spelling : Text) : IsName (slug spelling) := by
  unfold slug
  dsimp only
  split
  case isTrue => exact ⟨by decide, List.all_eq_true.mp (by decide)⟩
  case isFalse nonempty =>
    refine ⟨by simpa using nonempty, fun b found => ?_⟩
    rw [dropTrailing, List.mem_reverse] at found
    exact isNameByte_of_mem_joinWords
      (List.mem_reverse.mp ((List.dropWhile_suffix _).subset found))

theorem isName_numbered {base : Text} (h : IsName base) (n : Nat) :
    IsName (numbered base n) := by
  cases n with
  | zero => exact h
  | succ n =>
    refine ⟨by simp [numbered, h.1], fun b found => ?_⟩
    rcases List.mem_append.mp found with front | number
    · rcases List.mem_append.mp front with inside | mark
      · exact h.2 b inside
      · obtain rfl : b = '_' := by simpa [Text.ofString] using mark
        rfl
    · simp [isNameByte, Byte.isAlphanumeric, Text.isDigit_of_mem_decimal number]

theorem isName_of_mem_distinctSlugs {spellings : List Text} {name : Text}
    (h : name ∈ distinctSlugs spellings) : IsName name := by
  unfold distinctSlugs at h
  generalize ([] : List Text) = taken at h
  induction spellings generalizing taken with
  | nil => cases h
  | cons spelling rest ih =>
    rcases List.mem_cons.mp h with rfl | found
    · obtain ⟨n, numbered, -⟩ := exists_free_eq taken (slug spelling)
      rw [numbered]
      exact isName_numbered (isName_slug spelling) n
    · exact ih _ found

end Name
end MirrorAdapter
