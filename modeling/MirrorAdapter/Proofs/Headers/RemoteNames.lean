import Mathlib.Data.List.Chain
import Mathlib.Data.List.DropRight
import MirrorAdapter.Proofs.Headers.Paths

/-!
# Names of remote types

Names are tried one after another, with numbers that are counted in words of
32 bits. For fewer types than there are words the count never starts over, so
every search ends, and at the first free name (`Search`, `Naming`). A name is
made of words with single underscores between them, and it is the slug itself
wherever no earlier type was given that name.
-/
namespace MirrorAdapter
namespace Name

/-! ## Shape -/

/-- A text made of words of letters and digits, with single underscores
between them. -/
structure IsSlug (s : Text) : Prop where
  isName : IsName s
  noneInFront : s.head? ≠ some ('_' : Byte)
  noneBehind : s.getLast? ≠ some ('_' : Byte)
  noneDouble : ¬Text.ofString "__" <:+: s

/-- The bytes are not both underscores. -/
def Parted (a b : Byte) : Prop := a = '_' → b ≠ '_'

theorem isChain_parted_iff (s : Text) :
    s.IsChain Parted ↔ ¬Text.ofString "__" <:+: s := by
  constructor
  · intro chain double
    have pair : Parted '_' '_' :=
      List.isChain_pair.mp <| List.IsChain.infix chain double
    exact pair rfl rfl
  · intro noneDouble
    rw [List.isChain_iff_forall_rel_of_append_cons_cons]
    rintro a b front back rfl rfl rfl
    exact noneDouble ⟨front, back, by simp [Text.ofString]⟩

theorem ne_underscore_of_isAlphanumeric {b : Byte}
    (h : b.isAlphanumeric = true) : b ≠ '_' := by
  rintro rfl
  cases h

/-- An underscore is written behind a letter or digit only. -/
theorem isChain_joinWords (gap : Bool) (s : Text) :
    (joinWords gap s).IsChain Parted ∧
    (gap = true → (joinWords gap s).head? ≠ some ('_' : Byte)) := by
  fun_induction joinWords gap s with
  | case1 => simp
  | case2 _ b _ letter ih =>
    have word := ne_underscore_of_isAlphanumeric letter
    exact ⟨List.isChain_cons.mpr ⟨fun _ _ same => absurd same word, ih.1⟩,
      fun _ => by simpa using word⟩
  | case3 _ _ _ ih => exact ih
  | case4 _ _ _ _ noGap ih =>
    refine ⟨List.isChain_cons.mpr ⟨?_, ih.1⟩, fun inGap => absurd inGap noGap⟩
    rintro next second - rfl
    exact ih.2 rfl second

/-- What is left without underscores at its end begins as before. -/
theorem isSlug_dropTrailing {s : Text} (bytes : ∀ b ∈ s, isNameByte b = true)
    (chain : s.IsChain Parted) (head : s.head? ≠ some ('_' : Byte))
    (nonempty : dropTrailing s ≠ []) : IsSlug (dropTrailing s) := by
  have kept : ¬((dropTrailing s).getLast nonempty == ('_' : Byte)) = true :=
    List.rdropWhile_last_not _ _ nonempty
  obtain ⟨dropped, whole⟩ : dropTrailing s <+: s := List.rdropWhile_prefix _ _
  refine ⟨⟨nonempty, fun b inside => ?_⟩, ?_, ?_, ?_⟩
  · rw [← whole] at bytes
    exact bytes b (List.mem_append_left dropped inside)
  · rw [← List.head?_append_of_ne_nil _ nonempty, whole]
    exact head
  · rw [List.getLast?_eq_some_getLast nonempty]
    intro last
    exact kept (by simpa using last)
  · rw [← whole] at chain
    exact (isChain_parted_iff _).mp chain.left_of_append

theorem isSlug_slug (spelling : Text) : IsSlug (slug spelling) := by
  unfold slug
  dsimp only
  split
  case isTrue =>
    exact ⟨⟨by decide, List.all_eq_true.mp (by decide)⟩, by decide,
      by decide, by decide⟩
  case isFalse nonempty =>
    obtain ⟨chain, head⟩ := isChain_joinWords true spelling
    exact isSlug_dropTrailing (fun b => isNameByte_of_mem_joinWords) chain
      (head rfl) (by simpa using nonempty)

theorem ne_underscore_of_mem_decimal {n : Nat} {b : Byte}
    (h : b ∈ Text.decimal n) : b ≠ '_' := by
  apply ne_underscore_of_isAlphanumeric
  simp [Byte.isAlphanumeric, Text.isDigit_of_mem_decimal h]

theorem isSlug_numbered {base : Text} (h : IsSlug base) (n : Nat) :
    IsSlug (numbered base n) := by
  cases n with
  | zero => exact h
  | succ n =>
    have digits : Text.decimal (n + 2) ≠ [] := Text.decimal_ne_nil _
    have whole :
        numbered base (n + 1) =
          base ++ ('_' : Byte) :: Text.decimal (n + 2) := by
      simp [numbered, Text.ofString]
    refine ⟨isName_numbered h.isName (n + 1), ?_, ?_, ?_⟩ <;> rw [whole]
    · rw [List.head?_append_of_ne_nil _ h.isName.nonempty]
      exact h.noneInFront
    · rw [List.getLast?_append_of_ne_nil _ (List.cons_ne_nil _ _),
        List.getLast?_cons, List.getLast?_eq_some_getLast digits]
      intro last
      exact ne_underscore_of_mem_decimal (List.getLast_mem digits)
        (by simpa using last)
    · rw [← isChain_parted_iff]
      have number : (Text.decimal (n + 2)).IsChain Parted :=
        (List.pairwise_of_forall_mem_list fun _ first _ _ same =>
          absurd same (ne_underscore_of_mem_decimal first)).isChain
      refine ((isChain_parted_iff base).mpr h.noneDouble).append
        (List.isChain_cons.mpr ⟨?_, number⟩) ?_
      · intro digit first _
        exact ne_underscore_of_mem_decimal (List.mem_of_mem_head? first)
      · rintro last behind _ _ rfl
        exact absurd behind h.noneBehind

/-! ## Search -/

/-- A search that has come to a name, with the number for the next one: it
ends if the name is not taken, and goes on from the numbered name else. The
numbers are words of 32 bits. -/
inductive Search (taken : List Text) (base : Text) :
    Text → UInt32 → Text → Prop
  | ends {name : Text} {n : UInt32} :
      name ∉ taken → Search taken base name n name
  | goesOn {name found : Text} {n : UInt32} :
      name ∈ taken →
      Search taken base (base ++ "_" ++ Text.decimal n.toNat) (n + 1) found →
      Search taken base name n found

theorem Search.unique {taken : List Text} {base name found other : Text}
    {n : UInt32} (h : Search taken base name n found)
    (h' : Search taken base name n other) : found = other := by
  induction h with
  | ends new =>
    cases h' with
    | ends => rfl
    | goesOn old => exact absurd old new
  | goesOn old _ ih =>
    cases h' with
    | ends new => exact absurd old new
    | goesOn _ later => exact ih later

/-- As long as the numbers fit a word, a search goes through the names to try
in order. -/
theorem search_numbered {taken : List Text} {base : Text} {k : Nat}
    (new : numbered base k ∉ taken) (earlier : ∀ i < k, numbered base i ∈ taken)
    (fits : k + 1 < UInt32.size) {j : Nat} (reached : j ≤ k) :
    Search taken base (numbered base j) (UInt32.ofNat (j + 2))
      (numbered base k) := by
  obtain ⟨left, rfl⟩ := Nat.exists_eq_add_of_le reached
  induction left generalizing j with
  | zero => exact .ends new
  | succ left ih =>
    have number : (UInt32.ofNat (j + 2)).toNat = j + 2 :=
      UInt32.toNat_ofNat_of_lt' (by omega)
    have next : UInt32.ofNat (j + 2) + 1 = UInt32.ofNat (j + 1 + 2) :=
      (UInt32.ofNat_add (j + 2) 1).symm
    have whole : j + 1 + left = j + (left + 1) := by omega
    refine .goesOn (earlier j (by omega)) ?_
    rw [number, next, ← whole]
    exact ih (by rwa [whole]) (by rwa [whole]) (by rwa [whole]) (by omega)

/-- With fewer names taken than there are words, the search for a slug
ends. -/
theorem search_free {taken : List Text} (few : taken.length + 1 < UInt32.size)
    (base : Text) : Search taken base base 2 (free taken base) := by
  obtain ⟨k, small, found, new, earlier⟩ := exists_first_free taken base
  rw [found]
  exact search_numbered new earlier (by omega) (Nat.zero_le k)

/-- A slug is given as it is unless it is taken. -/
theorem free_eq_iff (taken : List Text) (base : Text) :
    free taken base = base ↔ base ∉ taken := by
  obtain ⟨k, -, found, new, earlier⟩ := exists_first_free taken base
  rw [found]
  constructor
  · intro same
    rwa [same] at new
  · intro untaken
    cases k with
    | zero => rfl
    | succ k => exact absurd (earlier 0 (Nat.succ_pos k)) untaken

end Name

namespace Adapter

open Mapping (Header)
open Name (IsSlug Search)

/-- The names of types, each found by a search among those that come after the
names already given. -/
inductive Naming : List Text → List Text → List RemoteName → Prop
  | nil {taken : List Text} : Naming taken [] []
  | cons {taken rest : List Text} {type slug : Text} {names : List RemoteName} :
      Search taken (Name.slug type) (Name.slug type) 2 slug →
      Naming (slug :: taken) rest names →
      Naming taken (type :: rest) (⟨type, slug⟩ :: names)

theorem naming_iff {taken types : List Text}
    (few : taken.length + types.length < UInt32.size - 1)
    (names : List RemoteName) :
    Naming taken types names ↔ names = List.zipWith RemoteName.mk types
          (Name.distinctSlugsFrom taken types) := by
  induction types generalizing taken names with
  | nil =>
    constructor
    · rintro ⟨⟩
      rfl
    · rintro rfl
      exact .nil
  | cons type rest ih =>
    rw [List.length_cons] at few
    have search :
        Search taken (Name.slug type) (Name.slug type) 2
          (Name.free taken (Name.slug type)) :=
      Name.search_free (by omega) (Name.slug type)
    have fits :
        (Name.free taken (Name.slug type) :: taken).length + rest.length <
          UInt32.size - 1 := by
      rw [List.length_cons]
      omega
    have later := ih fits
    constructor
    · rintro (_ | ⟨found, names⟩)
      obtain rfl := found.unique search
      rw [(later _).mp names]
      rfl
    · rintro rfl
      exact .cons search ((later _).mpr rfl)

/-- Where a name stands, the names before it are those that were taken. -/
theorem slug_of_append {taken types : List Text}
    {before after : List RemoteName} {name : RemoteName}
    (h : List.zipWith RemoteName.mk types (Name.distinctSlugsFrom taken types) =
        before ++ name :: after) :
    name.slug = Name.free ((before.map (·.slug)).reverse ++ taken)
        (Name.slug name.type) := by
  induction types generalizing taken before with
  | nil => simp at h
  | cons type rest ih =>
    rw [Name.distinctSlugsFrom, List.zipWith_cons_cons] at h
    cases before with
    | nil =>
      obtain ⟨rfl, -⟩ := List.cons.inj h
      rfl
    | cons first before =>
      obtain ⟨rfl, others⟩ := List.cons.inj h
      rw [ih others, List.map_cons, List.reverse_cons, List.append_assoc]
      rfl

theorem types_remoteNames (h : Header) :
    (remoteNames h).map (·.type) = h.remoteTypes.map (·.spelling) := by
  rw [remoteNames, ← List.map_uncurry_zip_eq_zipWith, List.map_map]
  exact List.map_fst_zip (length_distinctSlugsFrom [] _).ge

/-- Every list of fewer remote types than 2³² - 1 gets its names, one for each
type in order, and no two of them are the same. Each is made of words with
single underscores between them, and it is the slug of its type if and only if
no type before has been given that slug. -/
theorem names_of_remoteTypes {h : Header}
    (few : h.remoteTypes.length < UInt32.size - 1) :
    (∀ names, Naming [] (h.remoteTypes.map (·.spelling)) names ↔
        names = remoteNames h) ∧
    (remoteNames h).map (·.type) = h.remoteTypes.map (·.spelling) ∧
    ((remoteNames h).map (·.slug)).Nodup ∧
    (∀ name ∈ remoteNames h, IsSlug name.slug) ∧
    ∀ before name after, remoteNames h = before ++ name :: after →
      (name.slug = Name.slug name.type ↔
        ∀ other ∈ before, other.slug ≠ Name.slug name.type) := by
  refine ⟨fun names => naming_iff (by simpa using few) names,
    types_remoteNames h, ?_, ?_, ?_⟩
  · rw [slugs_remoteNames]
    exact Name.nodup_distinctSlugs _
  · intro name member
    obtain ⟨before, after, whole⟩ := List.append_of_mem member
    obtain ⟨n, found, -⟩ :=
      Name.exists_free_eq ((before.map (·.slug)).reverse ++ [])
        (Name.slug name.type)
    rw [slug_of_append whole, found]
    exact Name.isSlug_numbered (Name.isSlug_slug name.type) n
  · intro before name after whole
    rw [slug_of_append whole, Name.free_eq_iff]
    simp

/-- Types with one slug, and one whose own slug is taken before its turn. -/
def clashingTypes : Header where
  name := "M"
  remoteTypes :=
    ["a::P", "::a::P", "a_P_2", "a::P<>", "[]"].map
      fun spelling : String => ⟨spelling, default⟩

theorem names_of_clashingTypes :
    clashingTypes.remoteTypes.length < UInt32.size - 1 ∧
    (∀ names, Naming [] (clashingTypes.remoteTypes.map (·.spelling)) names ↔
        names = remoteNames clashingTypes) ∧
    (remoteNames clashingTypes).map (·.slug) =
      ["a_P", "a_P_2", "a_P_2_2", "a_P_3", "type"].map Text.ofString := by
  have few : clashingTypes.remoteTypes.length < UInt32.size - 1 := by decide
  exact ⟨few, (names_of_remoteTypes few).1, by decide +kernel⟩

end Adapter
end MirrorAdapter
