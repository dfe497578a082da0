import MirrorAdapter.Path
import MirrorAdapter.Proofs.Lexemes

/-!
# Parts of paths

A path is its parts with slashes between them, so it can be given by either. A
place is a relative path that leads through directories with names to a file
with a dot in its name: names have no dots, so no place goes through another
one.
-/
namespace MirrorAdapter
namespace Path

theorem parts_cons_of_ne {b : Byte} (h : b ≠ '/') (rest : Path) :
    ∃ part others, parts rest = part :: others ∧
      parts (b :: rest) = (b :: part) :: others := by
  obtain ⟨part, others, split⟩ :=
    List.exists_cons_of_ne_nil (parts_ne_nil rest)
  exact ⟨part, others, split, by simp [parts, h, split]⟩

/-- A slash between two paths separates their parts. -/
theorem parts_append_slash (p q : Path) :
    parts (p ++ ('/' : Byte) :: q) = parts p ++ parts q := by
  induction p with
  | nil => simp [parts]
  | cons b p ih =>
    by_cases slash : b = '/'
    · simp [parts, slash, ih]
    · obtain ⟨part, others, split, more⟩ := parts_cons_of_ne slash p
      obtain ⟨part', others', split', more'⟩ :=
        parts_cons_of_ne slash (p ++ ('/' : Byte) :: q)
      rw [ih, split, List.cons_append, List.cons.injEq] at split'
      rw [List.cons_append, more, more', List.cons_append, ← split'.1,
        ← split'.2]

theorem parts_of_not_mem {p : Path} (h : ('/' : Byte) ∉ p) :
    parts p = [p] := by
  induction p with
  | nil => rfl
  | cons b p ih =>
    have other : b ≠ '/' := fun same => h (same ▸ .head _)
    simp [parts, other, ih fun inside => h (.tail _ inside)]

/-- No part has a slash. -/
theorem not_mem_of_mem_parts {p : Path} {part : Text} (h : part ∈ parts p) :
    ('/' : Byte) ∉ part := by
  induction p generalizing part with
  | nil =>
    obtain rfl : part = [] := by simpa [parts] using h
    exact List.not_mem_nil
  | cons b p ih =>
    by_cases slash : b = '/'
    · rw [parts, if_pos slash] at h
      rcases List.mem_cons.mp h with rfl | inside
      · exact List.not_mem_nil
      · exact ih inside
    · obtain ⟨first, others, split, more⟩ := parts_cons_of_ne slash p
      rw [more] at h
      rcases List.mem_cons.mp h with rfl | inside
      · rintro (_ | ⟨_, behind⟩)
        · exact slash rfl
        · exact ih (split ▸ .head _) behind
      · exact ih (split ▸ .tail _ inside)

/-- A path is its parts with slashes between them. -/
theorem join_parts (p : Path) : Text.join "/" (parts p) = p := by
  induction p with
  | nil => rfl
  | cons b p ih =>
    obtain ⟨part, others, split⟩ :=
      List.exists_cons_of_ne_nil (parts_ne_nil p)
    rw [split] at ih
    by_cases slash : b = '/'
    · rw [parts, if_pos slash, split, Text.join, ih, slash]
      · rfl
      · exact List.cons_ne_nil _ _
    · simp only [parts, slash, if_false, split]
      cases others with
      | nil => simpa [Text.join] using ih
      | cons other others => simpa [Text.join] using ih

theorem parts_injective : Function.Injective parts := by
  intro p q same
  rw [← join_parts p, same, join_parts]

/-! ## Places -/

open Name (IsName isNameByte)

/-- A name with a dot in it. -/
structure IsFileName (s : Text) : Prop where
  bytes : ∀ b ∈ s, isNameByte b = true ∨ b = '.'
  dot : ('.' : Byte) ∈ s
  notDots : isDots s = false

/-- The bytes of a text that is given can be checked one by one. -/
theorem bytes_of_all {s : Text}
    (h : (s.all fun b => isNameByte b || b == '.') = true) :
    ∀ b ∈ s, isNameByte b = true ∨ b = '.' := by
  simpa using h

/-- The path leads through directories that have names to a file with a dot in
its name. -/
def IsPlace (p : Path) : Prop :=
  ∃ scope file,
    parts p = scope ++ [file] ∧ (∀ c ∈ scope, IsName c) ∧ IsFileName file

variable {p q : Path}

theorem not_isFileName_of_isName {s : Text} (h : IsName s) : ¬IsFileName s :=
  fun file => h.not_mem (by decide) file.dot

theorem isDots_of_isName {s : Text} (h : IsName s) : isDots s = false := by
  rw [isDots, Bool.or_eq_false_iff, beq_eq_false_iff_ne, beq_eq_false_iff_ne]
  have without_dot : ('.' : Byte) ∉ s := h.not_mem (by decide)
  constructor <;>
    exact fun same => without_dot (by simp [same, Text.ofString])

/-- A part of a place stands for a step down. -/
theorem IsPlace.goesDown (h : IsPlace p) {part : Text}
    (inside : part ∈ parts p) : part ≠ [] ∧ isDots part = false := by
  obtain ⟨scope, file, split, names, fileName⟩ := h
  rw [split, List.mem_append, List.mem_singleton] at inside
  rcases inside with directory | rfl
  · exact ⟨(names part directory).nonempty,
      isDots_of_isName (names part directory)⟩
  · exact ⟨List.ne_nil_of_mem fileName.dot, fileName.notDots⟩

/-- No place goes through another one. -/
theorem IsPlace.eq_of_goesThrough (h : IsPlace p) (h' : IsPlace q)
    (through : Path.parts p <+: Path.parts q) : p = q := by
  obtain ⟨scope, file, split, names, fileName⟩ := h
  obtain ⟨scope', file', split', names', fileName'⟩ := h'
  apply parts_injective
  rw [split, split'] at through ⊢
  rcases List.prefix_concat_iff.mp through with same | shorter
  · exact same
  · have directory : file ∈ scope' := shorter.subset (by simp)
    exact absurd fileName (not_isFileName_of_isName (names' file directory))

/-- A place has bytes of names, dots and slashes only. -/
theorem IsPlace.bytes (h : IsPlace p) :
    ∀ b ∈ p, isNameByte b = true ∨ b = '.' ∨ b = '/' := by
  obtain ⟨scope, file, split, names, fileName⟩ := h
  have each :
      ∀ part ∈ Path.parts p, ∀ b ∈ part, isNameByte b = true ∨ b = '.' := by
    intro part inside
    rw [split, List.mem_append, List.mem_singleton] at inside
    rcases inside with directory | rfl
    · exact fun b found => .inl ((names part directory).bytes b found)
    · exact fileName.bytes
  rw [← join_parts p]
  generalize Path.parts p = parts at each
  induction parts with
  | nil => simp [Text.join]
  | cons part parts ih =>
    rw [List.forall_mem_cons] at each
    have here : ∀ b ∈ part, isNameByte b = true ∨ b = '.' ∨ b = '/' :=
      fun b found => (each.1 b found).imp_right .inl
    cases parts with
    | nil => exact here
    | cons other others =>
      simp only [Text.join, List.forall_mem_append]
      exact ⟨⟨here, by simp [Text.ofString]⟩, ih each.2⟩

theorem IsPlace.isAbsolute (h : IsPlace p) : isAbsolute p = false := by
  cases p with
  | nil => rfl
  | cons b rest =>
    by_contra slash
    obtain rfl : b = '/' := by simpa [Path.isAbsolute] using slash
    have first : ([] : Text) ∈ Path.parts (('/' : Byte) :: rest) := by
      simp [Path.parts]
    exact (h.goesDown first).1 rfl

theorem IsPlace.nul_not_mem (h : IsPlace p) : (0 : Byte) ∉ p := by
  intro nul
  rcases h.bytes 0 nul with name | dot | slash
  · exact absurd name (by decide)
  · exact absurd dot (by decide)
  · exact absurd slash (by decide)

/-- More text at the end of a path belongs to its last part. -/
theorem parts_append {scope : List Text} {file more : Text}
    (split : parts p = scope ++ [file]) (plain : ('/' : Byte) ∉ more) :
    parts (p ++ more) = scope ++ [file ++ more] := by
  induction scope generalizing p with
  | nil =>
    have noSlash : ('/' : Byte) ∉ file :=
      not_mem_of_mem_parts (p := p) (by simp [split])
    obtain rfl : file = p := by simpa [split, Text.join] using join_parts p
    exact parts_of_not_mem (by simp [noSlash, plain])
  | cons c scope ih =>
    have noSlash : ('/' : Byte) ∉ c :=
      not_mem_of_mem_parts (p := p) (by simp [split])
    obtain ⟨q, rfl⟩ : ∃ q, p = c ++ ('/' : Byte) :: q := by
      refine ⟨Text.join "/" (scope ++ [file]), ?_⟩
      conv => lhs; rw [← join_parts p, split]
      cases scope <;> simp [Text.join, Text.ofString]
    rw [parts_append_slash, parts_of_not_mem noSlash, List.cons_append,
      List.nil_append, List.cons_append, List.cons.injEq]
      at split
    rw [List.append_assoc, List.cons_append, parts_append_slash,
      parts_of_not_mem noSlash, ih split.2]
    rfl

theorem isDots_of_getLast? {s : Text} {b : Byte}
    (last : s.getLast? = some b) (other : b ≠ '.') : isDots s = false := by
  have no_dot {dots : Text} (ends : dots.getLast? = some ('.' : Byte)) :
      s ≠ dots := by
    rintro rfl
    exact other (Option.some.inj (last.symm.trans ends))
  rw [isDots, Bool.or_eq_false_iff, beq_eq_false_iff_ne, beq_eq_false_iff_ne]
  exact ⟨no_dot rfl, no_dot rfl⟩

/-- The dependency file of a place has a place beside it. -/
theorem IsPlace.depfile (h : IsPlace p) :
    IsPlace (p ++ Text.ofString ".d") := by
  obtain ⟨scope, file, split, names, fileName⟩ := h
  refine ⟨scope, _, parts_append split (by decide), names, ?_,
    List.mem_append_left _ fileName.dot, ?_⟩
  · exact List.forall_mem_append.mpr ⟨fileName.bytes, bytes_of_all (by decide)⟩
  · refine isDots_of_getLast? (b := 'd') ?_ (by decide)
    rw [List.getLast?_append]
    rfl

/-! ## Paths below a directory -/

/-- Below a directory all paths follow the same text and a slash, whether or
not the directory is written with a slash at its end. -/
theorem exists_join_eq {base : Path} (nonempty : base ≠ []) :
    ∃ trunk, ((0 : Byte) ∈ trunk ↔ (0 : Byte) ∈ base) ∧
      ∀ p, isAbsolute p = false → join base p = trunk ++ ('/' : Byte) :: p := by
  by_cases slash : base.getLast? = some ('/' : Byte)
  · obtain ⟨trunk, rfl⟩ := List.getLast?_eq_some_iff.mp slash
    refine ⟨trunk, by simp +decide, fun p relative => ?_⟩
    rw [join, relative, if_neg (by simp), if_pos (by simp), List.append_assoc]
    rfl
  · refine ⟨base, Iff.rfl, fun p relative => ?_⟩
    rw [join, relative, if_neg (by simpa using nonempty),
      if_neg (by simpa using slash), List.append_assoc]
    rfl

end Path
end MirrorAdapter
