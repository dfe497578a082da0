import MirrorAdapter.Depfile
import MirrorAdapter.Proofs.Sorting

/-!
# Reading dependency files back

Whatever the bytes of the paths are, a rule can be taken apart again: a colon
or a blank that belongs to a path is protected, so the first colon that is not
protected ends the target, and each blank that is not protected starts a
dependency. A rule therefore settles its target and which dependencies there
are.
-/
namespace MirrorAdapter
namespace Depfile

/-- A byte that is read from a rule. It is literal if an escape protects
it. -/
structure Sign where
  byte : Byte
  literal : Bool
deriving Repr, DecidableEq, Inhabited

/-- The bytes of a rule without its escapes: a backslash protects the byte
behind it if that is special, and a dollar sign is written twice. -/
def signs : Text → List Sign
  | [] => []
  | [b] => [⟨b, false⟩]
  | a :: b :: rest =>
    if a = '\\' ∧ isSpecial b = true ∨ a = '$' ∧ b = '$' then
      ⟨b, true⟩ :: signs rest
    else ⟨a, false⟩ :: signs (b :: rest)

/-- A mark of the syntax, which no escape protects. -/
def bare (b : Byte) : Sign := ⟨b, false⟩

/-- The path that is written so. -/
def pathOf (path : List Sign) : Text := path.map Sign.byte

/-- The target of a rule, and its dependencies as they are listed. The line
feed at the end is dropped. -/
def decode (rule : Text) : Text × List Text :=
  let line := signs rule.dropLast
  let target := line.takeWhile (· != bare ':')
  let listing := (line.dropWhile (· != bare ':')).tail
  (pathOf target, ((listing.splitOn (bare ' ')).tail).map pathOf)

/-! ## Escapes -/

/-- A byte of a path as it is read back. -/
def signOf (b : Byte) : Sign := ⟨b, b == '$' || isSpecial b⟩

theorem pathOf_signOf (path : Text) : pathOf (path.map signOf) = path := by
  simp [pathOf, signOf, Function.comp_def]

/-- No byte of a path is read as a mark of the syntax. -/
theorem signOf_ne_bare {mark : Byte} (special : isSpecial mark = true)
    (b : Byte) : signOf b ≠ bare mark := by
  intro same
  obtain ⟨rfl, unprotected⟩ := Sign.mk.inj same
  simp [special] at unprotected

/-- A byte that starts no escape is read as it is. -/
theorem signs_cons {a : Byte} (backslash : a ≠ '\\') (dollar : a ≠ '$')
    (rest : Text) : signs (a :: rest) = bare a :: signs rest := by
  cases rest with
  | nil => rfl
  | cons b rest => rw [signs, if_neg (by simp [backslash, dollar])]; rfl

theorem signs_escape (b : Byte) (rest : Text) :
    signs (escape b ++ rest) = signOf b :: signs rest := by
  unfold escape
  by_cases dollar : b = '$'
  · subst dollar
    rw [if_pos rfl]
    show signs ('$' :: '$' :: rest) = _
    rw [signs, if_pos (.inr ⟨rfl, rfl⟩)]
    rfl
  · rw [if_neg dollar]
    by_cases special : isSpecial b = true
    · rw [if_pos special]
      show signs ('\\' :: b :: rest) = _
      rw [signs, if_pos (.inl ⟨rfl, special⟩), signOf, special, Bool.or_true]
    · have backslash : b ≠ '\\' := by
        rintro rfl
        exact special (by decide)
      rw [if_neg special]
      show signs (b :: rest) = _
      rw [signs_cons backslash dollar, signOf]
      simp [bare, dollar, special]

theorem signs_escaped (path rest : Text) :
    signs (escaped path ++ rest) = path.map signOf ++ signs rest := by
  induction path with
  | nil => rfl
  | cons b path ih =>
    have first : escaped (b :: path) = escape b ++ escaped path :=
      List.flatMap_cons
    rw [first, List.append_assoc, signs_escape, ih, List.map_cons,
      List.cons_append]

theorem signs_listing (dependencies : List Text) :
    signs (dependencies.flatMap listed) =
      dependencies.flatMap fun d => bare ' ' :: d.map signOf := by
  induction dependencies with
  | nil => rfl
  | cons d dependencies ih =>
    rw [List.flatMap_cons, List.flatMap_cons, ← ih]
    show signs (' ' :: (escaped d ++ dependencies.flatMap listed)) = _
    rw [signs_cons (by decide) (by decide), signs_escaped, List.cons_append]

/-! ## Rules -/

/-- Parts that follow a mark each are told apart by it. -/
theorem splitOn_flatMap_cons {α : Type} [DecidableEq α]
    {mark : α} {first : List α} {parts : List (List α)}
    (firstPlain : mark ∉ first) (plain : ∀ part ∈ parts, mark ∉ part) :
    (first ++ parts.flatMap (mark :: ·)).splitOn mark = first :: parts := by
  have joined :
      first ++ parts.flatMap (mark :: ·) =
        [mark].intercalate (first :: parts) := by
    clear firstPlain plain
    induction parts generalizing first with
    | nil => simp [List.intercalate]
    | cons part parts ih =>
      rw [List.flatMap_cons, List.cons_append, ih]
      simp [List.intercalate]
  rw [joined]
  exact List.splitOn_intercalate mark
    (List.forall_mem_cons.mpr ⟨firstPlain, plain⟩) (List.cons_ne_nil _ _)

theorem decode_render (target : Text) (dependencies : List Text) :
    decode (render target dependencies) =
      (target, Text.sortedSet dependencies) := by
  generalize sorted : Text.sortedSet dependencies = listing
  have line :
      signs (render target dependencies).dropLast = target.map signOf ++
          bare ':' :: listing.flatMap fun d => bare ' ' :: d.map signOf := by
    have rule :
        (render target dependencies).dropLast =
          escaped target ++ ((':' : Byte) :: listing.flatMap listed) := by
      rw [render, sorted]
      show (escaped target ++ [(':' : Byte)] ++
            listing.flatMap listed ++ [('\n' : Byte)]).dropLast
          = _
      rw [List.dropLast_concat, List.append_assoc]
      rfl
    rw [rule, signs_escaped, signs_cons (by decide) (by decide), signs_listing]
  have inTarget : ∀ s ∈ target.map signOf, (s != bare ':') = true := by
    intro s inside
    obtain ⟨b, -, rfl⟩ := List.mem_map.mp inside
    exact bne_iff_ne.mpr (signOf_ne_bare (by decide) b)
  have inPaths : ∀ path ∈ listing.map (List.map signOf), bare ' ' ∉ path := by
    intro path listed inside
    obtain ⟨d, -, rfl⟩ := List.mem_map.mp listed
    obtain ⟨b, -, same⟩ := List.mem_map.mp inside
    exact signOf_ne_bare (by decide) b same
  have split :
      (listing.flatMap fun d => bare ' ' :: d.map signOf).splitOn (bare ' ') =
        [] :: listing.map (List.map signOf) := by
    have parts := splitOn_flatMap_cons List.not_mem_nil inPaths
    rwa [List.nil_append, List.flatMap_map] at parts
  rw [decode, line, List.takeWhile_append_of_pos inTarget,
    List.dropWhile_append_of_pos inTarget]
  simp [split, pathOf_signOf, Function.comp_def]

/-- A rule can be decoded, whatever bytes its paths are made of: what comes
out is its target and its dependencies, once each and in the order of their
bytes. So rules are equal only if they have the same target and the same set
of dependencies. -/
theorem rule_uniquely_decodable (target : Text) (dependencies : List Text) :
    decode (render target dependencies) =
      (target, Text.sortedSet dependencies) ∧
    (Text.sortedSet dependencies).Pairwise (· < ·) ∧
    (∀ d, d ∈ Text.sortedSet dependencies ↔ d ∈ dependencies) ∧
    ∀ target' dependencies',
      render target dependencies = render target' dependencies' ↔
      target = target' ∧ ∀ d, d ∈ dependencies ↔ d ∈ dependencies' := by
  refine ⟨decode_render target dependencies,
    Text.pairwise_sortedSet dependencies, fun d => Text.mem_sortedSet, ?_⟩
  intro target' dependencies'
  rw [← Text.sortedSet_eq_iff]
  constructor
  · intro same
    have read := congrArg decode same
    rw [decode_render, decode_render] at read
    exact Prod.mk.inj read
  · rintro ⟨rfl, same⟩
    rw [render, render, same]

end Depfile
end MirrorAdapter
