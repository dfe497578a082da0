import Mathlib.Data.List.Infix
import MirrorAdapter.Mapping.TypeSpelling
import MirrorAdapter.Proofs.Rescanning

/-!
# Types that are no classes

Whether a type is no class is told from the tokens that stand outside of its
groups, template arguments and parameters in parentheses alike. So it makes no
difference what the arguments are; a pointer, a reference, an array or a
qualified type is never a class; and a name is one unless it is that of an
arithmetic type or of a standard alias.
-/
namespace MirrorAdapter
namespace TypeSpelling

open Token (Kind)

/-! ## Groups -/

/-- How a token changes the number of open groups. -/
def grouping (k : Kind) : Int :=
  if opensGroup k then 1 else if closesGroup k then -1 else 0

/-- How many groups the tokens open, less those that they close. -/
def level : List Token → Int
  | [] => 0
  | t :: ts => grouping t.kind + level ts

@[simp] theorem level_nil : level [] = 0 := rfl

@[simp] theorem level_cons (t : Token) (ts : List Token) :
    level (t :: ts) = grouping t.kind + level ts := rfl

/-- Every group is closed, and none that is not open. -/
structure Grouped (ts : List Token) : Prop where
  opened : ∀ front, front <+: ts → 0 ≤ level front
  closed : level ts = 0

instance (ts : List Token) : Decidable (Grouped ts) :=
  decidable_of_iff ((∀ front ∈ ts.inits, 0 ≤ level front) ∧ level ts = 0)
    ⟨fun h =>
      ⟨fun front inside => h.1 front ((List.mem_inits front ts).mpr inside),
        h.2⟩,
      fun h =>
        ⟨fun front inside =>
            h.opened front ((List.mem_inits front ts).mp inside), h.closed⟩⟩

/-- The token stands in the list where no group is open. -/
def StandsOutside (t : Token) (ts : List Token) : Prop :=
  ∃ front back, ts = front ++ t :: back ∧ level front = 0

/-! ## What stands outside -/

theorem outside_cons (depth : Int) (t : Token) (ts : List Token) :
    outside depth (t :: ts) =
      (if grouping t.kind = 0 ∧ depth = 0 then [t] else []) ++
        outside (depth + grouping t.kind) ts := by
  rw [outside]
  cases opens : opensGroup t.kind with
  | true => simp [grouping, opens]
  | false =>
    cases closes : closesGroup t.kind with
    | true => simp [grouping, opens, closes, Int.sub_eq_add_neg]
    | false =>
      by_cases here : depth = 0
      · simp [grouping, opens, closes, here]
      · simp [grouping, opens, closes, here]

theorem outside_append (depth : Int) (ts us : List Token) :
    outside depth (ts ++ us) =
      outside depth ts ++ outside (depth + level ts) us := by
  induction ts generalizing depth with
  | nil => simp [outside]
  | cons t ts ih =>
    rw [List.cons_append, outside_cons, ih, outside_cons depth t ts,
      level_cons, List.append_assoc, Int.add_assoc]

/-- Outside stand the tokens, marks of groups apart, behind as many openings
as closings. -/
theorem mem_outside_iff {t : Token} {ts : List Token} :
    t ∈ outside 0 ts ↔ grouping t.kind = 0 ∧ StandsOutside t ts := by
  constructor
  · suffices h :
        ∀ depth, t ∈ outside depth ts → grouping t.kind = 0 ∧
          ∃ front back, ts = front ++ t :: back ∧ depth + level front = 0 by
      intro found
      obtain ⟨plain, front, back, whole, zero⟩ := h 0 found
      exact ⟨plain, front, back, whole, by rwa [Int.zero_add] at zero⟩
    induction ts with
    | nil => exact fun _ found => nomatch found
    | cons u us ih =>
      intro depth found
      rw [outside_cons, List.mem_append] at found
      rcases found with here | later
      · split at here
        case isTrue outer =>
          obtain rfl := List.mem_singleton.mp here
          exact ⟨outer.1, [], us, rfl, by simp [outer.2]⟩
        case isFalse => cases here
      · obtain ⟨plain, front, back, rfl, zero⟩ := ih _ later
        exact ⟨plain, u :: front, back, rfl, by rw [level_cons]; omega⟩
  · rintro ⟨plain, front, back, rfl, zero⟩
    rw [outside_append, zero, Int.zero_add, outside_cons, if_pos ⟨plain, rfl⟩]
    simp

/-- Inside an open group nothing stands outside. -/
theorem outside_eq_nil {depth : Int} {ts : List Token}
    (h : ∀ front, front <+: ts → 0 < depth + level front) :
    outside depth ts = [] := by
  induction ts generalizing depth with
  | nil => rfl
  | cons t ts ih =>
    have here : depth ≠ 0 := by
      have := h [] List.nil_prefix
      rw [level_nil] at this
      omega
    rw [outside_cons, if_neg fun outer => here outer.2, List.nil_append]
    refine ih fun front inside => ?_
    have := h (t :: front) ((List.prefix_cons_inj t).mpr inside)
    rwa [level_cons, ← Int.add_assoc] at this

/-- A group can be passed over, whatever is inside it. -/
theorem outside_group {depth : Int} (outer : 0 ≤ depth)
    {l r : Token} {inside : List Token}
    (opens : opensGroup l.kind = true) (grouped : Grouped inside)
    (closes : closesGroup r.kind = true) (back : List Token) :
    outside depth (l :: inside ++ r :: back) = outside depth back := by
  have first : grouping l.kind = 1 := by simp [grouping, opens]
  have last : grouping r.kind = -1 := by
    cases kind : r.kind <;> simp_all [grouping, opensGroup, closesGroup]
  have hidden : outside (depth + 1) inside = [] := by
    refine outside_eq_nil fun front inside => ?_
    have := grouped.opened front inside
    omega
  have closed : depth + 1 + 0 + -1 = depth := by omega
  rw [List.cons_append, outside_cons, first, outside_append, hidden,
    grouped.closed, outside_cons, last, closed]
  simp

/-! ## Tokens of a spelling -/

/-- The tokens are those of the spelling, wherever they stand. -/
def HasTokens (spelling : Text) (ts : List Token) : Prop :=
  (Token.scanBody "<type>" spelling).map Token.lexeme = ts.map Token.lexeme

theorem outside_relocate (g : Location → Location)
    (depth : Int) (ts : List Token) :
    outside depth (ts.map (Token.relocate g)) =
      (outside depth ts).map (Token.relocate g) := by
  induction ts generalizing depth with
  | nil => rfl
  | cons t ts ih =>
    rw [List.map_cons, outside_cons, outside_cons, ih, List.map_append,
      Token.kind_relocate]
    split <;> rfl

/-- The verdict on a type is one on its tokens outside of groups, aliases
apart. -/
theorem isNonClass_of_tokens {spelling : Text}
    {ts : List Token} (h : HasTokens spelling ts) :
    isNonClass spelling =
      ((outside 0 ts).any isModifier || (outside 0 ts).all isFundamental ||
        isAlias spelling) := by
  have moved := congrArg (outside 0) (Token.map_relocate_eq default h)
  rw [outside_relocate, outside_relocate] at moved
  have modified := congrArg (List.any · isModifier) moved
  have fundamental := congrArg (List.all · isFundamental) moved
  simp only [List.any_map, List.all_map] at modified fundamental
  unfold isNonClass
  exact congrArg₂ (fun a b => a || b || isAlias spelling) modified fundamental

/-! ## Aliases -/

/-- The standard aliases, with and without `::` and then `std::` in front. -/
def aliasSpellings : List Text :=
  ([[], "::"] : List Text).flatMap
    fun colons => ([[], "std::"] : List Text).flatMap
        fun scope => fundamentalAliases.map fun name => colons ++ scope ++ name

/-- What may be dropped was there or not. -/
theorem exists_eq_append_dropHead (head s : Text) :
    ∃ first ∈ [[], head], s = first ++ Text.dropHead head s := by
  unfold Text.dropHead
  split
  case isTrue starts =>
    exact ⟨head, by simp, List.prefix_iff_eq_append.mp
        (List.isPrefixOf_iff_prefix.mp starts) |>.symm⟩
  case isFalse => exact ⟨[], by simp, rfl⟩

theorem isAlias_iff (spelling : Text) :
    isAlias spelling = true ↔ spelling ∈ aliasSpellings := by
  constructor
  · intro named
    obtain ⟨colons, optional, front⟩ :=
      exists_eq_append_dropHead "::" spelling
    obtain ⟨scope, optional', behind⟩ :=
      exists_eq_append_dropHead "std::" (Text.dropHead "::" spelling)
    have listed :
        Text.dropHead "std::" (Text.dropHead "::" spelling) ∈
          fundamentalAliases := by
      simpa [isAlias] using named
    simp only [aliasSpellings, List.mem_flatMap, List.mem_map]
    refine ⟨colons, optional, scope, optional', _, listed, ?_⟩
    rw [List.append_assoc, ← behind, ← front]
  · have all : ∀ s ∈ aliasSpellings, isAlias s = true := by decide +kernel
    exact all spelling

/-- An alias has no groups. -/
theorem not_opens_of_isAlias {spelling : Text} {ts : List Token}
    (tokens : HasTokens spelling ts) (named : isAlias spelling = true) :
    ∀ t ∈ ts, opensGroup t.kind = false := by
  have all :
      ∀ s ∈ aliasSpellings,
        ∀ k ∈ (Token.scanBody "<type>" s).map Token.lexeme,
          opensGroup k.1 = false := by
    decide +kernel
  intro t inside
  have lexeme :
      t.lexeme ∈ (Token.scanBody "<type>" spelling).map Token.lexeme := by
    rw [tokens]
    exact List.mem_map_of_mem inside
  exact all spelling ((isAlias_iff spelling).mp named) _ lexeme

/-! ## Names -/

/-- `(< tokens in groups >)*` -/
inductive Arguments : List Token → Prop
  | nil : Arguments []
  | cons {l r : Token} {inside rest : List Token} :
      l.kind = .less → Grouped inside → r.kind = .greater → Arguments rest →
      Arguments (l :: inside ++ r :: rest)

/-- `Identifier arguments (:: Identifier arguments)*` -/
inductive Path : List Token → Prop
  | last {name : Token} {arguments : List Token} :
      name.kind = .identifier → Arguments arguments → Path (name :: arguments)
  | cons {name colons : Token} {arguments rest : List Token} :
      name.kind = .identifier → Arguments arguments → colons.kind = .scope →
      Path rest → Path (name :: arguments ++ colons :: rest)

/-- `[::] path` -/
inductive QualifiedPath : List Token → Prop
  | relative {path : List Token} : Path path → QualifiedPath path
  | absolute {colons : Token} {path : List Token} :
      colons.kind = .scope → Path path → QualifiedPath (colons :: path)

theorem outside_arguments {arguments : List Token} (h : Arguments arguments)
    (back : List Token) : outside 0 (arguments ++ back) = outside 0 back := by
  induction h with
  | nil => rfl
  | @cons l r inside rest opens grouped closes _ ih =>
    have start : opensGroup l.kind = true := by rw [opens]; rfl
    have stop : closesGroup r.kind = true := by rw [closes]; rfl
    rw [List.append_assoc]
    exact (outside_group (Int.le_refl 0) start grouped stop
        (rest ++ back)).trans ih

theorem outside_plain {t : Token} (plain : grouping t.kind = 0)
    (ts : List Token) : outside 0 (t :: ts) = t :: outside 0 ts := by
  rw [outside_cons, if_pos ⟨plain, rfl⟩, plain]
  rfl

/-- Outside of its arguments a name has words and `::` only. -/
theorem kind_of_mem_outside_path {ts : List Token} (h : Path ts) :
    ∀ t ∈ outside 0 ts, t.kind = .identifier ∨ t.kind = .scope := by
  induction h with
  | @last name arguments word groups =>
    have plain : grouping name.kind = 0 := by rw [word]; rfl
    have behind := outside_arguments groups []
    rw [List.append_nil] at behind
    rw [outside_plain plain, behind]
    simp [outside, word]
  | @cons name colons arguments rest word groups scope _ ih =>
    have plain : grouping name.kind = 0 := by rw [word]; rfl
    have plain' : grouping colons.kind = 0 := by rw [scope]; rfl
    rw [List.cons_append, outside_plain plain, outside_arguments groups,
      outside_plain plain']
    simpa [word, scope] using ih

theorem kind_of_mem_outside {ts : List Token} (h : QualifiedPath ts) :
    ∀ t ∈ outside 0 ts, t.kind = .identifier ∨ t.kind = .scope := by
  cases h with
  | relative path => exact kind_of_mem_outside_path path
  | @absolute colons path scope rest =>
    have plain : grouping colons.kind = 0 := by rw [scope]; rfl
    rw [outside_plain plain]
    simpa [scope] using kind_of_mem_outside_path rest

/-! ## The verdict -/

/-- What is inside a group has no say. -/
theorem isNonClass_group {spelling other : Text}
    {front inside inside' back : List Token} {l r : Token}
    (tokens : HasTokens spelling (front ++ l :: inside ++ r :: back))
    (tokens' : HasTokens other (front ++ l :: inside' ++ r :: back))
    (outer : 0 ≤ level front) (opens : opensGroup l.kind = true)
    (closes : closesGroup r.kind = true) (grouped : Grouped inside)
    (grouped' : Grouped inside') : isNonClass other = isNonClass spelling := by
  have noAlias {s : Text} {inside : List Token}
      (h : HasTokens s (front ++ l :: inside ++ r :: back)) :
      isAlias s = false := by
    rw [Bool.eq_false_iff]
    intro named
    have := not_opens_of_isAlias h named l (by simp)
    rw [opens] at this
    cases this
  have passed {inside : List Token} (h : Grouped inside) :
      outside 0 (front ++ l :: inside ++ r :: back) =
        outside 0 front ++ outside (level front) back := by
    rw [List.append_assoc, outside_append, Int.zero_add,
      outside_group outer opens h closes]
  rw [isNonClass_of_tokens tokens, isNonClass_of_tokens tokens',
    noAlias tokens, noAlias tokens', passed grouped, passed grouped']

theorem isNonClass_of_modifier {spelling : Text} {ts : List Token}
    (tokens : HasTokens spelling ts) {t : Token} (outer : StandsOutside t ts)
    (modifier : t.kind ∈ [.star, .amp, .lbracket] ∨
      t.isWord "const" = true ∨ t.isWord "volatile" = true) :
    isNonClass spelling = true := by
  have plain : grouping t.kind = 0 := by
    rcases modifier with mark | const | volatile
    · simp only [List.mem_cons, List.not_mem_nil, or_false] at mark
      rcases mark with kind | kind | kind <;> rw [kind] <;> rfl
    · rw [Token.kind_of_isWord const]; rfl
    · rw [Token.kind_of_isWord volatile]; rfl
  have modifies : isModifier t = true := by
    simpa [isModifier, or_assoc] using modifier
  have found : (outside 0 ts).any isModifier = true :=
    List.any_eq_true.mpr ⟨t, mem_outside_iff.mpr ⟨plain, outer⟩, modifies⟩
  rw [isNonClass_of_tokens tokens, found]
  rfl

theorem isNonClass_of_path {spelling : Text} {ts : List Token}
    (tokens : HasTokens spelling ts) (path : QualifiedPath ts)
    (unqualified : ∀ t, StandsOutside t ts →
        t.isWord "const" = false ∧ t.isWord "volatile" = false)
    (own : ∃ t, StandsOutside t ts ∧
        (t.kind = .scope ∨ t.kind = .identifier ∧ t.text ∉ fundamentalNames))
    (noAlias : spelling ∉ aliasSpellings) : isNonClass spelling = false := by
  have modified : (outside 0 ts).any isModifier = false := by
    rw [List.any_eq_false]
    intro t found
    obtain ⟨const, volatile⟩ := unqualified t (mem_outside_iff.mp found).2
    rcases kind_of_mem_outside path t found with kind | kind <;>
        simp [isModifier, kind, const, volatile]
  have fundamental : (outside 0 ts).all isFundamental = false := by
    obtain ⟨t, outer, kind⟩ := own
    rw [List.all_eq_false]
    refine ⟨t, mem_outside_iff.mpr ⟨?_, outer⟩, ?_⟩
    · rcases kind with scope | ⟨word, -⟩
      · rw [scope]; rfl
      · rw [word]; rfl
    · rcases kind with scope | ⟨-, other⟩
      · simp [isFundamental, scope]
      · simp [isFundamental, other]
  have named : isAlias spelling = false := by
    rw [Bool.eq_false_iff, ne_eq, isAlias_iff]
    exact noAlias
  rw [isNonClass_of_tokens tokens, modified, fundamental, named]
  rfl

/-- Whether a type with all its groups closed surely is no class is settled by
what stands outside of them: what is inside a group can be replaced, pointers,
references, arrays and qualified types are no classes, and a name is one
unless it has only words for arithmetic types, or is a standard alias. -/
theorem nonClass_settled_outside {spelling : Text} {ts : List Token}
    (tokens : HasTokens spelling ts) (grouped : Grouped ts) :
    (∀ front l inside r back, ts = front ++ l :: inside ++ r :: back →
        opensGroup l.kind = true → closesGroup r.kind = true → Grouped inside →
        ∀ inside', Grouped inside' →
          ∀ other, HasTokens other (front ++ l :: inside' ++ r :: back) →
            isNonClass other = isNonClass spelling) ∧
    ((∃ t, StandsOutside t ts ∧ (t.kind ∈ [.star, .amp, .lbracket] ∨
            t.isWord "const" = true ∨ t.isWord "volatile" = true)) →
      isNonClass spelling = true) ∧
    (QualifiedPath ts → (∀ t, StandsOutside t ts →
          t.isWord "const" = false ∧ t.isWord "volatile" = false) →
      (∃ t, StandsOutside t ts ∧ (t.kind = .scope ∨
            t.kind = .identifier ∧ t.text ∉ fundamentalNames)) →
      spelling ∉ aliasSpellings → isNonClass spelling = false) := by
  refine ⟨?_, ?_, ?_⟩
  · rintro front l inside r back rfl opens closes inner inside' inner'
      other tokens'
    have outer : 0 ≤ level front := grouped.opened front (by simp)
    exact isNonClass_group tokens tokens' outer opens closes inner inner'
  · rintro ⟨t, outer, modifier⟩
    exact isNonClass_of_modifier tokens outer modifier
  · exact isNonClass_of_path tokens

/-- The tokens of `std::map`. -/
def mapName : List Token :=
  [⟨.identifier, "std", {}⟩, ⟨.scope, "::", {}⟩, ⟨.identifier, "map", {}⟩]

/-- The tokens, in angle brackets behind the name. -/
def mapOf (arguments : List Token) : List Token :=
  mapName ++ ⟨.less, "<", {}⟩ :: arguments ++ [⟨.greater, ">", {}⟩]

/-- The tokens of `int*, A<b>`. -/
def pointerAndClass : List Token :=
  [⟨.identifier, "int", {}⟩, ⟨.star, "*", {}⟩, ⟨.comma, ",", {}⟩,
    ⟨.identifier, "A", {}⟩, ⟨.less, "<", {}⟩, ⟨.identifier, "b", {}⟩,
    ⟨.greater, ">", {}⟩]

/-- The tokens of `const c&`. -/
def constReference : List Token :=
  [⟨.identifier, "const", {}⟩, ⟨.identifier, "c", {}⟩, ⟨.amp, "&", {}⟩]

theorem nonClass_settled_outside_map :
    (HasTokens "std::map<int*, A<b>>" (mapOf pointerAndClass) ∧
      Grouped (mapOf pointerAndClass) ∧
      isNonClass "std::map<int*, A<b>>" = false) ∧
    (HasTokens "std::map<const c&>" (mapOf constReference) ∧
      isNonClass "std::map<const c&>" = false) ∧
    HasTokens "const c&" constReference ∧ Grouped constReference ∧
    isNonClass "const c&" = true := by
  have tokens :
      HasTokens "std::map<int*, A<b>>" (mapOf pointerAndClass) ∧
      HasTokens "std::map<const c&>" (mapOf constReference) ∧
      HasTokens "const c&" constReference := by
    unfold HasTokens
    decide +kernel
  have grouped :
      Grouped (mapOf pointerAndClass) ∧ Grouped pointerAndClass ∧
      Grouped constReference := by
    decide
  obtain ⟨replaced, -, named⟩ := nonClass_settled_outside tokens.1 grouped.1
  have arguments :
      Arguments
        (⟨.less, "<", {}⟩ :: pointerAndClass ++ [⟨.greater, ">", {}⟩]) :=
    .cons rfl grouped.2.1 rfl .nil
  have path : Path (mapOf pointerAndClass) :=
    @Path.cons ⟨.identifier, "std", {}⟩ ⟨.scope, "::", {}⟩ [] _ rfl .nil rfl
      (@Path.last ⟨.identifier, "map", {}⟩ _ rfl arguments)
  have words :
      ∀ t ∈ mapOf pointerAndClass,
        t.isWord "const" = false ∧ t.isWord "volatile" = false := by
    decide
  have verdict : isNonClass "std::map<int*, A<b>>" = false := by
    refine named (.relative path) ?_ ?_ (by decide +kernel)
    · rintro t ⟨front, back, whole, -⟩
      exact words t (by rw [whole]; simp)
    · exact ⟨⟨.scope, "::", {}⟩, ⟨[⟨.identifier, "std", {}⟩], _, rfl, rfl⟩,
        .inl rfl⟩
  have same :=
    replaced mapName _ pointerAndClass _ [] rfl rfl rfl grouped.2.1
      constReference grouped.2.2 _ tokens.2.1
  obtain ⟨-, modified, -⟩ := nonClass_settled_outside tokens.2.2 grouped.2.2
  exact ⟨⟨tokens.1, grouped.1, verdict⟩, ⟨tokens.2.1, same.trans verdict⟩,
    tokens.2.2, grouped.2.2, modified ⟨⟨.amp, "&", {}⟩,
      ⟨[⟨.identifier, "const", {}⟩, ⟨.identifier, "c", {}⟩], [], rfl, rfl⟩,
      .inl (by decide)⟩⟩

end TypeSpelling
end MirrorAdapter
