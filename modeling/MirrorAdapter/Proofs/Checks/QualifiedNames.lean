import MirrorAdapter.Directive.Parser
import MirrorAdapter.Proofs.Grammar.Brackets
import Mathlib.Data.List.Basic

/-!
# Names of getters

A getter is named by a qualified name, whose components may have template
arguments. The check of such a name looks at brackets in two ways: all of them
have to match in number, and angle brackets alone tell where template
arguments end. Where brackets match shape by shape this recognizes qualified
names and nothing else.
-/
namespace MirrorAdapter
namespace Grammar

/-! ## Qualified names -/

/-- `(< tokens with matching brackets >)*` -/
inductive TemplateArguments : List Token → Prop
  | nil : TemplateArguments []
  | cons {l r : Token} {inside rest : List Token} :
      l.kind = .less → Nested allShapes inside → r.kind = .greater →
      TemplateArguments rest → TemplateArguments (l :: inside ++ r :: rest)

/-- The further components of a name, each behind the template arguments of
the one before it. -/
inductive NameTail : List Token → Prop
  | nil : NameTail []
  | cons {arguments rest : List Token} {colons name : Token} :
      TemplateArguments arguments → colons.kind = .scope →
      name.kind = .identifier → NameTail rest →
      NameTail (arguments ++ colons :: name :: rest)

/-- `[::] Identifier (arguments :: Identifier)*` with at least one `::` -/
inductive QualifiedName : List Token → Prop
  | absolute {colons name : Token} {rest : List Token} :
      colons.kind = .scope → name.kind = .identifier → NameTail rest →
      QualifiedName (colons :: name :: rest)
  | relative {name : Token} {rest : List Token} :
      name.kind = .identifier → NameTail rest → rest ≠ [] →
      QualifiedName (name :: rest)

theorem TemplateArguments.append {a b : List Token} (ha : TemplateArguments a)
    (hb : TemplateArguments b) : TemplateArguments (a ++ b) := by
  induction ha with
  | nil => exact hb
  | cons opens nested closes _ ih =>
    simpa using TemplateArguments.cons opens nested closes ih

theorem TemplateArguments.nested {arguments : List Token}
    (h : TemplateArguments arguments) : Nested allShapes arguments := by
  induction h with
  | nil => exact .nil
  | cons opens nested closes _ ih =>
    exact .group (by simp [allShapes, opens, closes]) nested ih

/-! ## Names by number of brackets -/

/-- The shape of template arguments. -/
def angles : List (Token.Kind × Token.Kind) := [(.less, .greater)]

/-- None of the tokens closes an angle bracket that is open in front of
them. -/
def StaysOpen (tokens : List Token) : Prop :=
  ∀ inside r rest,
    tokens = inside ++ r :: rest → Nested angles inside → r.kind ≠ .greater

/-- What is read behind a component of a name when angle brackets alone are
paired, and whether a `::` stands outside of them. Template arguments that are
not closed go on to the end. -/
inductive CountedTail : Bool → List Token → Prop
  | nil : CountedTail false []
  | arguments {qualified : Bool} {l r : Token} {inside rest : List Token} :
      l.kind = .less → Nested angles inside →
      r.kind = .greater → CountedTail qualified rest →
      CountedTail qualified (l :: inside ++ r :: rest)
  | unclosed {l : Token} {rest : List Token} :
      l.kind = .less → StaysOpen rest → CountedTail false (l :: rest)
  | component {qualified : Bool} {colons name : Token} {rest : List Token} :
      colons.kind = .scope → name.kind = .identifier →
      CountedTail qualified rest → CountedTail true (colons :: name :: rest)

/-- The components of a name with at least one `::` outside template
arguments. -/
inductive CountedPath : List Token → Prop
  | absolute {qualified : Bool} {colons name : Token} {rest : List Token} :
      colons.kind = .scope → name.kind = .identifier →
      CountedTail qualified rest → CountedPath (colons :: name :: rest)
  | relative {name : Token} {rest : List Token} :
      name.kind = .identifier → CountedTail true rest →
      CountedPath (name :: rest)

/-- The names that are accepted: brackets match in number, whatever their
shapes, and the last token is a word. -/
structure CountedName (tokens : List Token) : Prop where
  matched : Matched tokens
  ends : ∃ t, tokens.getLast? = some t ∧ t.kind = .identifier
  path : CountedPath tokens

end Grammar

namespace Directive

open Grammar (Nested allShapes angles Closing TemplateArguments NameTail
    QualifiedName StaysOpen CountedTail CountedPath CountedName)

/-! ## One token -/

section
variable {t : Token} (ts : List Token)

theorem namePath_name (name : t.kind = .identifier) :
    namePath 0 true (t :: ts) = namePath 0 false ts := by
  obtain ⟨_, text, location⟩ := t
  cases name
  rfl

theorem namePath_scope (colons : t.kind = .scope) :
    namePath 0 false (t :: ts) = namePath 0 true ts := by
  obtain ⟨_, text, location⟩ := t
  cases colons
  rfl

theorem namePath_less (opens : t.kind = .less) :
    namePath 0 false (t :: ts) = namePath 1 false ts := by
  obtain ⟨_, text, location⟩ := t
  cases opens
  rfl

theorem kind_of_namePath (h : namePath 0 false (t :: ts) = true) :
    t.kind = .scope ∨ t.kind = .less := by
  obtain ⟨kind, text, location⟩ := t
  cases kind <;> first | exact .inl rfl | exact .inr rfl | nomatch h

theorem hasScope_scope (colons : t.kind = .scope) :
    hasScope 0 (t :: ts) = true := by
  obtain ⟨_, text, location⟩ := t
  cases colons
  rfl

theorem hasScope_less (depth : Nat) (opens : t.kind = .less) :
    hasScope depth (t :: ts) = hasScope (depth + 1) ts := by
  obtain ⟨_, text, location⟩ := t
  cases opens
  rfl

theorem hasScope_name (name : t.kind = .identifier) :
    hasScope 0 (t :: ts) = hasScope 0 ts := by
  obtain ⟨_, text, location⟩ := t
  cases name
  rfl

/-- Inside template arguments no token but an angle bracket counts. -/
theorem path_inside (depth : Nat) (expectName : Bool)
    (notOpens : t.kind ≠ .less) (notCloses : t.kind ≠ .greater) :
    namePath (depth + 1) expectName (t :: ts) =
      namePath (depth + 1) expectName ts ∧
    hasScope (depth + 1) (t :: ts) = hasScope (depth + 1) ts := by
  obtain ⟨kind, text, location⟩ := t
  cases kind <;> first | exact ⟨rfl, rfl⟩ | exact absurd rfl notOpens |
    exact absurd rfl notCloses

end

/-- What follows `::` is a name. -/
theorem namePath_true_iff (ts : List Token) :
    namePath 0 true ts = true ↔ ∃ name rest, ts = name :: rest ∧
        name.kind = .identifier ∧ namePath 0 false rest = true := by
  cases ts with
  | nil => simp [namePath]
  | cons t ts =>
    constructor
    · intro path
      obtain ⟨word, path⟩ :
          t.kind = .identifier ∧ namePath 0 false ts = true := by
        simpa [namePath] using path
      exact ⟨t, ts, rfl, word, path⟩
    · rintro ⟨_, _, ⟨⟩, word, path⟩
      rwa [namePath_name _ word]

/-! ## Template arguments -/

theorem path_nested {inside : List Token} (h : Nested angles inside)
    (depth : Nat) (expectName : Bool) (rest : List Token) :
    namePath (depth + 1) expectName (inside ++ rest) =
      namePath (depth + 1) expectName rest ∧
    hasScope (depth + 1) (inside ++ rest) = hasScope (depth + 1) rest := by
  induction h generalizing depth rest with
  | nil => exact ⟨rfl, rfl⟩
  | @token t more plain _ ih =>
    simp only [angles, List.mem_singleton, forall_eq] at plain
    have skipped :=
      path_inside (more ++ rest) depth expectName plain.1 plain.2
    rw [List.cons_append, skipped.1, skipped.2]
    exact ih depth rest
  | group shape _ _ inner outer =>
    simp only [angles, List.mem_singleton, Prod.mk.injEq] at shape
    simp [namePath, hasScope, shape.1, shape.2, inner, outer]

/-- Template arguments are passed as a whole. -/
theorem path_group {l r : Token} {inside : List Token}
    (opens : l.kind = .less) (nested : Nested angles inside)
    (closes : r.kind = .greater) (rest : List Token) :
    namePath 0 false (l :: inside ++ r :: rest) = namePath 0 false rest ∧
    hasScope 0 (l :: inside ++ r :: rest) = hasScope 0 rest := by
  obtain ⟨path, scope⟩ := path_nested nested 0 false (r :: rest)
  rw [List.cons_append, namePath_less _ opens, hasScope_less _ _ opens,
    path, scope]
  simp [namePath, hasScope, closes]

/-- Inside open angle brackets the check ends, or a `::` counts, only behind
tokens that close all of them. -/
theorem closing_of_surfaces (depth : Nat) {ts : List Token}
    (surfaces :
      namePath (depth + 1) false ts = false ∨ hasScope (depth + 1) ts = true) :
    ∃ inside r rest, ts = inside ++ r :: rest ∧
      Closing (Nested angles) .greater depth inside ∧ r.kind = .greater := by
  induction ts generalizing depth with
  | nil => simp [namePath, hasScope] at surfaces
  | cons t ts ih =>
    by_cases opens : t.kind = .less
    · have inner :
          namePath (depth + 1 + 1) false ts = false ∨
          hasScope (depth + 1 + 1) ts = true := by
        simpa [namePath, hasScope, opens] using surfaces
      obtain ⟨inside, r, rest, rfl, closing, closes⟩ := ih (depth + 1) inner
      -- the bracket opened here is closed at the end of the first stretch
      obtain ⟨first, d, others, rfl, nested, closer, tail⟩ := closing.succ
      refine ⟨t :: first ++ d :: others, r, rest, by simp, ?_, closes⟩
      have pair : (t.kind, d.kind) ∈ angles := by simp [angles, opens, closer]
      simpa using tail.prepend (t :: first ++ [d])
          fun more good => by simpa using Nested.group pair nested good
    · by_cases closes : t.kind = .greater
      · cases depth with
        | zero => exact ⟨[], t, ts, rfl, .last .nil, closes⟩
        | succ depth =>
          have outer :
              namePath (depth + 1) false ts = false ∨
              hasScope (depth + 1) ts = true := by
            simpa [namePath, hasScope, closes] using surfaces
          obtain ⟨inside, r, rest, rfl, closing, last⟩ := ih depth outer
          exact ⟨t :: inside, r, rest, rfl, .close .nil closes closing, last⟩
      · have skipped := path_inside ts depth false opens closes
        rw [skipped.1, skipped.2] at surfaces
        obtain ⟨inside, r, rest, rfl, closing, last⟩ := ih depth surfaces
        refine ⟨t :: inside, r, rest, rfl, ?_, last⟩
        exact closing.prepend [t]
          fun more good => .token (by simp [angles, opens, closes]) good

theorem path_of_staysOpen {ts : List Token} (h : StaysOpen ts) :
    namePath 1 false ts = true ∧ hasScope 1 ts = false := by
  by_contra surfaces
  have surfaces :
      namePath (0 + 1) false ts = false ∨ hasScope (0 + 1) ts = true := by
    by_cases path : namePath (0 + 1) false ts = true <;> simp_all
  obtain ⟨inside, r, rest, whole, closing, closes⟩ :=
    closing_of_surfaces 0 surfaces
  cases closing with
  | last nested => exact h inside r rest whole nested closes

/-! ## What is accepted -/

theorem countedTail_iff (qualified : Bool) (ts : List Token) :
    CountedTail qualified ts ↔
      namePath 0 false ts = true ∧ hasScope 0 ts = qualified := by
  constructor
  · intro h
    induction h with
    | nil => exact ⟨rfl, rfl⟩
    | arguments opens nested closes _ ih =>
      rw [(path_group opens nested closes _).1,
        (path_group opens nested closes _).2]
      exact ih
    | unclosed opens stays =>
      rw [namePath_less _ opens, hasScope_less _ _ opens]
      exact path_of_staysOpen stays
    | component colons name _ ih =>
      rw [namePath_scope _ colons, namePath_name _ name,
        hasScope_scope _ colons]
      exact ⟨ih.1, rfl⟩
  · rintro ⟨path, rfl⟩
    -- template arguments are taken off as a whole, so the induction is on the
    -- length
    induction length : ts.length using Nat.strongRecOn generalizing ts with
    | ind n ih =>
      subst length
      cases ts with
      | nil => exact .nil
      | cons t ts =>
        rcases kind_of_namePath ts path with colons | opens
        · rw [namePath_scope _ colons, namePath_true_iff] at path
          obtain ⟨name, rest, rfl, word, path⟩ := path
          rw [hasScope_scope _ colons]
          exact .component colons word (ih rest.length
              (by simp only [List.length_cons]; omega) rest path rfl)
        · by_cases closed : ∃ inside r rest, ts = inside ++ r :: rest ∧
              Nested angles inside ∧ r.kind = .greater
          · obtain ⟨inside, r, rest, rfl, nested, closes⟩ := closed
            obtain ⟨same, scope⟩ := path_group opens nested closes rest
            rw [← List.cons_append] at path ⊢
            rw [same] at path
            rw [scope]
            refine .arguments opens nested closes
              (ih rest.length ?_ rest path rfl)
            simp only [List.length_cons, List.length_append]
            omega
          · have stays : StaysOpen ts :=
              fun inside r rest whole nested closes =>
              closed ⟨inside, r, rest, whole, nested, closes⟩
            rw [hasScope_less _ _ opens, (path_of_staysOpen stays).2]
            exact .unclosed opens stays

theorem countedPath_iff (tokens : List Token) :
    CountedPath tokens ↔
      namePath 0 true
        (if Token.startsWith .scope tokens then tokens.tail else tokens) =
        true ∧ hasScope 0 tokens = true := by
  cases tokens with
  | nil =>
    constructor
    · rintro ⟨⟩
    · rintro ⟨path, -⟩
      cases path
  | cons t ts =>
    by_cases colons : t.kind = .scope
    · have starts : Token.startsWith .scope (t :: ts) = true := by
        simp [Token.startsWith, colons]
      rw [if_pos starts, List.tail_cons, hasScope_scope _ colons,
        namePath_true_iff]
      constructor
      · rintro (⟨-, word, tail⟩ | ⟨word, -⟩)
        · exact ⟨⟨_, _, rfl, word, ((countedTail_iff _ _).mp tail).1⟩, rfl⟩
        · rw [word] at colons
          cases colons
      · rintro ⟨⟨name, rest, rfl, word, path⟩, -⟩
        exact .absolute colons word ((countedTail_iff _ _).mpr ⟨path, rfl⟩)
    · have starts : ¬Token.startsWith .scope (t :: ts) = true := by
        simp [Token.startsWith, colons]
      rw [if_neg starts, namePath_true_iff]
      constructor
      · rintro (⟨scope, -, -⟩ | ⟨word, tail⟩)
        · exact absurd scope colons
        · rw [countedTail_iff] at tail
          exact ⟨⟨_, _, rfl, word, tail.1⟩,
            by rw [hasScope_name _ word, tail.2]⟩
      · rintro ⟨⟨_, _, ⟨⟩, word, path⟩, scope⟩
        rw [hasScope_name _ word] at scope
        exact .relative word ((countedTail_iff _ _).mpr ⟨path, scope⟩)

theorem isQualifiedName_iff (tokens : List Token) :
    isQualifiedName tokens = true ↔ CountedName tokens := by
  unfold isQualifiedName
  extract_lets endsInName afterScope
  have ends :
      endsInName = true ↔
        ∃ t, tokens.getLast? = some t ∧ t.kind = .identifier := by
    simp only [endsInName]
    cases tokens.getLast? <;> simp
  rw [Bool.and_assoc, Bool.and_eq_true, Bool.and_eq_true, Bool.and_eq_true,
    ends, Grammar.balanced_iff, ← countedPath_iff]
  exact ⟨fun h => ⟨h.1.2, h.1.1, h.2⟩, fun h => ⟨⟨h.ends, h.matched⟩, h.path⟩⟩

/-! ## Names whose brackets match shape by shape -/

theorem path_arguments {arguments : List Token}
    (h : TemplateArguments arguments) (rest : List Token) :
    namePath 0 false (arguments ++ rest) = namePath 0 false rest ∧
    hasScope 0 (arguments ++ rest) = hasScope 0 rest := by
  induction h with
  | nil => exact ⟨rfl, rfl⟩
  | @cons l r inside others opens nested closes _ ih =>
    obtain ⟨path, scope⟩ :=
      path_group opens (Grammar.nested_of_mem (by decide) nested) closes
        (others ++ rest)
    have whole :
        l :: inside ++ r :: others ++ rest =
          l :: inside ++ r :: (others ++ rest) := by
      simp
    rw [whole, path, scope]
    exact ih

/-- What stands behind the first component of a qualified name. -/
theorem of_nameTail {tail : List Token} (h : NameTail tail) :
    namePath 0 false tail = true ∧ (tail ≠ [] → hasScope 0 tail = true) ∧
    Nested allShapes tail ∧ ∀ t ∈ tail.getLast?, t.kind = .identifier := by
  induction h with
  | nil => exact ⟨rfl, fun empty => absurd rfl empty, .nil, by simp⟩
  | @cons arguments rest colons name given scope word _ ih =>
    obtain ⟨path, -, nested, last⟩ := ih
    obtain ⟨samePath, sameScope⟩ :=
      path_arguments given (colons :: name :: rest)
    refine ⟨?_, fun _ => ?_, ?_, ?_⟩
    · rwa [samePath, namePath_scope _ scope, namePath_name _ word]
    · rw [sameScope, hasScope_scope _ scope]
    · exact Grammar.nested_append given.nested
        (.token (by simp [allShapes, scope])
          (.token (by simp [allShapes, word]) nested))
    · intro t found
      cases rest with
      | nil =>
        obtain rfl : name = t := by simpa using found
        exact word
      | cons u rest => exact last t (by simpa using found)

/-- Where brackets match shape by shape, and the last token is a word, all
that is accepted behind a name are further components. Template arguments that
have been passed already belong to the name before them. -/
theorem nameTail_of_namePath {tokens : List Token}
    (nested : Nested allShapes tokens)
    (ends : ∀ t ∈ tokens.getLast?, t.kind = .identifier) :
    (namePath 0 true tokens = true → ∃ name rest,
        tokens = name :: rest ∧ name.kind = .identifier ∧ NameTail rest) ∧
    (namePath 0 false tokens = true → ∀ arguments, TemplateArguments arguments →
        (tokens = [] → arguments = []) → NameTail (arguments ++ tokens)) := by
  induction nested with
  | nil =>
    refine ⟨fun path => by simp [namePath] at path,
      fun _ arguments _ empty => ?_⟩
    rw [empty rfl]
    exact .nil
  | @token t rest plain _ ih =>
    obtain ⟨component, tail⟩ :=
      ih fun u found => ends u (by cases rest <;> simp_all)
    constructor
    · intro path
      obtain ⟨_, _, ⟨⟩, word, path⟩ := (namePath_true_iff _).mp path
      exact ⟨t, rest, rfl, word, tail path [] .nil fun _ => rfl⟩
    · intro path arguments given _
      rcases kind_of_namePath rest path with colons | opens
      · rw [namePath_scope _ colons] at path
        obtain ⟨name, more, rfl, word, others⟩ := component path
        exact .cons given colons word others
      · exact absurd opens (plain (.less, .greater) (by decide)).1
  | @group l r inside rest shape nested _ _ ih =>
    constructor
    · intro path
      obtain ⟨_, _, ⟨⟩, word, -⟩ := (namePath_true_iff _).mp path
      simp [allShapes, word] at shape
    · intro path arguments given _
      rcases kind_of_namePath _ path with colons | opens
      · simp [allShapes, colons] at shape
      · have closes : r.kind = .greater := by
          simpa [allShapes, opens] using shape
        rw [(path_group opens
              (Grammar.nested_of_mem (by decide) nested) closes rest).1]
          at path
        rw [List.getLast?_append_of_ne_nil _ (List.cons_ne_nil r rest)] at ends
        have last : ∀ t ∈ rest.getLast?, t.kind = .identifier :=
          fun t found => ends t (by cases rest <;> simp_all)
        have noEnd : rest ≠ [] := by
          rintro rfl
          have word := ends r rfl
          simp [closes] at word
        have passed : TemplateArguments (arguments ++ (l :: inside ++ [r])) :=
          given.append (.cons opens nested closes .nil)
        simpa using (ih last).2 path _ passed fun empty => absurd empty noEnd

theorem endsInName {name : Token} {rest : List Token}
    (word : name.kind = .identifier)
    (last : ∀ t ∈ rest.getLast?, t.kind = .identifier) :
    (rest.getLast?.getD name).kind = .identifier := by
  cases found : rest.getLast? with
  | none => exact word
  | some t => exact last t found

/-- Qualified names are accepted, and nothing else is whose brackets match
shape by shape. -/
theorem qualifiedName_iff (tokens : List Token) :
    QualifiedName tokens ↔
      isQualifiedName tokens = true ∧ Nested allShapes tokens := by
  rw [isQualifiedName_iff]
  constructor
  · intro h
    have ⟨path, ends, nested⟩ :
        CountedPath tokens ∧
        (∃ t, tokens.getLast? = some t ∧ t.kind = .identifier) ∧
        Nested allShapes tokens := by
      cases h with
      | absolute scope word tail =>
        obtain ⟨path, -, nested, last⟩ := of_nameTail tail
        refine ⟨.absolute scope word ((countedTail_iff _ _).mpr ⟨path, rfl⟩),
          ?_, .token (by simp [allShapes, scope])
            (.token (by simp [allShapes, word]) nested)⟩
        exact ⟨_, List.getLast?_cons_cons.trans List.getLast?_cons,
          endsInName word last⟩
      | relative word tail more =>
        obtain ⟨path, scope, nested, last⟩ := of_nameTail tail
        refine ⟨.relative word ((countedTail_iff _ _).mpr ⟨path, scope more⟩),
          ?_, .token (by simp [allShapes, word]) nested⟩
        exact ⟨_, List.getLast?_cons, endsInName word last⟩
    exact ⟨⟨(Grammar.balanced_iff tokens).mp
          (Grammar.balanced_of_nested nested), ends, path⟩,
      nested⟩
  · rintro ⟨⟨-, ⟨last, atEnd, word⟩, path⟩, nested⟩
    have ends : ∀ t ∈ tokens.getLast?, t.kind = .identifier := by
      rw [atEnd]
      rintro t ⟨⟩
      exact word
    cases path with
    | @absolute qualified colons name rest scope named tail =>
      have inside : Nested allShapes (name :: rest) := by
        rcases Grammar.nested_cons nested
            with ⟨-, inside⟩ | ⟨_, _, _, -, shape, -, -⟩
        · exact inside
        · simp [allShapes, scope] at shape
      have path : namePath 0 true (name :: rest) = true := by
        rw [namePath_name _ named]
        exact ((countedTail_iff _ _).mp tail).1
      obtain ⟨_, _, ⟨⟩, -, components⟩ :=
        (nameTail_of_namePath inside (by simpa using ends)).1 path
      exact .absolute scope named components
    | @relative name rest named tail =>
      obtain ⟨path, scope⟩ := (countedTail_iff _ _).mp tail
      have whole : namePath 0 true (name :: rest) = true := by
        rwa [namePath_name _ named]
      obtain ⟨_, _, ⟨⟩, -, components⟩ :=
        (nameTail_of_namePath nested ends).1 whole
      refine .relative named components ?_
      rintro rfl
      cases scope

/-- A string literal names a getter if and only if its tokens are a name by
the number of their brackets; the getter is spelled by those tokens, and any
other literal is blamed. Qualified names are the names whose brackets match
shape by shape as well, so a literal that is accepted is a qualified name
unless a bracket is closed by one of another shape. -/
theorem getter_accepted_iff (key : Text) (place location : Location)
    (value : Text) :
    let tokens := Token.scanBody location.file value
    let read := readGetter ⟨key, place, .value [⟨.string, value, location⟩]⟩
    (read = .ok ⟨Token.spell tokens, location⟩ ↔ CountedName tokens) ∧
    (read = .error ⟨.getterNotQualified value, location⟩ ↔
      ¬CountedName tokens) ∧
    (QualifiedName tokens ↔ CountedName tokens ∧ Nested allShapes tokens) := by
  intro tokens read
  have accepted :
      read = if isQualifiedName tokens then .ok ⟨Token.spell tokens, location⟩
      else .error ⟨.getterNotQualified value, location⟩ := rfl
  rw [accepted, qualifiedName_iff, ← isQualifiedName_iff]
  cases isQualifiedName tokens <;> simp

theorem exists_greater_of_nested {tokens : List Token}
    (h : Nested allShapes tokens) (opened : ∃ l ∈ tokens, l.kind = .less) :
    ∃ r ∈ tokens, r.kind = .greater := by
  obtain ⟨l, inside, opens⟩ := opened
  induction h with
  | nil => cases inside
  | token plain _ ih =>
    rcases List.mem_cons.mp inside with rfl | later
    · exact absurd opens (plain (.less, .greater) (by decide)).1
    · obtain ⟨r, found, closes⟩ := ih later
      exact ⟨r, .tail _ found, closes⟩
  | @group left right inner rest shape _ _ ihInner ihRest =>
    simp only [List.cons_append, List.mem_cons, List.mem_append] at inside
    rcases inside with rfl | within | rfl | later
    · exact ⟨right, by simp, by simpa [allShapes, opens] using shape⟩
    · obtain ⟨r, found, closes⟩ := ihInner within
      exact ⟨r, by simp [found], closes⟩
    · simp [allShapes, opens] at shape
    · obtain ⟨r, found, closes⟩ := ihRest later
      exact ⟨r, by simp [found], closes⟩

/-- Template arguments that a parenthesis closes go on to the end of the
name. -/
def unclosedArguments : Text := "::a<)b"

theorem unclosedArguments_accepted :
    readGetter
      ⟨"getter", default, .value [⟨.string, unclosedArguments, default⟩]⟩ =
      .ok ⟨unclosedArguments, default⟩ ∧
    ¬QualifiedName (Token.scanBody [] unclosedArguments) := by
  refine ⟨by decide +kernel, fun name => ?_⟩
  have nested := ((qualifiedName_iff _).mp name).2
  have opened : ∃ l ∈ Token.scanBody [] unclosedArguments, l.kind = .less := by
    decide +kernel
  have closed :
      ¬∃ r ∈ Token.scanBody [] unclosedArguments, r.kind = .greater := by
    decide +kernel
  exact closed (exists_greater_of_nested nested opened)

end Directive
end MirrorAdapter
