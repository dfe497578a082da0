import MirrorAdapter.Proofs.Cursor.File
import MirrorAdapter.Proofs.Grammar.Brackets
import MirrorAdapter.Proofs.Recovery.Endings
import MirrorAdapter.Proofs.Recovery.Terminator

/-!
# Recovery in step with a body

Readers of members measure brackets in four ways: attributes look for square
brackets one by one and count parentheses, fields count all shapes together,
and what skips a member counts braces alone. Where all brackets are closed by
their own shapes, and members end inside braces only, these agree: a reader
that gives up has left a stretch without braces and semicolons in front of the
rest of a body (`Leaves`), and behind its end stands a body again.
-/
namespace MirrorAdapter
namespace Decl

open Grammar (Nested allShapes brackets_of_shape brackets_of_plain
    nesting_of_shape nesting_of_plain nested_cons)

/-! ## Bodies -/

/-- The shapes of brackets other than braces. -/
def flatShapes : List (Token.Kind × Token.Kind) :=
  [(.lparen, .rparen), (.lbracket, .rbracket), (.less, .greater)]

/-- Neither a brace nor the mark that ends a member. -/
def Inline (t : Token) : Prop :=
  t.kind ≠ .lbrace ∧ t.kind ≠ .rbrace ∧ t.kind ≠ .semicolon

instance (t : Token) : Decidable (Inline t) :=
  inferInstanceAs
    (Decidable (t.kind ≠ .lbrace ∧ t.kind ≠ .rbrace ∧ t.kind ≠ .semicolon))

/-- All brackets are closed by their own shapes, and neither braces nor
semicolons stand inside others than braces. -/
structure WellBracketed (body : List Token) : Prop where
  nested : Nested allShapes body
  inside : ∀ before l inside r after,
      body = before ++ (l :: inside ++ r :: after) →
      (l.kind, r.kind) ∈ flatShapes → Nested allShapes inside →
      ∀ t ∈ inside, Inline t

/-- Nested brackets without braces and semicolons. -/
structure Flat (tokens : List Token) : Prop where
  nested : Nested allShapes tokens
  inline : ∀ t ∈ tokens, Inline t

/-- The members of a body, sound or not, group by group. -/
inductive BodyTokens : List Token → Prop
  | nil : BodyTokens []
  | token {t : Token} {rest : List Token} :
      (∀ shape ∈ allShapes, t.kind ≠ shape.1 ∧ t.kind ≠ shape.2) →
      BodyTokens rest → BodyTokens (t :: rest)
  | flat {l r : Token} {inside rest : List Token} :
      (l.kind, r.kind) ∈ flatShapes → Flat inside → BodyTokens rest →
      BodyTokens (l :: inside ++ r :: rest)
  | braces {l r : Token} {inside rest : List Token} :
      l.kind = .lbrace → r.kind = .rbrace → Nested allShapes inside →
      BodyTokens rest → BodyTokens (l :: inside ++ r :: rest)

theorem mem_allShapes {l r : Token.Kind} (h : (l, r) ∈ allShapes) :
    (l, r) ∈ flatShapes ∨ l = .lbrace ∧ r = .rbrace := by
  simp only [allShapes, flatShapes, List.mem_cons,
    Prod.mk.injEq, List.not_mem_nil, or_false]
    at h ⊢
  tauto

theorem mem_allShapes_of_flat {l r : Token.Kind} (h : (l, r) ∈ flatShapes) :
    (l, r) ∈ allShapes := by
  simp only [allShapes, flatShapes, List.mem_cons, List.not_mem_nil, or_false]
    at h ⊢
  tauto

theorem WellBracketed.bodyTokens {body : List Token}
    (h : WellBracketed body) : BodyTokens body := by
  obtain ⟨nested, flat⟩ := h
  induction nested with
  | nil => exact .nil
  | @token t rest plain _ ih =>
    refine .token plain (ih fun before l inside r after whole =>
          flat (t :: before) l inside r after ?_)
    rw [whole]
    rfl
  | @group l r inside rest shape nested _ _ ih =>
    have later : BodyTokens rest := by
      refine ih fun before l' inside' r' after whole =>
          flat (l :: inside ++ r :: before) l' inside' r' after ?_
      rw [whole]
      simp
    rcases mem_allShapes shape with shape | ⟨opens, closes⟩
    · exact .flat shape ⟨nested, flat [] l inside r rest rfl shape nested⟩ later
    · exact .braces opens closes nested later

theorem flat_nil : Flat [] := ⟨.nil, fun _ inside => nomatch inside⟩

/-- No flat stretch starts with a closing bracket. -/
theorem Flat.isCloser {t : Token} {tokens : List Token}
    (h : Flat (t :: tokens)) : t.kind.isCloser = false := by
  rcases nested_cons h.nested with ⟨plain, -⟩ | ⟨_, r, _, -, shape, -, -⟩
  · exact (brackets_of_plain plain).2
  · exact (brackets_of_shape shape).1.2

/-- Behind a token that opens no bracket a flat stretch goes on. -/
theorem Flat.tail {t : Token} {tokens : List Token} (h : Flat (t :: tokens))
    (closed : t.kind.isOpener = false) : Flat tokens := by
  refine ⟨?_, fun u inside => h.inline u (.tail _ inside)⟩
  rcases nested_cons h.nested with ⟨-, rest⟩ | ⟨_, r, _, -, shape, -, -⟩
  · exact rest
  · simp [(brackets_of_shape shape).1.1] at closed

/-- A bracket is closed in the same flat stretch. -/
theorem Flat.group {l : Token} {tokens : List Token}
    (h : Flat (l :: tokens)) (opens : l.kind.isOpener = true) :
    ∃ inside r rest, tokens = inside ++ r :: rest ∧
      (l.kind, r.kind) ∈ allShapes ∧ Flat inside ∧ Flat rest := by
  obtain ⟨nested, inline⟩ := h
  rcases nested_cons nested
      with ⟨plain, -⟩ | ⟨inside, r, rest, rfl, shape, inner, outer⟩
  · simp [(brackets_of_plain plain).1] at opens
  · exact ⟨inside, r, rest, rfl, shape,
      ⟨inner, fun t there => inline t (by simp [there])⟩,
      ⟨outer, fun t there => inline t (by simp [there])⟩⟩

/-! ## Attributes -/

section
variable (stop : Token) {α β : Type}

/-- In front of a closing square bracket, the step leaves a flat stretch of
one. -/
def StaysFlat (step : List Token → Parsed α) : Prop :=
  ∀ tokens c more, Flat tokens → c.kind = .rbracket →
    ∃ left, Flat left ∧ (step (tokens ++ c :: more)).rest = left ++ c :: more

theorem StaysFlat.andThen {first : List Token → Parsed α}
    {second : α → List Token → Parsed β}
    (h : StaysFlat first) (h' : ∀ value, StaysFlat (second value)) :
    StaysFlat fun tokens => (first tokens).andThen second := by
  intro tokens c more flat closes
  obtain ⟨left, flat, rest⟩ := h tokens c more flat closes
  dsimp only
  generalize first (tokens ++ c :: more) = p at rest
  obtain ⟨value, _, log⟩ := p
  subst rest
  cases value with
  | none => exact ⟨left, flat, rfl⟩
  | some value => exact h' value left c more flat closes

theorem staysFlat_done (value : List Token → α) :
    StaysFlat fun tokens => .done (value tokens) tokens :=
  fun tokens _ _ flat _ => ⟨tokens, flat, rfl⟩

theorem flat_pathTail {c : Token}
    (closes : c.kind = .rbracket) (more : List Token) :
    ∀ {tokens : List Token}, Flat tokens →
      ∃ left, Flat left ∧ (pathTail (tokens ++ c :: more)).2 = left ++ c :: more
  | [], _ => ⟨[], flat_nil, by simp [Cursor.pathTail_of_ne, closes]⟩
  | t :: ts, flat => by
    by_cases scope : t.kind = .scope
    · have further := flat.tail (by simp [scope, Token.Kind.isOpener])
      cases ts with
      | nil => exact ⟨[], flat_nil, by simp [pathTail, closes, scope]⟩
      | cons u us =>
        by_cases named : u.kind = .identifier
        · obtain ⟨left, good, same⟩ :=
            flat_pathTail closes more
              (further.tail (by simp [named, Token.Kind.isOpener]))
          exact ⟨left, good, by simp [pathTail, scope, named, same]⟩
        · exact ⟨u :: us, further, by simp [pathTail, scope, named]⟩
    · exact ⟨t :: ts, flat, by simp [Cursor.pathTail_of_ne scope]⟩

theorem staysFlat_readAttributeName : StaysFlat (readAttributeName stop) := by
  intro tokens c more flat closes
  cases tokens with
  | nil =>
    exact ⟨[], flat_nil,
      by simp [readAttributeName, closes, blame, Parsed.giveUp]⟩
  | cons t ts =>
    by_cases named : t.kind = .identifier
    · obtain ⟨left, good, same⟩ :=
        flat_pathTail closes more
          (flat.tail (by simp [named, Token.Kind.isOpener]))
      refine ⟨left, good, ?_⟩
      rw [List.cons_append, readAttributeName, if_pos named]
      split <;> rename_i found <;> rw [found] at same <;> exact same
    · exact ⟨t :: ts, flat,
        by simp [readAttributeName, named, blame, Parsed.giveUp]⟩

theorem staysFlat_readArguments (name : Text) :
    StaysFlat (readArguments stop name) := by
  intro tokens c more flat closes
  cases tokens with
  | nil => exact ⟨[], flat_nil, by simp [readArguments, closes, Parsed.done]⟩
  | cons l ts =>
    by_cases opens : l.kind = .lparen
    · obtain ⟨inside, r, rest, rfl, shape, inner, outer⟩ :=
        flat.group (by simp [opens, Token.Kind.isOpener])
      have closing : r.kind = .rparen := by
        simpa [opens, allShapes] using shape
      have arguments :=
        argumentTokens_nested (Grammar.nested_of_mem (.head _) inner.nested)
          0 (r :: (rest ++ c :: more))
      refine ⟨rest, outer, ?_⟩
      simp [readArguments, opens, arguments, argumentTokens, closing,
        expect, Parsed.andThen, Parsed.done]
    · exact ⟨l :: ts, flat, by simp [readArguments, opens, Parsed.done]⟩

theorem staysFlat_readAttribute : StaysFlat (readAttribute stop) :=
  (staysFlat_readAttributeName stop).andThen fun (name, _) =>
    (staysFlat_readArguments stop name).andThen fun _ => staysFlat_done _

theorem staysFlat_readAttributeList : StaysFlat (readAttributeList stop) := by
  intro tokens c more flat closes
  generalize whole : tokens ++ c :: more = all
  fun_induction readAttributeList stop all generalizing tokens with
  | case1 => exact ⟨tokens, flat, whole.symm⟩
  | case2 all _ rest log found | case5 all _ _ _ rest log found _ =>
    obtain ⟨left, good, same⟩ :=
      staysFlat_readAttribute stop tokens c more flat closes
    rw [whole, found] at same
    exact ⟨left, good, same⟩
  | case3 all _ a log found =>
    obtain ⟨left, -, same⟩ :=
      staysFlat_readAttribute stop tokens c more flat closes
    rw [whole, found] at same
    simp at same
  | case4 all _ a comma rest log found separates _ _ ih =>
    obtain ⟨left, good, same⟩ :=
      staysFlat_readAttribute stop tokens c more flat closes
    rw [whole, found] at same
    cases left with
    | nil =>
      obtain ⟨rfl, -⟩ := List.cons.inj same
      simp [closes] at separates
    | cons u left =>
      obtain ⟨rfl, rfl⟩ := List.cons.inj same
      exact ih left (good.tail (by simp [separates, Token.Kind.isOpener])) rfl

theorem expect_rbracket_of_flat (fault : Fault) {tokens : List Token}
    (flat : Flat tokens) {c : Token} (closes : c.kind = .rbracket)
    (more : List Token) : expect stop .rbracket fault (tokens ++ c :: more) =
      if tokens = [] then .done c more
      else blame stop fault (tokens ++ c :: more) := by
  cases tokens with
  | nil => exact expect_of_kind stop fault closes more
  | cons t ts =>
    refine expect_of_ne stop fault (fun same => ?_) _
    have open_ended := flat.isCloser
    simp [same, Token.Kind.isCloser] at open_ended

/-- A step that gives up leaves the rest behind a stretch without braces and
semicolons; otherwise it leaves the rest alone. -/
def Leaves (p : Parsed α) (rest : List Token) : Prop :=
  ∃ skipped, (∀ t ∈ skipped, Inline t) ∧ p.rest = skipped ++ rest ∧
    (p.value.isSome → skipped = [])

theorem leaves_readGroup {first second : List Token}
    {c d : Token} (inner : Flat first)
    (closesInner : c.kind = .rbracket) (outer : Flat second)
    (closesOuter : d.kind = .rbracket) (rest : List Token) :
    Leaves (readGroup stop (first ++ c :: (second ++ d :: rest))) rest := by
  obtain ⟨left, flat, same⟩ :=
    staysFlat_readAttributeList stop first c (second ++ d :: rest) inner
      closesInner
  have inline {tokens : List Token} (flat : Flat tokens) {r : Token}
      (closes : r.kind = .rbracket) : ∀ t ∈ tokens ++ [r], Inline t := by
    intro t inside
    rcases List.mem_append.mp inside with inside | inside
    · exact flat.inline t inside
    · rw [List.mem_singleton.mp inside, Inline, closes]
      decide
  -- What is left where the list of attributes, or the first bracket behind
  -- it, is not as expected.
  have early (log : Log) :
      Leaves (⟨none, left ++ c :: (second ++ d :: rest), log⟩ :
          Parsed (List Attribute)) rest := by
    refine ⟨(left ++ [c]) ++ (second ++ [d]), ?_, by simp, by simp⟩
    exact List.forall_mem_append.mpr
      ⟨inline flat closesInner, inline outer closesOuter⟩
  unfold readGroup
  generalize readAttributeList stop (first ++ c :: (second ++ d :: rest)) = p
    at same
  obtain ⟨value, _, log⟩ := p
  subst same
  cases value with
  | none => exact early log
  | some attributes =>
    simp only [Parsed.andThen, expect_rbracket_of_flat stop _ flat closesInner]
    by_cases done : left = []
    · simp only [if_pos done, Parsed.done,
        expect_rbracket_of_flat stop _ outer closesOuter]
      by_cases done' : second = []
      · simp only [if_pos done']
        exact ⟨[], by simp, rfl, fun _ => rfl⟩
      · simp only [if_neg done', blame, Parsed.giveUp]
        exact ⟨second ++ [d], inline outer closesOuter, by simp, by simp⟩
    · simp only [if_neg done, blame, Parsed.giveUp]
      exact early _

end

/-! ## Brackets that are passed -/

/-- What does not end a field belongs to it. -/
theorem fieldTokens_cons {depth : Int} {t : Token}
    (goesOn : ¬(depth = 0 ∧ endsField t.kind)) (ts : List Token) :
    (fieldTokens depth (t :: ts)).2 =
      (fieldTokens (depth + t.kind.nesting) ts).2 := by
  rw [fieldTokens, if_neg goesOn]

/-- Inside brackets no mark ends a field. -/
theorem fieldTokens_nested {inside : List Token} (h : Nested allShapes inside)
    {depth : Int} (deep : 0 < depth) (rest : List Token) :
    (fieldTokens depth (inside ++ rest)).2 = (fieldTokens depth rest).2 := by
  induction h generalizing depth rest with
  | nil => rfl
  | token plain _ ih =>
    rw [List.cons_append, fieldTokens_cons (by omega),
      nesting_of_plain plain, Int.add_zero, ih deep]
  | group shape _ _ inner outer =>
    obtain ⟨opens, closes⟩ := nesting_of_shape shape
    rw [List.append_assoc, List.cons_append, List.cons_append,
      fieldTokens_cons (by omega), opens, inner (by omega),
      fieldTokens_cons (by omega), closes, Int.add_neg_cancel_right, outer deep]

/-- A field takes a group as a whole, unless the group is in parentheses. -/
theorem fieldTokens_group {l d : Token} {inside : List Token}
    (shape : (l.kind, d.kind) ∈ allShapes) (nested : Nested allShapes inside)
    (other : l.kind ≠ .lparen) (rest : List Token) :
    (fieldTokens 0 (l :: (inside ++ d :: rest))).2 =
      (fieldTokens 0 rest).2 := by
  obtain ⟨opens, closes⟩ := nesting_of_shape shape
  have goesOn : endsField l.kind = false := by
    cases kind : l.kind <;> simp_all [allShapes, endsField]
  rw [fieldTokens_cons (by simp [goesOn]), opens,
    fieldTokens_nested nested (by omega), fieldTokens_cons (by omega), closes]
  rfl

/-- Brackets other than braces are skipped one by one. -/
theorem inline_of_shape {l r : Token}
    (shape : (l.kind, r.kind) ∈ flatShapes) : Inline l ∧ Inline r := by
  simp only [flatShapes, List.mem_cons,
    Prod.mk.injEq, List.not_mem_nil, or_false]
    at shape
  rcases shape with ⟨left, right⟩ | ⟨left, right⟩ | ⟨left, right⟩ <;>
      simp [Inline, left, right]

theorem inline_group {l r : Token} {inside : List Token}
    (shape : (l.kind, r.kind) ∈ flatShapes) (flat : Flat inside) :
    ∀ t ∈ l :: inside ++ [r], Inline t := by
  obtain ⟨left, right⟩ := inline_of_shape shape
  intro t there
  simp only [List.cons_append, List.mem_cons,
    List.mem_append, List.not_mem_nil, or_false]
    at there
  rcases there with rfl | there | rfl
  · exact left
  · exact flat.inline t there
  · exact right

theorem skipStatement_inline (depth : Nat) {tokens : List Token}
    (inline : ∀ t ∈ tokens, Inline t) (rest : List Token) :
    skipStatement depth (tokens ++ rest) = skipStatement depth rest := by
  apply skipStatement_append
  intro t inside
  obtain ⟨noOpener, noCloser, noSemicolon⟩ := inline t inside
  exact ⟨noOpener, noCloser, fun _ => noSemicolon⟩

theorem skipStatement_cons_inline (depth : Nat)
    {t : Token} (inline : Inline t) (rest : List Token) :
    skipStatement depth (t :: rest) = skipStatement depth rest :=
  skipStatement_inline depth (List.forall_mem_singleton.mpr inline) rest

theorem skipStatement_cons_plain {depth : Nat} {t : Token}
    (plain : ∀ shape ∈ allShapes, t.kind ≠ shape.1 ∧ t.kind ≠ shape.2)
    (goesOn : depth = 0 → t.kind ≠ .semicolon) (rest : List Token) :
    skipStatement depth (t :: rest) = skipStatement depth rest := by
  have noBrace : t.kind ≠ .lbrace ∧ t.kind ≠ .rbrace :=
    plain (.lbrace, .rbrace) (by simp [allShapes])
  exact skipStatement_append depth
    (List.forall_mem_singleton.mpr ⟨noBrace.1, noBrace.2, goesOn⟩) rest

/-- Inside braces nested brackets are skipped. -/
theorem skipStatement_nested {inside : List Token}
    (h : Nested allShapes inside) (depth : Nat) (rest : List Token) :
    skipStatement (depth + 1) (inside ++ rest) =
      skipStatement (depth + 1) rest := by
  induction h generalizing depth rest with
  | nil => rfl
  | @token t tokens plain _ ih =>
    have one :=
      skipStatement_cons_plain plain
        (fun outside => absurd outside depth.succ_ne_zero) (tokens ++ rest)
    exact one.trans (ih depth rest)
  | @group l r inside more shape _ _ inner outer =>
    rw [List.append_assoc, List.cons_append, List.cons_append]
    have behind := outer depth rest
    rcases mem_allShapes shape with shape | ⟨opens, closes⟩
    · obtain ⟨left, right⟩ := inline_of_shape shape
      have first :=
        skipStatement_cons_inline (depth + 1) left
          (inside ++ r :: (more ++ rest))
      have last := skipStatement_cons_inline (depth + 1) right (more ++ rest)
      exact first.trans ((inner depth _).trans (last.trans behind))
    · have first :
          skipStatement (depth + 1) (l :: (inside ++ r :: (more ++ rest))) =
            skipStatement (depth + 2) (inside ++ r :: (more ++ rest)) := by
        simp [skipStatement, opens]
      have last :
          skipStatement (depth + 2) (r :: (more ++ rest)) =
            skipStatement (depth + 1) (more ++ rest) := by
        simp [skipStatement, closes]
      exact first.trans ((inner (depth + 1) _).trans (last.trans behind))

/-! ## Members -/

section
variable (stop : Token) {r : Token} (closes : r.kind = .rbrace)
    (more : List Token)
include closes

/-- Where attributes start in a body, both of their brackets are closed in
it. -/
theorem BodyTokens.attributes {body : List Token}
    (h : BodyTokens body) {a b : Token} {inside : List Token}
    (opens : a.kind = .lbracket) (opensAgain : b.kind = .lbracket)
    (whole : a :: b :: inside = body ++ r :: more) :
    ∃ first c second d rest,
      inside = first ++ c :: (second ++ d :: (rest ++ r :: more)) ∧
      Flat first ∧ c.kind = .rbracket ∧ Flat second ∧ d.kind = .rbracket ∧
      BodyTokens rest := by
  cases h with
  | nil =>
    obtain ⟨rfl, -⟩ := List.cons.inj whole
    simp [opens] at closes
  | token plain =>
    obtain ⟨rfl, -⟩ := List.cons.inj whole
    simp [allShapes, opens] at plain
  | @flat l d within rest shape flat later =>
    rw [List.cons_append, List.cons_append] at whole
    obtain ⟨rfl, tail⟩ := List.cons.inj whole
    have closing : d.kind = .rbracket := by
      simpa [flatShapes, opens] using shape
    cases within with
    | nil =>
      obtain ⟨rfl, -⟩ := List.cons.inj tail
      simp [opensAgain] at closing
    | cons u us =>
      obtain ⟨rfl, rfl⟩ := List.cons.inj tail
      obtain ⟨first, c, second, rfl, shape, inner, outer⟩ :=
        flat.group (by simp [opensAgain, Token.Kind.isOpener])
      have closing' : c.kind = .rbracket := by
        simpa [allShapes, opensAgain] using shape
      exact ⟨first, c, second, d, rest, by simp, inner, closing', outer,
        closing, later⟩
  | braces left =>
    obtain ⟨rfl, -⟩ := List.cons.inj whole
    simp [opens] at left

theorem leaves_readAttributes {body : List Token} (h : BodyTokens body) :
    ∃ left, BodyTokens left ∧
      Leaves (readAttributes stop (body ++ r :: more)) (left ++ r :: more) := by
  generalize whole : body ++ r :: more = tokens
  revert body
  fun_induction readAttributes stop tokens with
  | case1 a b inside opens rest log found =>
    intro body h whole
    obtain ⟨first, c, second, d, left, rfl, inner, closesInner, outer,
          closesOuter, good⟩ :=
      h.attributes closes more opens.1 opens.2 whole.symm
    have group :=
      leaves_readGroup stop inner closesInner outer closesOuter
        (left ++ r :: more)
    rw [found] at group
    obtain ⟨skipped, inline, same, -⟩ := group
    exact ⟨left, good, skipped, inline, same, by simp⟩
  | case2 a b inside opens group rest log found =>
    rename_i ih
    intro body h whole
    obtain ⟨first, c, second, d, left, rfl, inner, closesInner, outer,
          closesOuter, good⟩ :=
      h.attributes closes more opens.1 opens.2 whole.symm
    have group :=
      leaves_readGroup stop inner closesInner outer closesOuter
        (left ++ r :: more)
    rw [found] at group
    obtain ⟨_, -, same, nothing⟩ := group
    obtain rfl := nothing rfl
    obtain ⟨left, good, skipped, inline, same, nothing⟩ := ih good same.symm
    exact ⟨left, good, skipped, inline, same, by simpa using nothing⟩
  | case3 | case4 =>
    intro body h whole
    exact ⟨body, h, [], by simp, whole.symm, fun _ => rfl⟩

theorem fieldTokens_body {body : List Token} (h : BodyTokens body) :
    ∃ left, BodyTokens left ∧
      (fieldTokens 0 (body ++ r :: more)).2 = left ++ r :: more := by
  induction h with
  | nil => exact ⟨[], .nil, by simp [fieldTokens, closes, endsField]⟩
  | @token t rest plain later ih =>
    by_cases ends : endsField t.kind = true
    · exact ⟨t :: rest, .token plain later, by simp [fieldTokens, ends]⟩
    · obtain ⟨left, good, same⟩ := ih
      refine ⟨left, good, ?_⟩
      rw [List.cons_append, fieldTokens_cons (by simp [ends]),
        nesting_of_plain plain, Int.add_zero, same]
  | @flat l d inside rest shape flat later ih =>
    by_cases parenthesis : l.kind = .lparen
    · exact ⟨_, .flat shape flat later,
        by simp [fieldTokens, parenthesis, endsField]⟩
    · obtain ⟨left, good, same⟩ := ih
      refine ⟨left, good, ?_⟩
      rw [List.append_assoc, List.cons_append, List.cons_append,
        fieldTokens_group (mem_allShapes_of_flat shape) flat.nested parenthesis,
        same]
  | @braces l d inside rest opens shuts nested later ih =>
    obtain ⟨left, good, same⟩ := ih
    refine ⟨left, good, ?_⟩
    have shape : (l.kind, d.kind) ∈ allShapes := by
      simp [allShapes, opens, shuts]
    rw [List.append_assoc, List.cons_append, List.cons_append,
      fieldTokens_group shape nested (by simp [opens]), same]

omit closes in
theorem BodyTokens.tail {t : Token} {tokens : List Token}
    (h : BodyTokens (t :: tokens)) (closed : t.kind.isOpener = false) :
    BodyTokens tokens := by
  cases h with
  | token _ later => exact later
  | flat shape =>
    simp [(brackets_of_shape (mem_allShapes_of_flat shape)).1.1] at closed
  | braces opens => simp [opens, Token.Kind.isOpener] at closed

omit closes in
theorem BodyTokens.isCloser {t : Token} {tokens : List Token}
    (h : BodyTokens (t :: tokens)) : t.kind.isCloser = false := by
  cases h with
  | token plain => exact (brackets_of_plain plain).2
  | flat shape => exact (brackets_of_shape (mem_allShapes_of_flat shape)).1.2
  | braces opens => simp [opens, Token.Kind.isCloser]

theorem skipSemicolon_body {body : List Token} (h : BodyTokens body) :
    ∃ left, BodyTokens left ∧
      skipSemicolon (body ++ r :: more) = left ++ r :: more := by
  cases body with
  | nil => exact ⟨[], .nil, by simp [skipSemicolon, Token.startsWith, closes]⟩
  | cons t body =>
    by_cases ends : t.kind = .semicolon
    · have later : BodyTokens body :=
        h.tail (by simp [ends, Token.Kind.isOpener])
      exact ⟨body, later, by simp [skipSemicolon, Token.startsWith, ends]⟩
    · exact ⟨t :: body, h, by simp [skipSemicolon, Token.startsWith, ends]⟩

omit closes in
theorem expect_of_not_startsWith {kind : Token.Kind} (fault : Fault)
    {tokens : List Token} (missing : Token.startsWith kind tokens = false) :
    expect stop kind fault tokens = blame stop fault tokens := by
  cases tokens with
  | nil => rfl
  | cons t ts =>
    exact expect_of_ne stop fault (by simpa [Token.startsWith] using missing) ts

theorem leaves_readPlainField (attributes : List Attribute)
    {body : List Token} (h : BodyTokens body) :
    ∃ left, BodyTokens left ∧
      (readPlainField stop attributes (body ++ r :: more)).rest =
        left ++ r :: more := by
  obtain ⟨left, good, same⟩ := fieldTokens_body closes more h
  obtain ⟨left', good', skipped⟩ := skipSemicolon_body closes more good
  unfold readPlainField
  generalize fieldTokens 0 (body ++ r :: more) = found at same
  obtain ⟨inside, _⟩ := found
  subst same
  dsimp only
  split
  · exact ⟨left, good, rfl⟩
  split
  · exact ⟨left, good, rfl⟩
  by_cases ends : Token.startsWith .semicolon (left ++ r :: more) = true
  · obtain ⟨semicolon, rest, same, kind⟩ := Token.exists_of_startsWith ends
    rw [skipSemicolon, if_pos ends, same] at skipped
    refine ⟨left', good', ?_⟩
    rw [same, expect_of_kind stop _ kind, ← skipped]
    cases fieldOf attributes inside <;> rfl
  · rw [expect_of_not_startsWith stop _ (by simpa using ends)]
    exact ⟨left, good, rfl⟩

theorem leaves_readField {body : List Token} (h : BodyTokens body) :
    ∃ left, BodyTokens left ∧
      Leaves (readField stop (body ++ r :: more)) (left ++ r :: more) := by
  obtain ⟨left, good, skipped, inline, same, nothing⟩ :=
    leaves_readAttributes stop closes more h
  unfold readField
  generalize readAttributes stop (body ++ r :: more) = p at same nothing
  obtain ⟨value, _, log⟩ := p
  subst same
  cases value with
  | none => exact ⟨left, good, skipped, inline, rfl, by simp [Parsed.andThen]⟩
  | some attributes =>
    obtain rfl := nothing rfl
    obtain ⟨left, good, same⟩ :=
      leaves_readPlainField stop closes more attributes good
    exact ⟨left, good, [], by simp, same, fun _ => rfl⟩

/-! ## Skipping -/

/-- Skipping from within a body ends behind a member, or at the end of the
body. -/
theorem skipStatement_body {body : List Token} (h : BodyTokens body) :
    ∃ left, BodyTokens left ∧
      skipStatement 0 (body ++ r :: more) = left ++ r :: more := by
  induction h with
  | nil => exact ⟨[], .nil, by simp [skipStatement, closes]⟩
  | @token t rest plain later ih =>
    by_cases ends : t.kind = .semicolon
    · exact ⟨rest, later, by simp [skipStatement, ends]⟩
    · obtain ⟨left, good, same⟩ := ih
      refine ⟨left, good, ?_⟩
      rw [← same]
      exact skipStatement_cons_plain plain (fun _ => ends) (rest ++ r :: more)
  | @flat l d inside rest shape flat later ih =>
    obtain ⟨left, good, same⟩ := ih
    refine ⟨left, good, ?_⟩
    have skipped :=
      skipStatement_inline 0 (inline_group shape flat) (rest ++ r :: more)
    simpa [same] using skipped
  | @braces l d inside rest opens shuts nested later ih =>
    obtain ⟨left, good, same⟩ := skipSemicolon_body closes more later
    refine ⟨left, good, ?_⟩
    have inner := skipStatement_nested nested 0 (d :: (rest ++ r :: more))
    rw [List.append_assoc, List.cons_append, List.cons_append, ← same,
      skipStatement, opens]
    exact inner.trans (by simp [skipStatement, shuts])

/-- A label stands in the body as a whole. -/
theorem BodyTokens.label {body : List Token} (h : BodyTokens body)
    {t : Token} {ts : List Token} (whole : body ++ r :: more = t :: ts)
    (word : t.kind = .identifier) (colon : Token.startsWith .colon ts = true) :
    ∃ left, BodyTokens left ∧ ts.tail = left ++ r :: more := by
  obtain ⟨c, rest, rfl, kind⟩ := Token.exists_of_startsWith colon
  match body, h with
  | [], _ =>
    obtain ⟨rfl, -⟩ := List.cons.inj whole
    simp [word] at closes
  | [_], _ =>
    obtain ⟨-, tail⟩ := List.cons.inj whole
    obtain ⟨rfl, -⟩ := List.cons.inj tail
    simp [kind] at closes
  | _ :: _ :: body, h =>
    obtain ⟨rfl, tail⟩ := List.cons.inj whole
    obtain ⟨rfl, rfl⟩ := List.cons.inj tail
    have further := h.tail (by simp [word, Token.Kind.isOpener])
    exact ⟨body, further.tail (by simp [kind, Token.Kind.isOpener]), rfl⟩

/-- However many members are malformed, the body ends where its brace is
closed. -/
theorem rest_readBody {body : List Token} (h : BodyTokens body) :
    (readBody stop (body ++ r :: more)).rest = r :: more := by
  generalize whole : body ++ r :: more = tokens
  fun_induction readBody stop tokens generalizing body with
  | case1 => simp at whole
  | case2 t ts shuts =>
    cases body with
    | nil => exact whole.symm
    | cons u body =>
      obtain ⟨rfl, -⟩ := List.cons.inj whole
      have opens := h.isCloser
      simp [shuts, Token.Kind.isCloser] at opens
  | case3 t ts _ label _ ih =>
    obtain ⟨left, good, same⟩ :=
      h.label closes more whole (Token.kind_of_isWord label.1) label.2
    exact ih good same.symm
  | case4 t ts _ _ label _ ih =>
    have word : t.kind = .identifier :=
      label.1.elim Token.kind_of_isWord Token.kind_of_isWord
    obtain ⟨left, good, same⟩ := h.label closes more whole word label.2
    exact ih good same.symm
  | case5 t ts _ _ _ field rest log found _ ih =>
    obtain ⟨left, good, _, -, same, nothing⟩ :=
      leaves_readField stop closes more h
    rw [whole, found] at same nothing
    obtain rfl := nothing rfl
    exact ih good same.symm
  | case6 t ts _ _ _ rest log found _ ih =>
    obtain ⟨left, good, skipped, inline, same, -⟩ :=
      leaves_readField stop closes more h
    rw [whole, found] at same
    obtain ⟨left, good, after⟩ := skipStatement_body closes more good
    refine ih good ?_
    rw [← after, ← skipStatement_inline 0 inline]
    exact congrArg (skipStatement 0) same.symm

end

/-! ## Definitions -/

/-- `struct Name { body } ;` -/
inductive Wraps (body : List Token) : List Token → Prop
  | mk {keyword name l r semicolon : Token} :
      Grammar.isKeyword keyword → name.kind = .identifier →
      l.kind = .lbrace → r.kind = .rbrace → semicolon.kind = .semicolon →
      Wraps body (keyword :: name :: l :: body ++ [r, semicolon])

theorem Wraps.eofFree {body definition : List Token}
    (h : Wraps body definition) (free : EofFree body) :
    EofFree definition := by
  cases h with
  | mk word named opens closes ends =>
    intro t inside
    simp only [List.cons_append, List.mem_cons,
      List.mem_append, List.not_mem_nil, or_false]
      at inside
    rcases inside with rfl | rfl | rfl | inside | rfl | rfl
    · simp [Grammar.isKeyword_kind word]
    · simp [named]
    · simp [opens]
    · exact free t inside
    · simp [closes]
    · simp [ends]

theorem readMirror_of_wraps (stop : Token) (scope : List Text)
    {body definition : List Token} (h : Wraps body definition)
    (good : BodyTokens body) (after : List Token) :
    (readMirror stop scope (definition ++ after)).complete = true ∧
    (readMirror stop scope (definition ++ after)).rest = after := by
  cases h with
  | @mk keyword name l r semicolon word named opens closes ends =>
    obtain ⟨head, log, -, reads⟩ :=
      reads_readHead stop (.mk (.plain .nil) word .nil named)
    have front := reads (l :: (body ++ r :: semicolon :: after)) trivial
    have members := rest_readBody stop closes (semicolon :: after) good
    have closing :=
      expect_of_kind stop .unclosedBody closes (semicolon :: after)
    have ending := expect_of_kind stop .unterminatedMirror ends after
    simp only [List.nil_append, List.cons_append, List.append_assoc] at front ⊢
    simp [readMirror, front, readDefinition, opens, finish, members,
      closing, ending, Parsed.andThen]

/-- Recovery keeps step with the members of a body: where all brackets of the
body are closed by their own shapes and no member ends inside others than
braces, the definition is passed with its last semicolon, however many members
are malformed, and it yields a mirror type iff no error is reported. Reading
by position, from where the definition starts in a list of tokens, ends
exactly behind that semicolon. -/
theorem recovery_keeps_step (scope : List Text)
    {body definition : List Token} (h : Wraps body definition)
    (good : WellBracketed body) (free : EofFree body) :
    (∀ stop after, ∃ mirror log, readMirror stop scope (definition ++ after) =
            { mirror, complete := true, rest := after, log } ∧
          (mirror.isSome = true ↔ log.hasErrors = false)) ∧
    ∀ path front after content, EofFree front → ∃ mirror log,
        (Cursor.mirror (Cursor.closed path (front ++ definition ++ after))
            scope).run ⟨front.length, content⟩ = some ((mirror, true),
              ⟨(front ++ definition).length, content ++ .ofLog log⟩) ∧
        (mirror.isSome = true ↔ log.hasErrors = false) := by
  have reads (stop : Token) (after : List Token) :
      ∃ mirror log,
        readMirror stop scope (definition ++ after) =
          { mirror, complete := true, rest := after, log } ∧
        (mirror.isSome = true ↔ log.hasErrors = false) := by
    obtain ⟨passed, left⟩ :=
      readMirror_of_wraps stop scope h good.bodyTokens after
    have honest := honest_readMirror stop scope (definition ++ after)
    generalize readMirror stop scope (definition ++ after) = d
      at passed left honest
    obtain ⟨mirror, complete, rest, log⟩ := d
    subst passed left
    exact ⟨mirror, log, rfl,
      by rw [Option.isSome_iff_exists, ← honest, Log.Clean]⟩
  refine ⟨reads, ?_⟩
  intro path front after content freeFront
  have freeBefore : EofFree (front ++ definition) :=
    freeFront.append (h.eofFree free)
  obtain ⟨ends, behind, whole⟩ :=
    Cursor.exists_closed_eq path (front ++ definition ++ after)
  generalize Cursor.closed path (front ++ definition ++ after) = tokens
    at whole
  have read : beforeEnd tokens = front ++ definition ++ beforeEnd after := by
    rw [whole,
      Cursor.beforeEnd_append (fun _ => Cursor.kind_of_mem_beforeEnd) ends,
      beforeEnd_append_of_eofFree freeBefore]
  -- Reading by position starts where the definition is left, and ends where
  -- what follows it is left.
  have stands : Cursor.Stands tokens (definition ++ beforeEnd after) := by
    refine ⟨⟨front, by rw [read, List.append_assoc]⟩, ?_⟩
    rw [read, whole, beforeEnd_append_of_eofFree freeBefore]
    simp
  have start :
      Cursor.before tokens (definition ++ beforeEnd after) content =
        ⟨front.length, content⟩ := by
    simp only [Cursor.before, read, List.length_append]
    congr 1
    omega
  obtain ⟨mirror, log, found, honest⟩ :=
    reads (Cursor.endMark tokens) (beforeEnd after)
  have positions := Cursor.finds_mirror stands scope content
  rw [found, start] at positions
  refine ⟨mirror, log, positions.trans ?_, honest⟩
  simp only [Cursor.before, read, List.length_append]
  congr 3
  omega

/-- It is enough that only inline tokens stand between any two brackets of one
shape, closed by each other or not. -/
theorem wellBracketed_of_positions {body : List Token}
    (nested : Nested allShapes body)
    (inside : ∀ j < body.length, ∀ i < j,
          ((body.getD i default).kind, (body.getD j default).kind) ∈
            flatShapes → ∀ t ∈ (body.take j).drop (i + 1), Inline t) :
    WellBracketed body := by
  refine ⟨nested, ?_⟩
  intro before l within r after whole shape _
  let i := before.length
  let j := before.length + (within.length + 1)
  have first : body.getD i default = l := by simp [i, whole]
  have last : body.getD j default = r := by simp [j, whole]
  have between : (body.take j).drop (i + 1) = within := by
    simp [i, j, whole, List.take_append, List.drop_append]
  have here := inside j (by simp [j, whole]) i (by omega)
  rw [first, last, between] at here
  exact here shape

def sampleWord (text : Text) : Token := ⟨.identifier, text, .start "f.mirror"⟩

def sampleMark (b : Byte) : Token := ⟨.ofByte b, [b], .start "f.mirror"⟩

/-- A member function, a field with a malformed attribute, and a field. -/
def malformedMembers : List Token :=
  sampleWord "void" :: sampleWord "f" ::
    (sampleMark '(' :: [] ++ sampleMark ')' ::
      (sampleMark '{' :: [sampleWord "return", sampleMark ';'] ++
        sampleMark '}' :: (sampleMark '[' :: (sampleMark '[' ::
            [sampleWord "a", sampleWord "b"] ++ [sampleMark ']']) ++
          sampleMark ']' :: sampleWord "int" :: sampleWord "x" ::
          sampleMark ';' :: sampleWord "list" ::
          (sampleMark '<' :: [sampleWord "int"] ++ sampleMark '>' ::
            [sampleWord "y", sampleMark ';']))))

theorem wellBracketed_malformedMembers : WellBracketed malformedMembers := by
  have word (text : Text) {rest : List Token} (h : Nested allShapes rest) :
      Nested allShapes (sampleWord text :: rest) :=
    .token (by simp [allShapes, sampleWord]) h
  have semicolon {rest : List Token} (h : Nested allShapes rest) :
      Nested allShapes (sampleMark ';' :: rest) :=
    .token (by decide) h
  have inner :
      Nested allShapes (sampleMark '[' ::
        [sampleWord "a", sampleWord "b"] ++ [sampleMark ']']) :=
    .group (by decide) (word _ (word _ .nil)) .nil
  have last :
      Nested allShapes (sampleWord "list" ::
        (sampleMark '<' :: [sampleWord "int"] ++ sampleMark '>' ::
          [sampleWord "y", sampleMark ';'])) :=
    word _ (.group (by decide) (word _ .nil) (word _ (semicolon .nil)))
  refine wellBracketed_of_positions ?_ (by decide +kernel)
  exact word _ (word _ (.group (by decide) .nil
        (.group (by decide) (word _ (semicolon .nil))
          (.group (by decide) inner (word _ (word _ (semicolon last)))))))

/-- The definition with these members. -/
def malformedDefinition : List Token :=
  sampleWord "struct" :: sampleWord "A" :: sampleMark '{' ::
    malformedMembers ++ [sampleMark '}', sampleMark ';']

theorem recovery_keeps_step_malformed :
    Wraps malformedMembers malformedDefinition ∧
    WellBracketed malformedMembers ∧ EofFree malformedMembers ∧
      (∃ log, readMirror (sampleWord "") [] (malformedDefinition ++ sibling) =
        { mirror := none, complete := true, rest := sibling,
          log } ∧ log.length = 3 ∧ log.hasErrors = true) ∧
      ∃ mirror log,
        (Cursor.mirror (Cursor.closed "f.mirror"
                (sibling ++ malformedDefinition ++ sibling))
            []).run ⟨sibling.length, {}⟩ =
          some ((mirror, true),
            ⟨(sibling ++ malformedDefinition).length, {} ++ .ofLog log⟩) := by
  have wraps : Wraps malformedMembers malformedDefinition :=
    .mk (by decide) rfl rfl rfl rfl
  have free : EofFree malformedMembers := by decide +kernel
  obtain ⟨lists, positions⟩ :=
    recovery_keeps_step [] wraps wellBracketed_malformedMembers free
  refine ⟨wraps, wellBracketed_malformedMembers, free, ?_, ?_⟩
  · obtain ⟨mirror, log, read, honest⟩ := lists (sampleWord "") sibling
    have reports :
        (readMirror (sampleWord "") []
            (malformedDefinition ++ sibling)).log.length = 3 ∧
        (readMirror (sampleWord "") []
            (malformedDefinition ++ sibling)).log.hasErrors =
          true := by
      decide +kernel
    rw [read] at reports
    cases mirror with
    | none => exact ⟨log, read, reports⟩
    | some mirror => simp [reports.2] at honest
  · obtain ⟨mirror, log, passed, -⟩ :=
      positions "f.mirror" sibling sibling {} (by decide +kernel)
    exact ⟨mirror, log, passed⟩

end Decl
end MirrorAdapter
