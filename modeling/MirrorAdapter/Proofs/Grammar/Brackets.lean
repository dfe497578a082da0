import MirrorAdapter.Proofs.Grammar.Basic

/-!
# Matching brackets

Brackets match in one of two ways: shape by shape, each opening one being
closed by its own shape (`Nested`), or in number only, by one running count
over all shapes (`Matched`). What matches shape by shape matches in number,
and each shape matches by itself.
-/
namespace MirrorAdapter
namespace Grammar

/-! ## Shapes -/

/-- Of each shape the first opens and the second closes. -/
theorem brackets_of_shape {l r : Token.Kind} (shape : (l, r) ∈ allShapes) :
    (l.isOpener = true ∧ l.isCloser = false) ∧ r.isOpener = false ∧
    r.isCloser = true := by
  simp only [allShapes, List.mem_cons,
    Prod.mk.injEq, List.not_mem_nil, or_false]
    at shape
  rcases shape with ⟨rfl, rfl⟩ | ⟨rfl, rfl⟩ | ⟨rfl, rfl⟩ | ⟨rfl, rfl⟩ <;> decide

theorem brackets_of_plain {t : Token}
    (plain : ∀ shape ∈ allShapes, t.kind ≠ shape.1 ∧ t.kind ≠ shape.2) :
    t.kind.isOpener = false ∧ t.kind.isCloser = false := by
  cases kind :
    t.kind <;> simp_all [allShapes, Token.Kind.isOpener, Token.Kind.isCloser]

theorem nesting_of_shape {l r : Token.Kind} (shape : (l, r) ∈ allShapes) :
    l.nesting = 1 ∧ r.nesting = -1 := by
  obtain ⟨⟨opens, -⟩, notOpens, closes⟩ := brackets_of_shape shape
  simp [Token.Kind.nesting, opens, notOpens, closes]

theorem nesting_of_plain {t : Token}
    (plain : ∀ shape ∈ allShapes, t.kind ≠ shape.1 ∧ t.kind ≠ shape.2) :
    t.kind.nesting = 0 := by
  obtain ⟨notOpens, notCloses⟩ := brackets_of_plain plain
  simp [Token.Kind.nesting, notOpens, notCloses]

/-! ## Nested brackets -/

/-- What nested brackets start with: a token that is no bracket, or a
group. -/
theorem nested_cons {t : Token} {tokens : List Token}
    (h : Nested allShapes (t :: tokens)) :
    ((∀ shape ∈ allShapes, t.kind ≠ shape.1 ∧ t.kind ≠ shape.2) ∧
      Nested allShapes tokens) ∨
    ∃ inside r rest,
      tokens = inside ++ r :: rest ∧ (t.kind, r.kind) ∈ allShapes ∧
      Nested allShapes inside ∧ Nested allShapes rest := by
  cases h with
  | token plain rest => exact .inl ⟨plain, rest⟩
  | group shape inside rest => exact .inr ⟨_, _, _, rfl, shape, inside, rest⟩

theorem nested_append {shapes : List (Token.Kind × Token.Kind)}
    {a b : List Token} (ha : Nested shapes a) (hb : Nested shapes b) :
    Nested shapes (a ++ b) := by
  induction ha with
  | nil => exact hb
  | token plain _ ih => exact .token plain ih
  | group shape inside _ _ ih => simpa using Nested.group shape inside ih

/-- Where all shapes are nested, each of them is by itself. -/
theorem nested_of_mem {shape : Token.Kind × Token.Kind}
    (known : shape ∈ allShapes) {tokens : List Token}
    (h : Nested allShapes tokens) : Nested [shape] tokens := by
  have apart :
      ∀ a ∈ allShapes, ∀ b ∈ allShapes,
          a ≠ b → (a.1 ≠ b.1 ∧ a.1 ≠ b.2) ∧ a.2 ≠ b.1 ∧ a.2 ≠ b.2 := by
    decide
  induction h with
  | nil => exact .nil
  | token plain _ ih => exact .token (by simpa using plain shape known) ih
  | @group l r inside rest pair _ _ inner outer =>
    by_cases same : (l.kind, r.kind) = shape
    · exact .group (by simpa using same) inner outer
    · obtain ⟨left, right⟩ := apart _ pair shape known same
      exact .token (by simpa using left)
        (nested_append inner (.token (by simpa using right) outer))

/-! ## Brackets in number -/

/-- Brackets match in number, whatever their shapes: none is closed that is
not open, and none is left open. -/
structure Matched (tokens : List Token) : Prop where
  opened : ∀ front, front <+: tokens → 0 ≤ count front
  closed : count tokens = 0

/-- The running count from `depth` on never falls below zero, and ends
there. -/
theorem balancedFrom_iff (depth : Nat) (tokens : List Token) :
    Token.balancedFrom depth tokens = true ↔
      (∀ front, front <+: tokens → 0 ≤ depth + count front) ∧
      depth + count tokens = 0 := by
  -- Of a list that is not empty the fronts are the empty one, and those with
  -- its first token.
  have step (depth : Nat) (t : Token) (ts : List Token) :
      (∀ front, front <+: t :: ts → 0 ≤ depth + count front) ↔
        ∀ front, front <+: ts → 0 ≤ (depth + t.kind.nesting) + count front := by
    constructor
    · intro all front inside
      have := all (t :: front) ((List.prefix_cons_inj t).mpr inside)
      rwa [count_cons, ← Int.add_assoc] at this
    · intro all front inside
      rcases List.prefix_cons_iff.mp inside with rfl | ⟨front, rfl, inside⟩
      · simp
      · rw [count_cons, ← Int.add_assoc]
        exact all front ((List.prefix_cons_inj t).mp inside)
  induction tokens generalizing depth with
  | nil => simp [Token.balancedFrom]
  | cons t ts ih =>
    rw [step, count_cons, ← Int.add_assoc]
    unfold Token.balancedFrom Token.Kind.nesting
    split
    case isTrue opens => exact ih (depth + 1)
    case isFalse notOpens =>
      split
      case isTrue closes =>
        cases depth with
        | zero =>
          simp only [Bool.false_eq_true, false_iff, not_and]
          intro all
          have := all [] List.nil_prefix
          simp at this
        | succ outer =>
          have lower : ((outer + 1 : Nat) : Int) + -1 = outer := by omega
          rw [lower]
          exact ih outer
      case isFalse notCloses =>
        rw [Int.add_zero]
        exact ih depth

theorem balanced_iff (tokens : List Token) :
    Token.balanced tokens = true ↔ Matched tokens := by
  have whole := balancedFrom_iff 0 tokens
  simp only [Int.natCast_zero, Int.zero_add] at whole
  rw [Token.balanced, whole]
  exact ⟨fun h => ⟨h.1, h.2⟩, fun h => ⟨h.opened, h.closed⟩⟩

theorem balancedFrom_opener {t : Token}
    (opens : t.kind.isOpener = true) (depth : Nat) (ts : List Token) :
    Token.balancedFrom depth (t :: ts) = Token.balancedFrom (depth + 1) ts := by
  rw [Token.balancedFrom.eq_def]
  exact if_pos opens

theorem balancedFrom_closer {t : Token} (notOpens : t.kind.isOpener = false)
    (closes : t.kind.isCloser = true) (depth : Nat) (ts : List Token) :
    Token.balancedFrom (depth + 1) (t :: ts) = Token.balancedFrom depth ts := by
  rw [Token.balancedFrom.eq_def]
  simp [notOpens, closes]

theorem balancedFrom_plain {t : Token} (notOpens : t.kind.isOpener = false)
    (notCloses : t.kind.isCloser = false) (depth : Nat) (ts : List Token) :
    Token.balancedFrom depth (t :: ts) = Token.balancedFrom depth ts := by
  rw [Token.balancedFrom.eq_def]
  simp [notOpens, notCloses]

/-- Tokens whose count falls to zero bring any larger count down to what it
was above theirs. -/
theorem balancedFrom_append {a : List Token} {depth : Nat}
    (h : Token.balancedFrom depth a = true) (outer : Nat) (rest : List Token) :
    Token.balancedFrom (depth + outer) (a ++ rest) =
      Token.balancedFrom outer rest := by
  induction a generalizing depth with
  | nil =>
    obtain rfl : depth = 0 := by simpa [Token.balancedFrom] using h
    rw [Nat.zero_add, List.nil_append]
  | cons t ts ih =>
    rw [List.cons_append]
    cases opens : t.kind.isOpener with
    | true =>
      rw [balancedFrom_opener opens] at h ⊢
      rw [Nat.add_right_comm]
      exact ih h
    | false =>
      cases closes : t.kind.isCloser with
      | true =>
        cases depth with
        | zero =>
          rw [Token.balancedFrom.eq_def] at h
          simp [opens, closes] at h
        | succ inner =>
          rw [balancedFrom_closer opens closes] at h
          rw [Nat.add_right_comm, balancedFrom_closer opens closes]
          exact ih h
      | false =>
        rw [balancedFrom_plain opens closes] at h ⊢
        exact ih h

/-- A group is balanced if what is inside it is. -/
theorem balanced_group {l r : Token} {inside : List Token}
    (shape : (l.kind, r.kind) ∈ allShapes)
    (inner : Token.balanced inside = true) (rest : List Token) :
    Token.balanced (l :: inside ++ r :: rest) = Token.balanced rest := by
  obtain ⟨⟨opens, -⟩, notOpens, closes⟩ := brackets_of_shape shape
  unfold Token.balanced at inner ⊢
  have passed := balancedFrom_append inner 1 (r :: rest)
  rw [balancedFrom_closer notOpens closes] at passed
  rwa [List.cons_append, balancedFrom_opener opens]

theorem balanced_of_nested {tokens : List Token}
    (h : Nested allShapes tokens) : Token.balanced tokens = true := by
  induction h with
  | nil => rfl
  | @token t rest plain _ ih =>
    obtain ⟨notOpens, notCloses⟩ := brackets_of_plain plain
    rwa [Token.balanced, balancedFrom_plain notOpens notCloses]
  | group shape _ _ inner outer => rwa [balanced_group shape inner]

end Grammar
end MirrorAdapter
