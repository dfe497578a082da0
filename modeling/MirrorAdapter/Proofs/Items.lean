import MirrorAdapter.Decl.Parser

/-!
# Reading a file item by item

Reading a file repeats one step on the open namespace blocks and the tokens
that are left. `Run` relates two points that such steps lead between to what
they contribute on the way; how the file is read behind a point depends on
nothing else.
-/
namespace MirrorAdapter
namespace Decl

namespace Content

@[simp] theorem includes_append (a b : Content) :
    (a ++ b).includes = a.includes ++ b.includes := rfl

@[simp] theorem mirrors_append (a b : Content) :
    (a ++ b).mirrors = a.mirrors ++ b.mirrors := rfl

@[simp] theorem log_append (a b : Content) :
    (a ++ b).log = a.log ++ b.log := rfl

@[simp] theorem empty_append (a : Content) : ({} : Content) ++ a = a := rfl

@[simp] theorem append_empty (a : Content) : a ++ ({} : Content) = a := by
  show Content.mk _ _ _ = a
  simp

theorem append_assoc (a b c : Content) : a ++ b ++ c = a ++ (b ++ c) := by
  show Content.mk _ _ _ = Content.mk _ _ _
  simp

end Content

/-- What one step contributes, and where it leads. -/
structure Step where
  content : Content := {}
  blocks : List Block
  rest : List Token

section
variable (stop : Token)

/-- The first item of a file, from its first token on. -/
def readItem (blocks : List Block) (t : Token) (ts : List Token) : Step :=
  if t.kind = .rbrace then
    match blocks with
    | [] =>
      { content := .ofLog [Fault.unbalancedBrace.report t.location],
        blocks := [], rest := ts }
    | _ :: outer => { blocks := outer, rest := ts }
  else if t.kind = .hash then
    let line := readInclude stop t.location ts
    { content := includeContent blocks line, blocks, rest := line.rest }
  else if t.isWord "namespace" then
    match readNamespace stop ts with
    | ⟨some components, rest, log⟩ =>
      { content := .ofLog log, blocks := ⟨t.location, components⟩ :: blocks,
        rest }
    | ⟨none, rest, log⟩ =>
      { content := .ofLog log, blocks, rest := skipStatement 0 rest }
  else if t.kind = .semicolon then { blocks, rest := ts }
  else
    let definition := readMirror stop (scopeOf blocks) (t :: ts)
    { content := definition.content, blocks, rest := definition.next }

/-- What no other item starts with is read as a definition. -/
structure LeftToDefinition (t : Token) : Prop where
  notClosing : t.kind ≠ .rbrace
  notHash : t.kind ≠ .hash
  notNamespace : t.isWord "namespace" = false
  notSemicolon : t.kind ≠ .semicolon

/-- The first token decides what an item is. -/
theorem item_cases (t : Token) :
    t.kind = .rbrace ∨ t.kind = .hash ∨ t.isWord "namespace" = true ∨
    t.kind = .semicolon ∨ LeftToDefinition t := by
  by_cases closes : t.kind = .rbrace
  · exact .inl closes
  by_cases hash : t.kind = .hash
  · exact .inr (.inl hash)
  cases named : t.isWord "namespace" with
  | true => exact .inr (.inr (.inl rfl))
  | false =>
    by_cases ends : t.kind = .semicolon
    · exact .inr (.inr (.inr (.inl ends)))
    · exact .inr (.inr (.inr (.inr ⟨closes, hash, named, ends⟩)))

variable {t : Token} (blocks : List Block) (ts : List Token)

theorem readItem_of_rbrace (h : t.kind = .rbrace) :
    readItem stop blocks t ts =
      match blocks with
      | [] =>
        { content := .ofLog [Fault.unbalancedBrace.report t.location],
          blocks := [], rest := ts }
      | _ :: outer => { blocks := outer, rest := ts } := by
  rw [readItem.eq_def, if_pos h]

theorem readItem_of_hash (h : t.kind = .hash) :
    readItem stop blocks t ts =
      { content := includeContent blocks (readInclude stop t.location ts),
        blocks,
        rest := (readInclude stop t.location ts).rest } := by
  simp [readItem, h]

theorem readItem_of_namespace (h : t.isWord "namespace" = true) :
    readItem stop blocks t ts =
      match readNamespace stop ts with
      | ⟨some components, rest, log⟩ =>
        { content := .ofLog log,
          blocks := ⟨t.location, components⟩ :: blocks, rest }
      | ⟨none, rest, log⟩ =>
        { content := .ofLog log, blocks,
          rest := skipStatement 0 rest } := by
  have kind := Token.kind_of_isWord h
  simp only [readItem, kind, h, reduceCtorEq, if_false, if_true]

theorem readItem_of_semicolon (h : t.kind = .semicolon) :
    readItem stop blocks t ts = { blocks, rest := ts } := by
  simp [readItem, h, Token.isWord]

theorem readItem_of_definition (h : LeftToDefinition t) :
    readItem stop blocks t ts =
      { content := (readMirror stop (scopeOf blocks) (t :: ts)).content, blocks,
        rest := (readMirror stop (scopeOf blocks) (t :: ts)).next } := by
  simp [readItem, h.notClosing, h.notHash, h.notNamespace, h.notSemicolon]

/-- Outside all blocks a file may end. -/
@[simp] theorem readItems_nil : readItems stop [] [] = {} := by
  rw [readItems.eq_def]
  rfl

theorem readItems_cons :
    readItems stop blocks (t :: ts) = (readItem stop blocks t ts).content ++
        readItems stop (readItem stop blocks t ts).blocks
          (readItem stop blocks t ts).rest := by
  rw [readItems.eq_def]
  dsimp only
  obtain closes | hash | named | ends | other := item_cases t
  · rw [readItem_of_rbrace stop blocks ts closes]
    cases blocks <;> simp [closes]
  · simp [readItem_of_hash stop blocks ts hash, hash]
  · have kind := Token.kind_of_isWord named
    rw [readItem_of_namespace stop blocks ts named]
    simp only [kind, named, reduceCtorEq, if_false, if_true, dite_false]
    split <;> rename_i found <;> simp only [found]
  · simp [readItem_of_semicolon stop blocks ts ends, ends, Token.isWord]
  · simp [readItem_of_definition stop blocks ts other, other.notClosing,
      other.notHash, other.notNamespace, other.notSemicolon]

theorem Definition.next_suffix (d : Definition) : d.next <:+ d.rest := by
  unfold Definition.next
  split
  · exact List.suffix_refl _
  · exact skipStatement_suffix 0 _

/-- An item takes at least its first token. -/
theorem readItem_suffix : (readItem stop blocks t ts).rest <:+ ts := by
  obtain closes | hash | named | ends | other := item_cases t
  · rw [readItem_of_rbrace stop blocks ts closes]
    cases blocks <;> exact List.suffix_refl _
  · rw [readItem_of_hash stop blocks ts hash]
    exact within_readInclude stop t.location ts
  · have within := within_readNamespace stop ts
    rw [readItem_of_namespace stop blocks ts named]
    split <;> rename_i found <;> rw [found] at within
    · exact within
    · exact (skipStatement_suffix 0 _).trans within
  · simp [readItem_of_semicolon stop blocks ts ends]
  · rw [readItem_of_definition stop blocks ts other]
    have within :=
      (Definition.next_suffix _).trans
        (readMirror_suffix stop (scopeOf blocks) (t :: ts))
    -- A definition is read from `t` on, so it has to be shown that it takes
    -- something.
    rcases List.suffix_cons_iff.mp within with all | tail
    · have lt := readMirror_next_lt stop (scopeOf blocks) other.notClosing ts
      rw [all] at lt
      exact absurd lt (Nat.lt_irrefl _)
    · exact tail

/-- What holds at the end of a file, and in front of an item if it holds
behind it, holds everywhere. -/
theorem items_induction {motive : List Block → List Token → Prop}
    (nil : ∀ blocks, motive blocks [])
    (item : ∀ blocks t ts, motive (readItem stop blocks t ts).blocks
          (readItem stop blocks t ts).rest → motive blocks (t :: ts))
    (blocks : List Block) (tokens : List Token) : motive blocks tokens := by
  -- By the number of tokens left, since one item takes many of them.
  induction h : tokens.length using Nat.strongRecOn
    generalizing blocks tokens with
  | ind n ih =>
    cases tokens with
    | nil => exact nil blocks
    | cons t ts =>
      have shorter := (readItem_suffix stop blocks ts (t := t)).length_le
      refine item blocks t ts (ih _ ?_ _ _ rfl)
      rw [← h]
      exact Nat.lt_succ_of_le shorter

/-- Steps lead from one point of a file to another, contributing the
content. -/
inductive Run :
    List Block → List Token → Content → List Block → List Token → Prop
  | refl (blocks : List Block) (tokens : List Token) :
      Run blocks tokens {} blocks tokens
  | step {blocks : List Block} {t : Token} {ts : List Token}
      {content : Content} {blocks' : List Block} {tokens' : List Token} :
      Run (readItem stop blocks t ts).blocks
        (readItem stop blocks t ts).rest content blocks' tokens' →
      Run blocks (t :: ts) ((readItem stop blocks t ts).content ++ content)
        blocks' tokens'

variable {stop : Token} {blocks blocks' blocks'' : List Block}
    {tokens tokens' tokens'' : List Token} {content content' : Content}

/-- One step is a run. -/
theorem Run.single {t : Token} {ts : List Token}
    {step : Step} (h : readItem stop blocks t ts = step) :
    Run stop blocks (t :: ts) step.content step.blocks step.rest := by
  subst h
  simpa using Run.step (Run.refl (readItem stop blocks t ts).blocks
        (readItem stop blocks t ts).rest)

theorem Run.trans (h : Run stop blocks tokens content blocks' tokens')
    (h' : Run stop blocks' tokens' content' blocks'' tokens'') :
    Run stop blocks tokens (content ++ content') blocks'' tokens'' := by
  induction h with
  | refl => exact h'
  | step _ ih =>
    rw [Content.append_assoc]
    exact .step (ih h')

/-- What is read behind the end of a run is read in full. -/
theorem Run.readItems (h : Run stop blocks tokens content blocks' tokens') :
    readItems stop blocks tokens =
      content ++ readItems stop blocks' tokens' := by
  induction h with
  | refl => rfl
  | step _ ih => rw [readItems_cons, ih, Content.append_assoc]

theorem Run.suffix (h : Run stop blocks tokens content blocks' tokens') :
    tokens' <:+ tokens := by
  induction h with
  | refl => exact List.suffix_refl _
  | step _ ih =>
    exact (ih.trans (readItem_suffix _ _ _)).trans (List.suffix_cons _ _)

end
end Decl
end MirrorAdapter
