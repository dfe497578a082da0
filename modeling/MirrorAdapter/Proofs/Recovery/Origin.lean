import MirrorAdapter.Proofs.Grammar.File

/-!
# Where a mirror type comes from

Every mirror type of a file stems from a definition that reading arrives at.
Its head starts right there, so what stands between that point and the name is
a prelude, a keyword and attributes; none of these ends with a semicolon.
-/
namespace MirrorAdapter
namespace Grammar

theorem Attributes.last {tokens : List Token} (h : Attributes tokens)
    {t : Token} (last : tokens.getLast? = some t) : t.kind = .rbracket := by
  induction h with
  | nil => simp at last
  | @cons a b c d inside rest _ _ _ _ hd _ ih =>
    cases rest with
    | nil =>
      have found : d = t := by
        simpa [List.getLast?_append, List.getLast?_cons] using last
      rwa [← found]
    | cons u us =>
      exact ih (by simpa [List.getLast?_append, List.getLast?_cons] using last)

theorem Prelude.last {tokens : List Token} (h : Prelude tokens)
    {t : Token} (last : tokens.getLast? = some t) :
    t.kind = .rbracket ∨ t.kind = .greater := by
  cases h with
  | plain good => exact .inl (good.last last)
  | @template leading clause trailing _ hclause trails =>
    cases trailing with
    | nil =>
      cases hclause with
      | @mk word l r params _ _ _ closes =>
        have found : r = t := by
          simpa [List.getLast?_append, List.getLast?_cons] using last
        exact .inr (by rwa [← found])
    | cons u us =>
      exact .inl (trails.last
          (by simpa [List.getLast?_append, List.getLast?_cons] using last))

end Grammar

namespace Decl

section
variable {stop : Token} {blocks blocks' : List Block}
    {tokens tokens' : List Token} {content : Content}

@[simp] theorem mirrors_includeContent (line : Parsed Include) :
    (includeContent blocks line).mirrors = [] := by
  unfold includeContent
  split <;> rfl

theorem readMirror_of_mem_mirrors {t : Token} {ts : List Token} {m : Mirror}
    (h : m ∈ (readItem stop blocks t ts).content.mirrors) :
    (readMirror stop (scopeOf blocks) (t :: ts)).mirror = some m := by
  obtain closes | hash | named | ends | other := item_cases t
  · rw [readItem_of_rbrace stop blocks ts closes] at h
    cases blocks <;> simp [Content.ofLog] at h
  · rw [readItem_of_hash stop blocks ts hash] at h
    simp at h
  · rw [readItem_of_namespace stop blocks ts named] at h
    split at h <;> simp [Content.ofLog] at h
  · rw [readItem_of_semicolon stop blocks ts ends] at h
    simp at h
  · rw [readItem_of_definition stop blocks ts other] at h
    simpa [Definition.content] using h

/-- A mirror type stems from a definition that a run leads to. -/
theorem exists_run_of_mem_mirrors {m : Mirror}
    (h : m ∈ (readItems stop blocks tokens).mirrors) :
    ∃ content blocks' tokens',
      Run stop blocks tokens content blocks' tokens' ∧
      (readMirror stop (scopeOf blocks') tokens').mirror = some m := by
  induction blocks, tokens using items_induction stop with
  | nil blocks =>
    rw [readItems.eq_def] at h
    simp [Content.ofLog] at h
  | item blocks t ts ih =>
    rw [readItems_cons, Content.mirrors_append, List.mem_append] at h
    rcases h with here | later
    · exact ⟨_, blocks, t :: ts, .refl _ _, readMirror_of_mem_mirrors here⟩
    · obtain ⟨content, blocks', tokens', run, found⟩ := ih later
      exact ⟨_, blocks', tokens', .step run, found⟩

/-- Every open block has a name. -/
def Named (blocks : List Block) : Prop :=
  ∀ block ∈ blocks, block.components ≠ []

theorem named_readItem (h : Named blocks) (t : Token) (ts : List Token) :
    Named (readItem stop blocks t ts).blocks := by
  obtain closes | hash | named | ends | other := item_cases t
  · rw [readItem_of_rbrace stop blocks ts closes]
    cases blocks with
    | nil => exact h
    | cons block outer => exact fun inner hinner => h inner (.tail _ hinner)
  · rwa [readItem_of_hash stop blocks ts hash]
  · rw [readItem_of_namespace stop blocks ts named]
    -- Only here a block is opened, and its name has one component at least.
    have opening := consumes_readNamespace stop t named ts
    split <;> rename_i found
    · rw [found] at opening
      obtain ⟨_, -, nonempty, -⟩ := opening _ rfl
      intro block hblock
      rcases List.mem_cons.mp hblock with rfl | hblock
      · exact nonempty
      · exact h block hblock
    · exact h
  · rwa [readItem_of_semicolon stop blocks ts ends]
  · rwa [readItem_of_definition stop blocks ts other]

theorem Run.named (h : Run stop blocks tokens content blocks' tokens')
    (start : Named blocks) : Named blocks' := by
  induction h with
  | refl => exact start
  | step _ ih => exact ih (named_readItem start _ _)

/-- No scope means no open block. -/
theorem Named.eq_nil (h : Named blocks) (scope : scopeOf blocks = []) :
    blocks = [] := by
  cases blocks with
  | nil => rfl
  | cons block outer =>
    have none_left : block.components = [] := by
      simp only [scopeOf, List.flatMap_eq_nil_iff] at scope
      exact scope block (by simp)
    exact absurd none_left (h block (by simp))

end
end Decl
end MirrorAdapter
