import Mathlib.Data.List.Forall2
import MirrorAdapter.Decl.TemplateList
import MirrorAdapter.Proofs.Grammar.Steps

/-!
# Template clauses and their grammar

The reading loop carries what it has taken of a parameter together with the
running count of that stretch. That count, and that no mark stood outside
brackets so far, is what ties the loop to `Grammar.Param`.
-/
namespace MirrorAdapter
namespace Decl

open Grammar (count NoneOutside Param Params ParamsOf TemplateClause ClauseOf)

section
variable (stop : Token)

/-! ## One parameter -/

theorem isError_of_templateParam {following tokens : List Token}
    {report : Diagnostic}
    (h : templateParam stop following tokens = .error report) :
    report.isError = true := by
  unfold templateParam at h
  split at h
  · cases h
    exact Fault.isError_report rfl _
  · split at h
    · cases h
      exact Fault.isError_report rfl _
    · split at h
      · cases h
        exact Fault.isError_report rfl _
      · split at h
        · cases h
        · cases h
          exact Fault.isError_report rfl _

theorem param_of_templateParam {following tokens : List Token}
    {param : LocatedParam} (h : templateParam stop following tokens = .ok param)
    (unsplit : NoneOutside [.comma, .greater] tokens)
    (closed : count tokens = 0) : Param tokens := by
  unfold templateParam at h
  split at h
  · cases h
  · rename_i first more
    split at h
    · cases h
    · rename_i noEqual
      split at h
      · cases h
      · rename_i last found
        split at h
        · rename_i named
          have whole : (first :: more).getLast? = some last := by
            rw [List.getLast?_cons, found]
            rfl
          have two : 2 ≤ (first :: more).length := by
            cases more with
            | nil => simp at found
            | cons second more => simp
          refine ⟨two, fun t ht => ?_, ⟨last, whole, named⟩, unsplit, closed⟩
          simpa using List.find?_eq_none.mp noEqual t ht
        · cases h

theorem templateParam_of_param {tokens : List Token} (h : Param tokens) :
    ∃ param, ∀ following, templateParam stop following tokens = .ok param := by
  obtain ⟨last, whole, named⟩ := h.named
  match tokens, h, whole with
  | [t], h, _ => exact absurd h.two (by simp)
  | first :: second :: more, h, whole =>
    have noEqual :
        (first :: second :: more).find? (·.kind = .equal) = none := by
      refine List.find?_eq_none.mpr ?_
      intro t ht
      simpa using h.noDefault t ht
    have found : (second :: more).getLast? = some last := by
      rwa [List.getLast?_cons_cons] at whole
    refine ⟨⟨⟨Token.spell (first :: second :: more), last.text⟩,
        first.location⟩,
      ?_⟩
    intro following
    simp [templateParam, noEqual, found, named]

/-- The tokens spell the declaration of the parameter, and the last of them is
its name. -/
structure DeclaresParam (tokens : List Token) (param : TemplateParam) :
    Prop where
  declaration : param.declaration = Token.spell tokens
  name : param.name = (tokens.getLastD default).text

theorem declaresParam_of_templateParam {following tokens : List Token}
    {param : LocatedParam}
    (h : templateParam stop following tokens = .ok param) :
    DeclaresParam tokens param.toTemplateParam := by
  unfold templateParam at h
  split at h
  · cases h
  · rename_i first more
    split at h
    · cases h
    · split at h
      · cases h
      · rename_i last found
        have name : (first :: more).getLastD default = last := by
          rw [List.getLastD_cons, List.getLastD_eq_getLast?, found]
          rfl
        split at h
        · obtain rfl := Except.ok.inj h
          exact ⟨rfl, by rw [name]⟩
        · cases h

/-! ## The list -/

theorem honest_readParams (depth : Int) (taken tokens : List Token) :
    (readParams stop depth taken tokens).Honest := by
  fun_induction readParams stop depth taken tokens with
  | case1 => exact honest_blame stop rfl _
  | case2 => exact Parsed.honest_done _ _
  | case3 _ _ _ _ _ _ found =>
    exact Parsed.honest_giveUp _ (isError_of_templateParam stop found)
  | case4 _ _ _ _ _ _ _ _ ih =>
    exact ih.andThen fun _ _ => Parsed.honest_done _ _
  | case5 _ _ _ _ _ _ _ found =>
    exact Parsed.honest_giveUp _ (isError_of_templateParam stop found)
  | case6 _ _ _ _ _ _ ih => exact ih

/-- From inside a parameter, the list goes on to its closing mark. -/
theorem consumes_readParams (depth : Int) (taken tokens : List Token)
    (unsplit : NoneOutside [.comma, .greater] taken)
    (level : depth = count taken) :
    (readParams stop depth taken tokens).Consumes tokens fun found eaten =>
        ∃ inside r params, eaten = inside ++ [r] ∧ r.kind = .greater ∧
          ParamsOf (taken ++ inside) params ∧ List.Forall₂ DeclaresParam
            params (found.map (·.toTemplateParam)) := by
  fun_induction readParams stop depth taken tokens with
  | case1 => exact Parsed.consumes_giveUp _ _ _ _
  | case2 depth taken t ts ends param found =>
    have good := param_of_templateParam stop found unsplit (by omega)
    have declares := declaresParam_of_templateParam stop found
    exact Parsed.consumes_done [t] ⟨[], t, [taken], rfl, ends.2,
      by simpa using ParamsOf.last good, .cons declares .nil⟩
  | case3 => exact Parsed.consumes_giveUp _ _ _ _
  | case4 depth taken t ts _ comma param found ih =>
    have good := param_of_templateParam stop found unsplit (by omega)
    have declares := declaresParam_of_templateParam stop found
    apply Parsed.Consumes.after ?_ List.singleton_append fun _ _ h => h
    apply (ih (Grammar.noneOutside_nil _) rfl).andThen
    intro _ _ rest _ shape
    obtain ⟨inside, r, params, rfl, closes, more, declared⟩ := shape
    exact Parsed.consumes_nothing ⟨t :: inside, r, taken :: params, by simp,
      closes, .cons good comma.2 more, .cons declares declared⟩
  | case5 => exact Parsed.consumes_giveUp _ _ _ _
  | case6 depth taken t ts noEnd noComma ih =>
    -- The token joins the parameter: if it is a mark, it stands inside
    -- brackets.
    have inside : count taken = 0 → t.kind ∉ [Token.Kind.comma, .greater] := by
      intro outside
      have level0 : depth = 0 := by omega
      simp only [level0, true_and] at noEnd noComma
      simp [noEnd, noComma]
    apply (ih (unsplit.snoc inside) (by simp [level])).after
      List.singleton_append
    intro _ _ shape
    obtain ⟨more, r, params, rfl, closes, good, declared⟩ := shape
    exact ⟨t :: more, r, params, rfl, closes, by simpa using good, declared⟩

/-- Tokens without a mark outside brackets are taken one after another. -/
theorem readParams_append (taken inside rest : List Token)
    (h : NoneOutside [.comma, .greater] (taken ++ inside)) :
    readParams stop (count taken) taken (inside ++ rest) =
      readParams stop (count (taken ++ inside)) (taken ++ inside) rest := by
  induction inside generalizing taken with
  | nil => simp
  -- The parameter grows at its end while the tokens to come shrink, so
  -- `taken` is general.
  | cons t inside ih =>
    have step := ih (taken ++ [t]) (by simpa using h)
    have other : count taken = 0 → t.kind ∉ [Token.Kind.comma, .greater] :=
      h taken t inside rfl
    simp only [List.append_assoc, List.cons_append, List.nil_append,
      Grammar.count_append, Grammar.count_cons, Grammar.count_nil, Int.add_zero]
      at step
    rw [List.cons_append, readParams, if_neg, if_neg, step]
    · simp
    · rintro ⟨outside, comma⟩
      simp [comma] at other
      omega
    · rintro ⟨outside, greater⟩
      simp [greater] at other
      omega

theorem reads_readParams {params : List Token}
    (h : Params params) {r : Token} (closes : r.kind = .greater) :
    Reads (readParams stop 0 []) (params ++ [r]) fun _ => True := by
  induction h with
  | @last param good =>
    obtain ⟨found, reads⟩ := templateParam_of_param stop good
    refine ⟨[found], [], Log.clean_nil, ?_⟩
    intro rest _
    have inside := readParams_append stop [] param (r :: rest) good.unsplit
    simp only [Grammar.count_nil, List.nil_append] at inside
    rw [List.append_assoc, List.cons_append, List.nil_append, inside,
      readParams]
    simp [good.closed, closes, reads, Parsed.done]
  | @cons param others comma good split _ ih =>
    obtain ⟨found, reads⟩ := templateParam_of_param stop good
    obtain ⟨more, log, clean, reads'⟩ := ih
    refine ⟨found :: more, log, clean, ?_⟩
    intro rest _
    have inside :=
      readParams_append stop [] param (comma :: (others ++ r :: rest))
        good.unsplit
    have tail := reads' rest trivial
    simp only [Grammar.count_nil, List.nil_append,
      List.append_assoc, List.cons_append]
      at inside tail ⊢
    rw [inside, readParams]
    simp [good.closed, split, reads, tail, Parsed.andThen, Parsed.done]

/-! ## The clause -/

theorem honest_readTemplate (tokens : List Token) :
    (readTemplate stop tokens).Honest := by
  unfold readTemplate
  split
  · exact Parsed.honest_done _ _
  · split
    · exact (honest_expect stop _ rfl _).andThen
        fun _ _ => honest_readParams stop _ _ _
    · exact Parsed.honest_done _ _

theorem consumes_readTemplate (tokens : List Token) :
    (readTemplate stop tokens).Consumes tokens fun found eaten =>
      ∃ params, ClauseOf eaten params ∧
        List.Forall₂ DeclaresParam params (found.map (·.toTemplateParam)) := by
  unfold readTemplate
  split
  · exact Parsed.consumes_nothing ⟨[], .absent, .nil⟩
  · rename_i t ts
    split
    · rename_i word
      refine Parsed.Consumes.after ?_ List.singleton_append fun _ _ good => good
      apply (consumes_expect stop .less .missingTemplateList ts).andThen
      intro _ _ rest _ opens
      obtain ⟨rfl, opens⟩ := opens
      apply (consumes_readParams stop 0 [] rest (Grammar.noneOutside_nil _)
          rfl).mono
      intro _ _ shape
      obtain ⟨inside, r, params, rfl, closes, good, declared⟩ := shape
      exact ⟨params, .clause word opens good closes, declared⟩
    · exact Parsed.consumes_nothing ⟨[], .absent, .nil⟩

theorem reads_readTemplate {clause : List Token} (h : TemplateClause clause) :
    Reads (readTemplate stop) clause fun _ => True := by
  cases h with
  | @mk word l r params named opens good closes =>
    obtain ⟨found, log, clean, reads⟩ := reads_readParams stop good closes
    refine ⟨found, log, clean, ?_⟩
    intro rest _
    have step := reads rest trivial
    simp only [List.append_assoc, List.cons_append, List.nil_append] at step ⊢
    simp [readTemplate, named, expect, opens, Parsed.done, Parsed.andThen, step]

/-- Where no clause starts none is read. -/
theorem reads_noTemplate :
    Reads (readTemplate stop) []
      fun rest => ∀ t ts, rest = t :: ts → t.isWord "template" = false := by
  refine ⟨[], [], Log.clean_nil, ?_⟩
  intro rest hrest
  cases rest with
  | nil => rfl
  | cons t ts => simp [readTemplate, hrest t ts rfl, Parsed.done]

end
end Decl
end MirrorAdapter
