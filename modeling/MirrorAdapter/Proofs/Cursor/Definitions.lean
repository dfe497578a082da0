import MirrorAdapter.Proofs.Cursor.Members

/-!
# Definitions by position

By position the attributes behind a template clause are looked for only where
there was a clause. That makes no difference, since all attributes in front of
it have been read. A clause that is read has parameters, so the reader by
position never finds it without any.
-/
namespace MirrorAdapter
namespace Decl
namespace Cursor

variable {tokens rest : List Token}

/-! ## Template parameters -/

theorem run_param (h : Stands tokens rest)
    (taken : List Token) (content : Content) :
    (param tokens taken).run (before tokens rest content) =
      match templateParam (endMark tokens) rest taken with
      | .ok found => some (some found, before tokens rest content)
      | .error wrong =>
        some (none, before tokens rest (content ++ .ofLog [wrong])) := by
  have same :
      templateParam (rest.headD (endMark tokens)) [] taken =
        templateParam (endMark tokens) rest taken := by
    cases taken <;> rfl
  rw [← same]
  cases found :
    templateParam (rest.headD (endMark tokens)) [] taken <;> simp_all
        [param, settle]

theorem behind_andThen_cons {α : Type}
    (taken : List α) (next : α) (p : Parsed (List α)) :
    behind taken (p.andThen fun more rest => .done (next :: more) rest) =
      behind (taken ++ [next]) p := by
  obtain ⟨_ | more, rest, log⟩ :=
    p <;> simp [behind, Parsed.andThen, Parsed.done]

theorem run_paramsFrom {n : Nat} (h : Stands tokens rest)
    (enough : rest.length < n) (depth : Int) (taken : List Token)
    (params : List LocatedParam) (content : Content) :
    (paramsFrom tokens n depth taken params).run (before tokens rest content) =
      some ((behind params
            (readParams (endMark tokens) depth taken rest)).value,
        before tokens
          (behind params (readParams (endMark tokens) depth taken rest)).rest
          (content ++ .ofLog (behind params
                (readParams (endMark tokens) depth taken rest)).log)) := by
  fun_induction readParams (endMark tokens) depth taken rest
    generalizing n params content with
    obtain ⟨n, rfl, later⟩ := exists_round enough
  | case1 => simp [paramsFrom, h, behind, Decl.blame, Parsed.giveUp]
  | case2 depth taken t ts closes last found =>
    simp [paramsFrom, h, closes, run_param h.tail, found, Reader.andThen,
      behind, Parsed.done]
  | case3 depth taken t ts closes wrong found =>
    simp [paramsFrom, h, closes, run_param h.tail, found, Reader.andThen,
      behind, Parsed.giveUp]
  | case4 depth taken t ts inside separates next found ih =>
    rw [behind_andThen_cons]
    simp [paramsFrom, h, separates, run_param h.tail, found, Reader.andThen,
      ih h.tail later]
  | case5 depth taken t ts inside separates wrong found =>
    simp [paramsFrom, h, separates, run_param h.tail, found, Reader.andThen,
      behind, Parsed.giveUp]
  | case6 depth taken t ts inside goesOn ih =>
    simp [paramsFrom, h, inside, goesOn, ih h.tail later]

theorem follows_paramsFrom (tokens : List Token) (depth : Int)
    (taken : List Token) (params : List LocatedParam) (rest : List Token) :
    Follows tokens rest (paramsFrom tokens tokens.length depth taken params)
      (behind params (readParams (endMark tokens) depth taken rest)) :=
  ⟨within_readParams _ _ _ _,
    fun h => run_paramsFrom h h.enough depth taken params⟩

/-- A list of parameters that is read has some. -/
theorem readParams_ne_nil {stop : Token} {depth : Int}
    {taken : List Token} {params : List LocatedParam}
    (h : (readParams stop depth taken rest).value = some params) :
    params ≠ [] := by
  fun_induction readParams stop depth taken rest generalizing params with
  | case1 => simp [Decl.blame, Parsed.giveUp] at h
  | case2 => cases h; exact List.cons_ne_nil _ _
  | case3 => simp [Parsed.giveUp] at h
  | case4 depth taken t ts inside separates next found ih =>
    obtain ⟨more, -, rfl⟩ := Parsed.value_andThen_done h
    exact List.cons_ne_nil _ _
  | case5 => simp [Parsed.giveUp] at h
  | case6 depth taken t ts inside goesOn ih => exact ih h

/-- The template clause and the attributes behind it. -/
def clauseStep (stop : Token) (taken : List Attribute) (tokens : List Token) :
    Parsed (List LocatedParam × List Attribute) :=
  (readTemplate stop tokens).andThen
    fun params rest => (readAttributes stop rest).andThen
        fun more rest => .done (params, taken ++ more) rest

theorem follows_behindTemplate (tokens : List Token)
    (taken : List Attribute) {params : List LocatedParam}
    (some_found : params ≠ []) (rest : List Token) :
    Follows tokens rest (behindTemplate tokens taken params)
      ((readAttributes (endMark tokens) rest).andThen
        fun more rest => .done (params, taken ++ more) rest) := by
  have whole :=
    (follows_attributeGroups tokens taken rest).andThen
      fun taken => follows_done (params, taken)
  rw [andThen_behind] at whole
  simpa [behindTemplate, some_found] using whole

/-- What is read of a template clause behind its opening bracket, and behind
the clause. -/
theorem follows_params (tokens : List Token)
    (taken : List Attribute) (rest : List Token) :
    Follows tokens rest ((paramsFrom tokens tokens.length 0 [] []).andThen
          (behindTemplate tokens taken))
      ((readParams (endMark tokens) 0 [] rest).andThen fun params rest =>
        (readAttributes (endMark tokens) rest).andThen
          fun more rest => .done (params, taken ++ more) rest) := by
  have params := follows_paramsFrom tokens 0 [] [] rest
  rw [behind_nil] at params
  have within :=
    params.within.andThen fun params between =>
        (within_readAttributes (endMark tokens) between).andThen
          fun more _ => Parsed.within_done (params, taken ++ more) _
  exact params.andThen_of_eq within fun params found =>
    follows_behindTemplate tokens taken (readParams_ne_nil found) _

theorem follows_templateClause (tokens : List Token) (taken : List Attribute)
    {rest : List Token} (closed : Grammar.opensAttributes rest = false) :
    Follows tokens rest (templateClause tokens taken)
      (clauseStep (endMark tokens) taken rest) := by
  cases rest with
  | nil =>
    rw [clauseStep, readTemplate, Parsed.done_andThen,
      readAttributes_of_closed _ closed, Parsed.done_andThen]
    exact ⟨Parsed.within_done _ _, fun h content => by
      simp [templateClause, h, Token.isWord, kind_endMark h.ends, Parsed.done]⟩
  | cons t ts =>
    by_cases named : t.isWord "template"
    · rw [clauseStep, readTemplate, if_pos named, Parsed.andThen_assoc]
      have whole :=
        (follows_expect tokens .less (by simp) .missingTemplateList ts).andThen
          fun _ => follows_params tokens taken
      exact ⟨whole.within.cons t, fun h content =>
          by simpa [templateClause, h, named] using whole.run h.tail content⟩
    · rw [clauseStep, readTemplate, if_neg named, Parsed.done_andThen,
        readAttributes_of_closed _ closed, Parsed.done_andThen]
      exact ⟨Parsed.within_done _ _,
        fun h content => by simp [templateClause, h, named, Parsed.done]⟩

/-! ## The head -/

theorem follows_keyword (tokens rest : List Token) :
    Follows tokens rest (keyword tokens)
      (readKeyword (endMark tokens) rest) := by
  refine ⟨within_readKeyword _ _, fun h content => ?_⟩
  cases rest with
  | nil =>
    simp [keyword, h, Token.isWord, kind_endMark h.ends, readKeyword,
      Decl.blame, Parsed.giveUp]
  | cons t ts =>
    by_cases struct : t.isWord "struct"
    · have text : t.text = "struct" := by
        simpa [Token.isWord] using ((Bool.and_eq_true _ _).mp struct).2
      have other : Text.ofString "struct" ≠ Text.ofString "class" := by decide
      simp [keyword, h, struct, text, other, readKeyword, Parsed.done]
    · by_cases other : t.isWord "class"
      · have text : t.text = "class" := by
          simpa [Token.isWord] using ((Bool.and_eq_true _ _).mp other).2
        simp [keyword, h, struct, other, text, readKeyword, Parsed.done]
      · simp [keyword, h, struct, other, readKeyword, Decl.blame, Parsed.giveUp]

theorem readHead_eq (stop : Token) (tokens : List Token) :
    readHead stop tokens =
      (readAttributes stop tokens).andThen fun leading rest =>
      (clauseStep stop leading rest).andThen
        fun (templateParams, leading) rest =>
          (readKeyword stop rest).andThen fun isClass rest =>
            (behind leading (readAttributes stop rest)).andThen
              fun attributes rest =>
                (Decl.expect stop .identifier .missingMirrorName rest).andThen
                  fun name rest =>
                    .done
                      { name := name.text, location := name.location,
                        isClass, templateParams, attributes } rest := by
  simp only [readHead, clauseStep, Parsed.andThen_assoc,
    Parsed.done_andThen, andThen_behind]

theorem follows_head (tokens rest : List Token) :
    Follows tokens rest (head tokens) (readHead (endMark tokens) rest) := by
  have within := within_readHead (endMark tokens) rest
  rw [readHead_eq] at within ⊢
  have leading := follows_attributeGroups tokens [] rest
  rw [behind_nil] at leading
  refine leading.andThen_of_eq within fun leading found => ?_
  have closed := opensAttributes_of_readAttributes _ _ found
  exact (follows_templateClause tokens leading closed).andThen
    fun (templateParams, leading) between =>
    (follows_keyword tokens between).andThen fun isClass between =>
      (follows_attributeGroups tokens leading between).andThen
        fun attributes between =>
        (follows_expect tokens .identifier (by simp) .missingMirrorName
            between).andThen fun name => follows_done _

/-! ## Whole definitions -/

/-- A mirror type is yielded only where the end of its definition is
passed. -/
theorem complete_of_finish {stop : Token} {scope : List Text}
    {head : Head} {body : Body} {m : Mirror}
    (h : (finish stop scope head body).mirror = some m) :
    (finish stop scope head body).complete = true := by
  rw [finish] at h ⊢
  dsimp only at h ⊢
  split at h
  · rename_i both
    exact ((Bool.and_eq_true _ _).mp both).1
  · cases h

theorem complete_of_definition {stop : Token} {scope : List Text} {head : Head}
    {m : Mirror} (h : (readDefinition stop scope head rest).mirror = some m) :
    (readDefinition stop scope head rest).complete = true := by
  cases rest with
  | nil => cases h
  | cons t ts =>
    unfold readDefinition at h ⊢
    dsimp only at h ⊢
    split at h
    · cases h
    · cases h
    · exact complete_of_finish h
    · cases h

theorem complete_of_mirror {stop : Token} {scope : List Text} {m : Mirror}
    (h : (readMirror stop scope rest).mirror = some m) :
    (readMirror stop scope rest).complete = true := by
  unfold readMirror at h ⊢
  split at h
  · cases h
  · exact complete_of_definition h

/-- Before the rest, the reader finds the definition: the mirror type, whether
its end was passed, and what is left. -/
def Finds (tokens rest : List Token)
    (reader : Reader (Option Mirror × Bool)) (d : Definition) : Prop :=
  ∀ content, reader.run (before tokens rest content) =
      some ((d.mirror, d.complete),
        before tokens d.rest (content ++ .ofLog d.log))

theorem finds_body {t : Token} {ts : List Token} (h : Stands tokens (t :: ts))
    (opens : t.kind = .lbrace) (scope : List Text) (head : Head) :
    Finds tokens (t :: ts) (body tokens scope head)
      (finish (endMark tokens) scope head (readBody (endMark tokens) ts)) := by
  intro content
  have opening :
      Decl.expect (endMark tokens) .lbrace .missingBody (t :: ts) =
        .done t ts := by
    simp [Decl.expect, opens]
  obtain ⟨inside, opening⟩ :=
    (follows_expect tokens .lbrace (by simp) .missingBody (t :: ts)).of_eq
      opening h
  have there := inside.of_suffix (readBody_suffix (endMark tokens) ts)
  have closing :=
    ((follows_expect tokens .rbrace (by simp) .unclosedBody _).andThen fun _ =>
          follows_expect tokens .semicolon (by simp) .unterminatedMirror).run
      there
  simp [body, opening, run_members inside inside.enough, closing, finish]

theorem finds_definition (h : Stands tokens rest)
    (scope : List Text) (head : Head) :
    Finds tokens rest (definition tokens scope head)
      (readDefinition (endMark tokens) scope head rest) := by
  intro content
  cases rest with
  | nil => simp [definition, h, body, Cursor.expect, readDefinition, place]
  | cons t ts =>
    by_cases opens : t.kind = .lbrace
    · simp [definition, h, opens, finds_body h opens scope head content,
        readDefinition]
    · unfold readDefinition
      dsimp only
      split
      · rename_i kind
        simp [definition, h, kind]
      · rename_i kind
        simp [definition, h, kind, place]
      · contradiction
      · rename_i forward bases _
        replace forward : t.kind ≠ .semicolon := forward
        replace bases : t.kind ≠ .colon := bases
        simp [definition, h, forward, bases, body, Cursor.expect, opens, place]

theorem finds_mirror (h : Stands tokens rest) (scope : List Text) :
    Finds tokens rest (mirror tokens scope)
      (readMirror (endMark tokens) scope rest) := by
  intro content
  unfold readMirror
  split
  · rename_i between log found
    obtain ⟨there, reads⟩ := (follows_head tokens rest).of_eq found h
    simp [mirror, reads]
  · rename_i head between log found
    obtain ⟨there, reads⟩ := (follows_head tokens rest).of_eq found h
    simp [mirror, reads, finds_definition there scope head _]

end Cursor
end Decl
end MirrorAdapter
