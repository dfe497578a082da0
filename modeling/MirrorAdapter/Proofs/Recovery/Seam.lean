import MirrorAdapter.Proofs.Grammar.Definition

/-!
# Reading across a seam

A stretch of tokens that ends with a semicolon meets what follows it at a
seam. From a point before the seam every reading step either ends before the
seam, at it, or runs past it, and which of these it is does not depend on what
follows, as long as that starts with a name on the semicolon's line: there is
nothing to look ahead to behind a semicolon. In the first two cases the
outcome does not depend on what follows either.

Only steps that take a semicolon as such may end at the seam itself (`Ended`);
all others leave at least the semicolon (`Sealed`).
-/
namespace MirrorAdapter
namespace Decl

open Grammar (opensAttributes)

/-- The last token is a semicolon on the line. -/
def Sealed (line : UInt32) (tokens : List Token) : Prop :=
  ∃ t, tokens.getLast? = some t ∧ t.kind = .semicolon ∧ t.line = line

/-- There are no tokens, or the last one is a semicolon on the line. -/
def Ended (line : UInt32) (tokens : List Token) : Prop :=
  tokens = [] ∨ Sealed line tokens

/-- The first token is a name or keyword on the line. -/
def Resumes (line : UInt32) (tokens : List Token) : Prop :=
  ∃ t rest, tokens = t :: rest ∧ t.kind = .identifier ∧ t.line = line

section
variable {line : UInt32} {t : Token} {q : List Token}

theorem Sealed.ended (h : Sealed line q) : Ended line q := .inr h

theorem Sealed.ne_nil (h : Sealed line q) : q ≠ [] := by
  rintro rfl
  obtain ⟨t, last, -⟩ := h
  simp at last

theorem Sealed.tail (h : Sealed line (t :: q)) : Ended line q := by
  cases q with
  | nil => exact .inl rfl
  | cons u us =>
    obtain ⟨last, same, good⟩ := h
    exact .inr ⟨last, by rwa [List.getLast?_cons_cons] at same, good⟩

theorem Sealed.exists_cons (h : Sealed line q) : ∃ t rest, q = t :: rest :=
  List.exists_cons_of_ne_nil h.ne_nil

/-- Only a semicolon can be all that is left. -/
theorem Sealed.semicolon (h : Sealed line [t]) : t.kind = .semicolon := by
  obtain ⟨last, same, ends, -⟩ := h
  cases same
  exact ends

theorem Sealed.tail_sealed (h : Sealed line (t :: q))
    (other : t.kind ≠ .semicolon) : Sealed line q := by
  rcases h.tail with rfl | sealed
  · exact absurd h.semicolon other
  · exact sealed

theorem Ended.cons (h : Ended line (t :: q)) : Sealed line (t :: q) := by
  rcases h with none_left | sealed
  · simp at none_left
  · exact sealed

theorem Ended.tail (h : Ended line (t :: q)) : Ended line q := h.cons.tail

theorem Sealed.of_suffix (h : Sealed line q) {q' : List Token}
    (tail : q' <:+ q) : Ended line q' := by
  obtain ⟨taken, rfl⟩ := tail
  obtain ⟨t, last, good⟩ := h
  cases q' with
  | nil => exact .inl rfl
  | cons u us =>
    have here : (u :: us).getLast? = some ((u :: us).getLast (by simp)) :=
      List.getLast?_eq_some_getLast _
    rw [List.getLast?_append, here] at last
    cases last
    exact .inr ⟨_, here, good⟩

end

/-! ## What is left behind a seam -/

/-- Of what follows the seam only a proper tail is left. -/
def Past (line : UInt32) (left : List Token → List Token) : Prop :=
  ∀ after, Resumes line after → (left after).length < after.length

section
variable {line : UInt32} {left left' : List Token → List Token}

theorem Past.congr (h : Past line left)
    (same : ∀ after, left' after = left after) : Past line left' := by
  intro after resumes
  rw [same]
  exact h after resumes

theorem Past.of_suffix (h : Past line left)
    (within : ∀ after, left' after <:+ left after) : Past line left' := by
  intro after resumes
  exact Nat.lt_of_le_of_lt (within after).length_le (h after resumes)

/-- At the seam itself it is enough to take the name that follows. -/
theorem past_of_name
    (taken : ∀ t rest,
        t.kind = .identifier → t.line = line → left (t :: rest) <:+ rest) :
    Past line left := by
  intro after resumes
  obtain ⟨t, rest, rfl, kind, here⟩ := resumes
  exact Nat.lt_succ_of_le (taken t rest kind here).length_le

end

/-! ## Steps at a seam -/

section
variable {α β : Type} (line : UInt32)

/-- The step ends before the seam, or at it if the condition allows it,
whatever follows. -/
def Settles (step : List Token → Parsed α) (ends : List Token → Prop)
    (q : List Token) : Prop :=
  ∃ value q' log,
    ends q' ∧ ∀ after, step (q ++ after) = ⟨value, q' ++ after, log⟩

/-- The step takes something behind the seam. -/
def Overruns (step : List Token → Parsed α) (q : List Token) : Prop :=
  ∀ after, Resumes line after → (step (q ++ after)).rest.length < after.length

/-- Whether a step runs past the seam, and what it yields if it does not, is
decided before the seam. -/
def Local (step : List Token → Parsed α) (ends : List Token → Prop)
    (q : List Token) : Prop :=
  Settles step ends q ∨ Overruns line step q

variable {line}

theorem Settles.congr {step step' : List Token → Parsed α}
    {ends : List Token → Prop} {q q' : List Token} (h : Settles step ends q')
    (same : ∀ after, step' (q ++ after) = step (q' ++ after)) :
    Settles step' ends q := by
  obtain ⟨value, q'', log, good, reads⟩ := h
  exact ⟨value, q'', log, good, fun after => by rw [same, reads]⟩

theorem Settles.mono {step : List Token → Parsed α}
    {ends ends' : List Token → Prop} {q : List Token} (h : Settles step ends q)
    (weaken : ∀ q', ends q' → ends' q') : Settles step ends' q := by
  obtain ⟨value, q', log, good, reads⟩ := h
  exact ⟨value, q', log, weaken q' good, reads⟩

/-- Only what the step does from this point on matters. -/
theorem Local.congr {step step' : List Token → Parsed α}
    {ends : List Token → Prop} {q q' : List Token} (h : Local line step ends q')
    (same : ∀ after, step' (q ++ after) = step (q' ++ after)) :
    Local line step' ends q := by
  rcases h with settles | overruns
  · exact .inl (settles.congr same)
  · exact .inr (Past.congr overruns fun after => by rw [same])

theorem Parsed.rest_andThen_suffix (p : Parsed α)
    {second : α → List Token → Parsed β}
    (within : ∀ value rest, (second value rest).Within rest) :
    (p.andThen second).rest <:+ p.rest :=
  Parsed.Within.andThen (List.suffix_refl _) within

/-- Steps one after another. The second starts before the seam, or at it if
the first may end there. -/
theorem Local.andThen {first : List Token → Parsed α}
    {second : α → List Token → Parsed β} {ends ends' : List Token → Prop}
    {q : List Token} (h : Local line first ends q)
    (within : ∀ tokens, (first tokens).Within tokens)
    (within' : ∀ value rest, (second value rest).Within rest)
    (weaken : ∀ q', ends q' → ends' q')
    (h' : ∀ value q',
        ends q' → q'.length ≤ q.length → Local line (second value) ends' q') :
    Local line (fun tokens => (first tokens).andThen second) ends' q := by
  rcases h with ⟨value, q', log, good, reads⟩ | overruns
  · cases value with
    | none =>
      refine .inl ⟨none, q', log, weaken q' good, ?_⟩
      intro after
      simp only [reads, Parsed.andThen]
    | some value =>
      have shorter : q'.length ≤ q.length := by
        have all := (within (q ++ [])).length_le
        rw [reads []] at all
        simpa using all
      rcases h' value q' good shorter
          with ⟨result, q'', log', good', reads'⟩ | overruns
      · refine .inl ⟨result, q'', log ++ log', good', ?_⟩
        intro after
        simp only [reads, Parsed.andThen, reads']
      · exact .inr (Past.congr overruns
            fun after => by simp only [reads, Parsed.andThen])
  · exact .inr (Past.of_suffix overruns
        fun after => Parsed.rest_andThen_suffix _ within')

/-- Putting the value into another form afterwards changes nothing. -/
theorem Local.andDone {first : List Token → Parsed α}
    {ends : List Token → Prop} {q : List Token} (h : Local line first ends q)
    (within : ∀ tokens, (first tokens).Within tokens) (form : α → β) :
    Local line (fun tokens =>
          (first tokens).andThen fun value rest => .done (form value) rest)
      ends q :=
  h.andThen within (fun _ _ => Parsed.within_done _ _) (fun _ => id)
    fun value q' good _ => .inl ⟨some (form value), q', [], good, fun _ => rfl⟩

end

/-! ## Single tokens -/

section
variable (stop : Token) {line : UInt32} {q : List Token}

theorem settles_blame (α : Type) (fault : Fault) (h : Sealed line q) :
    Settles (blame stop fault : List Token → Parsed α) (Sealed line) q := by
  obtain ⟨t, q, rfl⟩ := h.exists_cons
  exact ⟨none, t :: q, [fault.report t.location], h, fun after => rfl⟩

theorem local_expect {kind : Token.Kind} (fault : Fault)
    (other : kind ≠ .semicolon) (h : Sealed line q) :
    Local line (expect stop kind fault) (Sealed line) q := by
  obtain ⟨t, q, rfl⟩ := h.exists_cons
  by_cases same : t.kind = kind
  · refine .inl ⟨some t, q, [], h.tail_sealed (by rwa [same]), ?_⟩
    intro after
    rw [List.cons_append, expect_of_kind stop fault same]
  · refine .inl ⟨none, t :: q, [fault.report t.location], h, ?_⟩
    intro after
    exact expect_of_ne stop fault same (q ++ after)

theorem local_expect_semicolon (fault : Fault) (h : Sealed line q) :
    Local line (expect stop .semicolon fault) (Ended line) q := by
  obtain ⟨t, q, rfl⟩ := h.exists_cons
  by_cases same : t.kind = .semicolon
  · refine .inl ⟨some t, q, [], h.tail, ?_⟩
    intro after
    rw [List.cons_append, expect_of_kind stop fault same]
  · refine .inl ⟨none, t :: q, [fault.report t.location], h.ended, ?_⟩
    intro after
    exact expect_of_ne stop fault same (q ++ after)

/-! ## Attributes -/

theorem local_pathTail (h : Sealed line q) :
    ∃ components q', Sealed line q' ∧
      ∀ after, pathTail (q ++ after) = (components, q' ++ after) := by
  fun_induction pathTail q with
  | case1 => exact absurd rfl h.ne_nil
  | case2 t colons =>
    exact absurd rfl (h.tail_sealed (by simp [colons])).ne_nil
  | case3 t colons u us name components rest _ ih =>
    have past :=
      (h.tail_sealed (by simp [colons])).tail_sealed (by simp [name])
    obtain ⟨found, q', sealed, reads⟩ := ih past
    refine ⟨found.map (u.text :: ·), q', sealed, ?_⟩
    intro after
    rw [List.cons_append, List.cons_append, pathTail.eq_def]
    simp [colons, name, reads]
  | case4 t colons u us other =>
    refine ⟨none, u :: us, h.tail_sealed (by simp [colons]), ?_⟩
    intro after
    rw [List.cons_append, List.cons_append, pathTail.eq_def]
    simp [colons, other]
  | case5 t ts other =>
    refine ⟨some [], t :: ts, h, ?_⟩
    intro after
    rw [List.cons_append, pathTail.eq_def]
    simp [other]

/-- Arguments end at a closing parenthesis, or run to the end of
everything. -/
theorem local_argumentTokens (depth : Nat) (h : Ended line q) :
    (∃ inside q', Sealed line q' ∧
        ∀ after, argumentTokens depth (q ++ after) = (inside, q' ++ after)) ∨
    Past line fun after => (argumentTokens depth (q ++ after)).2 := by
  induction q generalizing depth with
  | nil =>
    refine .inr (past_of_name ?_)
    intro t rest kind _
    simpa [argumentTokens, kind] using argumentTokens_suffix depth rest
  | cons t q ih =>
    -- a token that is taken changes the depth and nothing else
    have taken (inner : Nat)
        (step : ∀ after, argumentTokens depth (t :: (q ++ after)) =
              (t :: (argumentTokens inner (q ++ after)).1,
                (argumentTokens inner (q ++ after)).2)) :
        (∃ inside q', Sealed line q' ∧ ∀ after,
              argumentTokens depth (t :: q ++ after) = (inside, q' ++ after)) ∨
        Past line fun after => (argumentTokens depth (t :: q ++ after)).2 := by
      rcases ih inner h.tail with ⟨inside, q', sealed, reads⟩ | overruns
      · exact .inl ⟨t :: inside, q', sealed,
          fun after => by rw [List.cons_append, step, reads]⟩
      · exact .inr (overruns.congr fun after => by rw [List.cons_append, step])
    by_cases opens : t.kind = .lparen
    · exact taken (depth + 1) fun after => by simp [argumentTokens, opens]
    · by_cases closes : t.kind = .rparen
      · cases depth with
        | zero =>
          exact .inl ⟨[], t :: q, h.cons,
            fun after => by simp [argumentTokens, closes]⟩
        | succ outer =>
          exact taken outer fun after => by simp [argumentTokens, closes]
      · exact taken depth fun after => by simp [argumentTokens, opens, closes]

theorem settles_readAttributeName (h : Sealed line q) :
    Settles (readAttributeName stop) (Sealed line) q := by
  obtain ⟨t, q, rfl⟩ := h.exists_cons
  by_cases named : t.kind = .identifier
  · obtain ⟨components, q', sealed, reads⟩ :=
      local_pathTail (h.tail_sealed (by simp [named]))
    cases components with
    | some components =>
      refine ⟨some (Text.join "::" (t.text :: components), t.location), q',
        [], sealed, ?_⟩
      intro after
      simp [readAttributeName, named, reads, Parsed.done]
    | none =>
      obtain ⟨value, q'', log, sealed', blames⟩ :=
        settles_blame stop (Text × Location) .missingAttributeComponent sealed
      exact ⟨value, q'', log, sealed',
        fun after => by simp [readAttributeName, named, reads, blames]⟩
  · obtain ⟨value, q', log, sealed, blames⟩ :=
      settles_blame stop (Text × Location) .missingAttributeName h
    refine ⟨value, q', log, sealed, ?_⟩
    intro after
    rw [← blames]
    simp [readAttributeName, named]

theorem local_readArguments (name : Text) (h : Sealed line q) :
    Local line (readArguments stop name) (Sealed line) q := by
  obtain ⟨t, q, rfl⟩ := h.exists_cons
  by_cases opens : t.kind = .lparen
  · have step (after : List Token) :
        readArguments stop name (t :: q ++ after) =
          (expect stop .rparen (.unbalancedArguments name)
              (argumentTokens 0 (q ++ after)).2).andThen
          fun _ rest =>
            .done (some (argumentTokens 0 (q ++ after)).1) rest := by
      simp [readArguments, opens]
    rcases local_argumentTokens 0 h.tail
        with ⟨inside, q', sealed, reads⟩ | overruns
    · have closing := local_expect stop (.unbalancedArguments name)
        (by decide : Token.Kind.rparen ≠ .semicolon) sealed
      exact (closing.andDone (within_expect stop _ _)
          fun _ => some inside).congr
        fun after => by rw [step, reads]
    · refine .inr (overruns.of_suffix ?_)
      intro after
      rw [step]
      exact (within_expect stop _ _ _).andThen fun _ _ => Parsed.within_done _ _
  · exact .inl ⟨some none, t :: q, [], h,
      fun after => by simp [readArguments, opens, Parsed.done]⟩

theorem local_readAttribute (h : Sealed line q) :
    Local line (readAttribute stop) (Sealed line) q := by
  refine Local.andThen (.inl (settles_readAttributeName stop h))
    (within_readAttributeName stop) ?_ (fun _ => id) ?_
  · exact fun _ _ =>
      (within_readArguments stop _ _).andThen fun _ _ => Parsed.within_done _ _
  · exact fun value q' sealed _ =>
      (local_readArguments stop value.1 sealed).andDone
        (within_readArguments stop _) _

theorem within_readFurther (a : Attribute) (rest : List Token) :
    (readFurther stop a rest).Within rest := by
  unfold readFurther
  split
  · exact List.nil_suffix
  · split
    · exact (within_readAttributeList stop _).trans (List.suffix_cons _ _)
    · exact List.suffix_refl _

theorem local_readAttributeList (h : Sealed line q) :
    Local line (readAttributeList stop) (Sealed line) q := by
  induction hn : q.length using Nat.strongRecOn generalizing q with
  | ind n ih =>
    have first (after : List Token) :=
      Token.startsWith_append .rbracket h.ne_nil after
    -- The seam is no closing bracket, so where the list ends is decided
    -- before it.
    cases closes : Token.startsWith .rbracket q with
    | true =>
      refine .inl ⟨some [], q, [], h, ?_⟩
      intro after
      rw [readAttributeList, if_pos (by rw [first, closes])]
      rfl
    | false =>
      suffices inner :
          Local line (fun tokens =>
                (readAttribute stop tokens).andThen (readFurther stop))
            (Sealed line) q from
        inner.congr
          fun after => readAttributeList_of_open stop (by rw [first, closes])
      refine (local_readAttribute stop h).andThen (within_readAttribute stop)
        (within_readFurther stop) (fun _ => id) fun a q' sealed shorter => ?_
      obtain ⟨c, q', rfl⟩ := sealed.exists_cons
      by_cases comma : c.kind = .comma
      · have further :=
          ih q'.length (by simp only [List.length_cons] at shorter; omega)
            (sealed.tail_sealed (by simp [comma])) rfl
        rcases further with ⟨value, q'', log, good, reads⟩ | overruns
        · refine .inl ⟨value.map ((keepDirective a).1 ++ ·), q'',
            (keepDirective a).2 ++ log, good,
            fun after => ?_⟩
          simp [readFurther, comma, reads]
        · exact .inr
            (Past.congr overruns fun after => by simp [readFurther, comma])
      · refine .inl ⟨some (keepDirective a).1, c :: q', (keepDirective a).2,
          sealed, ?_⟩
        intro after
        simp [readFurther, comma]

theorem local_readGroup (h : Sealed line q) :
    Local line (readGroup stop) (Sealed line) q := by
  refine (local_readAttributeList stop h).andThen
    (within_readAttributeList stop) (fun _ _ => ?_) (fun _ => id) ?_
  · exact (within_expect stop _ _ _).andThen fun _ _ =>
      (within_expect stop _ _ _).andThen fun _ _ => Parsed.within_done _ _
  intro _ _ sealed _
  refine (local_expect stop _ (by decide) sealed).andThen
    (within_expect stop _ _) (fun _ _ => ?_) (fun _ => id) ?_
  · exact (within_expect stop _ _ _).andThen fun _ _ => Parsed.within_done _ _
  intro _ _ sealed _
  exact (local_expect stop _ (by decide) sealed).andDone
    (within_expect stop _ _) _

/-- Nothing but a semicolon is left of a stretch too short to open
attributes. -/
theorem opensAttributes_sealed (h : Sealed line q) (after : List Token) :
    opensAttributes (q ++ after) = opensAttributes q := by
  obtain ⟨a, q, rfl⟩ := h.exists_cons
  cases q with
  | nil => cases after <;> simp [opensAttributes, h.semicolon]
  | cons b q => rfl

theorem local_readAttributes (h : Sealed line q) :
    Local line (readAttributes stop) (Sealed line) q := by
  induction hn : q.length using Nat.strongRecOn generalizing q with
  | ind n ih =>
    cases opens : opensAttributes q with
    | false =>
      refine .inl ⟨some [], q, [], h, ?_⟩
      intro after
      exact readAttributes_of_closed stop
        (by rw [opensAttributes_sealed h, opens])
    | true =>
      obtain ⟨a, b, inside, rfl, ha, hb⟩ :
          ∃ a b inside, q = a :: b :: inside ∧ a.kind = .lbracket ∧
            b.kind = .lbracket := by
        match q, opens with
        | a :: b :: inside, opens =>
          exact ⟨a, b, inside, rfl, by simpa [opensAttributes] using opens⟩
      have sealed := (h.tail_sealed (by simp [ha])).tail_sealed (by simp [hb])
      suffices inner :
          Local line (fun tokens =>
              (readGroup stop tokens).andThen fun group rest =>
                (readAttributes stop rest).andThen fun more rest =>
                  .done (group ++ more) rest)
            (Sealed line) inside from
        inner.congr
          fun after => readAttributes_of_open stop ha hb (inside ++ after)
      refine (local_readGroup stop sealed).andThen (within_readGroup stop)
        (fun _ _ => ?_) (fun _ => id) ?_
      · exact (within_readAttributes stop _).andThen
          fun _ _ => Parsed.within_done _ _
      intro group q' sealed shorter
      have further :=
        ih q'.length (by simp only [List.length_cons] at hn; omega) sealed rfl
      exact further.andDone (within_readAttributes stop) _

/-! ## Template clauses -/

theorem templateParam_append (h : q ≠ []) (after tokens : List Token) :
    templateParam stop (q ++ after) tokens = templateParam stop q tokens := by
  cases q with
  | nil => exact absurd rfl h
  | cons t q => rfl

theorem local_readParams (depth : Int) (taken : List Token) (h : Ended line q) :
    Local line (readParams stop depth taken) (Sealed line) q := by
  induction q generalizing depth taken with
  | nil =>
    refine .inr (past_of_name ?_)
    intro t rest kind _
    have within :=
      within_readParams stop (depth + t.kind.nesting) (taken ++ [t]) rest
    simpa [readParams, kind, Parsed.Within] using within
  | cons t q ih =>
    by_cases closes : depth = 0 ∧ t.kind = .greater
    · have sealed := h.cons.tail_sealed (by simp [closes.2])
      have step (after : List Token) :=
        templateParam_append stop sealed.ne_nil after taken
      cases found : templateParam stop q taken with
      | ok param =>
        refine .inl ⟨some [param], q, [], sealed, ?_⟩
        intro after
        simp [readParams, closes, step, found, Parsed.done]
      | error report =>
        refine .inl ⟨none, q, [report], sealed, ?_⟩
        intro after
        simp [readParams, closes, step, found, Parsed.giveUp]
    · by_cases comma : depth = 0 ∧ t.kind = .comma
      · have sealed := h.cons.tail_sealed (by simp [comma.2])
        have step (after : List Token) :=
          templateParam_append stop sealed.ne_nil after taken
        cases found : templateParam stop q taken with
        | ok param =>
          apply ((ih 0 [] h.tail).andDone (within_readParams stop 0 [])
              fun params => param :: params).congr
          intro after
          simp [readParams, comma, step, found]
        | error report =>
          refine .inl ⟨none, q, [report], sealed, ?_⟩
          intro after
          simp [readParams, comma, step, found, Parsed.giveUp]
      · apply (ih (depth + t.kind.nesting) (taken ++ [t]) h.tail).congr
        intro after
        rw [List.cons_append, readParams, if_neg closes, if_neg comma]

theorem local_readTemplate (h : Sealed line q) :
    Local line (readTemplate stop) (Sealed line) q := by
  obtain ⟨t, q, rfl⟩ := h.exists_cons
  cases word : t.isWord "template" with
  | false =>
    exact .inl ⟨some [], t :: q, [], h,
      fun after => by simp [readTemplate, word, Parsed.done]⟩
  | true =>
    have kind := Token.kind_of_isWord word
    suffices inner :
        Local line (fun tokens =>
            (expect stop .less .missingTemplateList tokens).andThen
              fun _ rest => readParams stop 0 [] rest)
          (Sealed line) q from
      inner.congr fun after => by simp [readTemplate, word]
    refine (local_expect stop _ (by decide)
        (h.tail_sealed (by simp [kind]))).andThen (within_expect stop _ _)
      (fun _ _ => within_readParams stop _ _ _) (fun _ => id) ?_
    exact fun _ _ sealed _ => local_readParams stop 0 [] sealed.ended

/-! ## Heads -/

theorem local_readKeyword (h : Sealed line q) :
    Local line (readKeyword stop) (Sealed line) q := by
  obtain ⟨t, q, rfl⟩ := h.exists_cons
  have past {word : Text} (named : t.isWord word = true) : Sealed line q :=
    h.tail_sealed (by simp [Token.kind_of_isWord named])
  cases isStruct : t.isWord "struct" with
  | true => exact .inl ⟨some false, q, [], past isStruct,
    fun after => by simp [readKeyword, isStruct, Parsed.done]⟩
  | false =>
    cases isClass : t.isWord "class" with
    | true =>
      exact .inl ⟨some true, q, [], past isClass,
        fun after => by simp [readKeyword, isStruct, isClass, Parsed.done]⟩
    | false =>
      refine Or.inl
        ((settles_blame stop Bool (.notADefinition t.text) h).congr ?_)
      intro after
      simp [readKeyword, isStruct, isClass]

theorem local_readHead (h : Sealed line q) :
    Local line (readHead stop) (Sealed line) q := by
  have named {tokens : List Token} :
      (expect stop .identifier .missingMirrorName tokens).Within tokens :=
    within_expect stop _ _ _
  -- Six steps, each of which starts before the seam because the one before it
  -- left the semicolon.
  refine (local_readAttributes stop h).andThen (within_readAttributes stop)
    (fun _ _ => ?_) (fun _ => id) ?_
  · exact (within_readTemplate stop _).andThen
      fun _ _ => (within_readAttributes stop _).andThen fun _ _ =>
      (within_readKeyword stop _).andThen
        fun _ _ => (within_readAttributes stop _).andThen
            fun _ _ => named.andThen fun _ _ => Parsed.within_done _ _
  intro leading _ sealed _
  refine (local_readTemplate stop sealed).andThen (within_readTemplate stop)
    (fun _ _ => ?_) (fun _ => id) ?_
  · exact (within_readAttributes stop _).andThen
      fun _ _ => (within_readKeyword stop _).andThen fun _ _ =>
      (within_readAttributes stop _).andThen
        fun _ _ => named.andThen fun _ _ => Parsed.within_done _ _
  intro templateParams _ sealed _
  refine (local_readAttributes stop sealed).andThen
    (within_readAttributes stop) (fun _ _ => ?_) (fun _ => id) ?_
  · exact (within_readKeyword stop _).andThen
      fun _ _ => (within_readAttributes stop _).andThen fun _ _ =>
      named.andThen fun _ _ => Parsed.within_done _ _
  intro middle _ sealed _
  refine (local_readKeyword stop sealed).andThen (within_readKeyword stop)
    (fun _ _ => ?_) (fun _ => id) ?_
  · exact (within_readAttributes stop _).andThen
      fun _ _ => named.andThen fun _ _ => Parsed.within_done _ _
  intro isClass _ sealed _
  refine (local_readAttributes stop sealed).andThen
    (within_readAttributes stop) (fun _ _ => ?_) (fun _ => id) ?_
  · exact named.andThen fun _ _ => Parsed.within_done _ _
  intro trailing _ sealed _
  exact (local_expect stop _ (by decide) sealed).andDone
    (within_expect stop _ _) _

end
end Decl
end MirrorAdapter
