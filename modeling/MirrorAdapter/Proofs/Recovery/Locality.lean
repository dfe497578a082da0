import MirrorAdapter.Proofs.Grammar.File
import MirrorAdapter.Proofs.Recovery.Seam

/-!
# Runs across a seam

Skipping, members, definitions and whole items decide before a seam whether
they run past it, as the steps they are made of do. So does every run, and one
that ends at the seam ends there whatever follows.
-/
namespace MirrorAdapter
namespace Decl

open Grammar (startsLabel)

section
variable (stop : Token) {line : UInt32} {q : List Token}

/-! ## Skipping -/

/-- A statement that is skipped may end at the seam. -/
theorem local_skipStatement (depth : Nat) (h : Ended line q) :
    (∃ q', Ended line q' ∧ q'.length ≤ q.length ∧
        ∀ after, skipStatement depth (q ++ after) = q' ++ after) ∨
    Past line fun after => skipStatement depth (q ++ after) := by
  induction q generalizing depth with
  | nil =>
    refine .inr (past_of_name ?_)
    intro t rest kind _
    rw [List.nil_append, skipStatement.eq_def]
    simp only [kind]
    exact skipStatement_suffix depth rest
  | cons t q ih =>
    -- a token that is skipped changes the depth and nothing else
    have skipped (inner : Nat)
        (step : ∀ after, skipStatement depth (t :: (q ++ after)) =
              skipStatement inner (q ++ after)) :
        (∃ q', Ended line q' ∧ q'.length ≤ (t :: q).length ∧
            ∀ after, skipStatement depth (t :: q ++ after) = q' ++ after) ∨
        Past line fun after => skipStatement depth (t :: q ++ after) := by
      rcases ih inner h.tail with ⟨q', ended, shorter, skips⟩ | overruns
      · exact .inl ⟨q', ended, Nat.le_succ_of_le shorter,
          fun after => by rw [List.cons_append, step, skips]⟩
      · exact .inr (overruns.congr fun after => by rw [List.cons_append, step])
    by_cases opens : t.kind = .lbrace
    · exact skipped (depth + 1) fun after => by simp [skipStatement, opens]
    by_cases closes : t.kind = .rbrace
    · cases depth with
      | zero =>
        exact .inl ⟨t :: q, h, Nat.le_refl _,
          fun after => by simp [skipStatement, closes]⟩
      | succ depth =>
        cases depth with
        | zero =>
          -- The last brace closes: a semicolon behind it belongs to the
          -- statement.
          have sealed := h.cons.tail_sealed (by simp [closes])
          obtain ⟨u, q, rfl⟩ := sealed.exists_cons
          by_cases ends : u.kind = .semicolon
          · refine .inl
              ⟨q, sealed.tail, by simp only [List.length_cons]; omega, ?_⟩
            intro after
            simp [skipStatement, closes, skipSemicolon, Token.startsWith, ends]
          · refine .inl ⟨u :: q, sealed.ended, by simp, ?_⟩
            intro after
            simp [skipStatement, closes, skipSemicolon, Token.startsWith, ends]
        | succ outer =>
          exact skipped (outer + 1) fun after => by simp [skipStatement, closes]
    by_cases ends : t.kind = .semicolon
    · cases depth with
      | zero =>
        exact .inl
          ⟨q, h.tail, by simp, fun after => by simp [skipStatement, ends]⟩
      | succ depth =>
        exact skipped (depth + 1) fun after => by simp [skipStatement, ends]
    · apply skipped depth
      intro after
      rw [skipStatement.eq_def]
      dsimp only
      split <;> first | contradiction | rfl

/-! ## Members -/

/-- A field ends at a mark, or runs to the end of everything. -/
theorem local_fieldTokens (depth : Int) (h : Ended line q) :
    (∃ inside q', Sealed line q' ∧ q'.length ≤ q.length ∧
      ∀ after, fieldTokens depth (q ++ after) = (inside, q' ++ after)) ∨
      Past line fun after => (fieldTokens depth (q ++ after)).2 := by
  induction q generalizing depth with
  | nil =>
    refine .inr (past_of_name ?_)
    intro t rest kind _
    have within := fieldTokens_suffix (depth + t.kind.nesting) rest
    simpa [fieldTokens, kind, endsField] using within
  | cons t q ih =>
    by_cases ends : depth = 0 ∧ endsField t.kind = true
    · refine .inl ⟨[], t :: q, h.cons, Nat.le_refl _, ?_⟩
      intro after
      rw [List.cons_append, fieldTokens, if_pos ends]
    · have step (after : List Token) : fieldTokens depth (t :: q ++ after) =
          (t :: (fieldTokens (depth + t.kind.nesting) (q ++ after)).1,
            (fieldTokens (depth + t.kind.nesting) (q ++ after)).2) := by
        rw [List.cons_append, fieldTokens, if_neg ends]
      rcases ih (depth + t.kind.nesting) h.tail
          with ⟨inside, q', sealed, shorter, reads⟩ | overruns
      · exact .inl ⟨t :: inside, q', sealed, Nat.le_succ_of_le shorter,
          fun after => by rw [step, reads]⟩
      · exact .inr (overruns.congr fun after => by rw [step])

/-- What is made of the tokens of a field that ends as a field does. -/
def keepField (attributes : List Attribute) (inside : List Token)
    (start : Location) (rest : List Token) : Parsed Field :=
  match fieldOf attributes inside with
  | .ok field => .done field rest
  | .error fault => .giveUp rest (fault.report start)

theorem local_readPlainField (attributes : List Attribute) (h : Sealed line q) :
    Local line (readPlainField stop attributes) (Ended line) q := by
  have here (after : List Token) : place stop (q ++ after) = place stop q := by
    obtain ⟨t, q, rfl⟩ := h.exists_cons
    rfl
  rcases local_fieldTokens 0 h.ended
      with ⟨inside, q', sealed, shorter, reads⟩ | overruns
  · have step (after : List Token) :
        readPlainField stop attributes (q ++ after) =
        if Token.startsWith .equal q' then blame stop .initializer (q' ++ after)
        else if Token.startsWith .lparen q' then
          blame stop .notADataField (q' ++ after)
        else
          (expect stop .semicolon .unterminatedField (q' ++ after)).andThen
            fun _ rest =>
              keepField attributes inside (place stop q) rest := by
      simp only [readPlainField, reads,
        Token.startsWith_append _ sealed.ne_nil, here]
      rfl
    cases initialized : Token.startsWith .equal q' with
    | true =>
      refine Or.inl
        (((settles_blame stop Field .initializer sealed).mono
          fun _ => Sealed.ended).congr fun after => ?_)
      simp [step, initialized]
    | false =>
      cases call : Token.startsWith .lparen q' with
      | true =>
        refine Or.inl
          (((settles_blame stop Field .notADataField sealed).mono
            fun _ => Sealed.ended).congr fun after => ?_)
        simp [step, initialized, call]
      | false =>
        suffices inner :
            Local line (fun tokens =>
                (expect stop .semicolon .unterminatedField tokens).andThen
                  fun _ rest => keepField attributes inside (place stop q) rest)
              (Ended line) q' from
          inner.congr fun after => by simp [step, initialized, call]
        refine (local_expect_semicolon stop _ sealed).andThen
          (within_expect stop _ _) (fun _ _ => ?_) (fun _ => id) ?_
        · unfold keepField
          split
          · exact Parsed.within_done _ _
          · exact Parsed.within_giveUp _ _
        intro _ q'' ended _
        apply Or.inl
        unfold keepField
        split
        · exact ⟨_, q'', [], ended, fun _ => rfl⟩
        · exact ⟨none, q'', [_], ended, fun _ => rfl⟩
  · refine .inr (overruns.of_suffix ?_)
    intro after
    unfold readPlainField
    dsimp only
    split
    · exact within_blame stop _ _
    · split
      · exact within_blame stop _ _
      · refine (within_expect stop _ _ _).andThen fun _ _ => ?_
        split
        · exact Parsed.within_done _ _
        · exact Parsed.within_giveUp _ _

theorem local_readField (h : Sealed line q) :
    Local line (readField stop) (Ended line) q :=
  (local_readAttributes stop h).andThen (within_readAttributes stop)
    (fun _ => within_readPlainField stop _) (fun _ => Sealed.ended)
    fun _ _ sealed _ => local_readPlainField stop _ sealed

/-! ## Bodies -/

/-- Reading a body takes something unless it starts with the closing brace. -/
theorem readBody_length_lt {t : Token}
    (other : t.kind ≠ .rbrace) (ts : List Token) :
    (readBody stop (t :: ts)).rest.length < (t :: ts).length := by
  have within (rest : List Token) :
      (readBody stop rest).rest.length ≤ rest.length :=
    (readBody_suffix stop rest).length_le
  have past := length_tail_lt ts
  rw [readBody_cons, if_neg other]
  split
  · have := within ts.tail
    split <;> simp only [Body.spoiled, List.length_cons] <;> omega
  · split
    · rename_i field rest log found
      have := readField_length_lt stop found
      have := within rest
      simp only [Body.withField, List.length_cons] at *
      omega
    · rename_i rest log found
      have whole := within_readField stop (t :: ts)
      rw [found] at whole
      exact Nat.lt_of_le_of_lt (within (skipStatement 0 rest))
        (skipStatement_within_lt other whole)

/-- Nothing but a semicolon is left of a stretch too short for a label. -/
theorem startsLabel_sealed {t : Token}
    (h : Sealed line (t :: q)) (after : List Token) :
    startsLabel (t :: (q ++ after)) = startsLabel (t :: q) := by
  rw [Grammar.startsLabel_cons, Grammar.startsLabel_cons]
  rcases h.tail with rfl | sealed
  · have noWord (word : Text) : t.isWord word = false := by
      simp [Token.isWord, h.semicolon]
    simp [noWord]
  · rw [Token.startsWith_append _ sealed.ne_nil]

/-- A body ends before the seam, and what it yields is decided there, or it
runs past the seam. -/
def LocalBody (line : UInt32) (q : List Token) : Prop :=
  (∃ fields sound q' log, Sealed line q' ∧
    ∀ after, readBody stop (q ++ after) = ⟨fields, sound, q' ++ after, log⟩) ∨
    Past line fun after => (readBody stop (q ++ after)).rest

/-- What a member contributes does not depend on the members after it. -/
theorem LocalBody.cons {q' : List Token} (h : LocalBody stop line q')
    (withFields : List Field → List Field) (withSound : Bool → Bool) (log : Log)
    (step : ∀ after, readBody stop (q ++ after) =
          ⟨withFields (readBody stop (q' ++ after)).fields,
            withSound (readBody stop (q' ++ after)).sound,
            (readBody stop (q' ++ after)).rest,
            log ++ (readBody stop (q' ++ after)).log⟩) :
    LocalBody stop line q := by
  rcases h with ⟨fields, sound, q'', log', sealed, reads⟩ | overruns
  · exact .inl ⟨withFields fields, withSound sound, q'', log ++ log',
      sealed, fun after => by rw [step, reads]⟩
  · exact .inr (overruns.congr fun after => by rw [step])

/-- Behind a label the body goes on with its second token. -/
theorem LocalBody.label {t : Token} (sealed : Sealed line (t :: q))
    (other : t.kind ≠ .rbrace) (label : startsLabel (t :: q) = true)
    (inner : ∀ q',
        Ended line q' → q'.length < (t :: q).length → LocalBody stop line q') :
    LocalBody stop line (t :: q) := by
  have step (after : List Token) := readBody_cons stop t (q ++ after)
  simp only [other, if_false, startsLabel_sealed sealed, label, if_true] at step
  obtain ⟨colon, q, rfl⟩ : ∃ colon rest, q = colon :: rest := by
    cases q with
    | nil => simp [startsLabel] at label
    | cons colon rest => exact ⟨colon, rest, rfl⟩
  simp only [List.cons_append, List.tail_cons] at step
  have further :=
    inner q sealed.tail.tail (by simp only [List.length_cons]; omega)
  cases named : t.isWord "public" with
  | true =>
    exact further.cons stop id id [] fun after => by simp [step, named]
  | false =>
    apply further.cons stop id (fun _ => false)
      [Fault.notPublic.report t.location]
    intro after
    simp [step, named, Body.spoiled]

/-- Behind a field the body goes on where the field ended or, if it is
malformed, where skipping it ended. -/
theorem LocalBody.field {t : Token} (sealed : Sealed line (t :: q))
    (other : t.kind ≠ .rbrace) (label : startsLabel (t :: q) = false)
    (inner : ∀ q',
        Ended line q' → q'.length < (t :: q).length → LocalBody stop line q') :
    LocalBody stop line (t :: q) := by
  have step (after : List Token) := readBody_cons stop t (q ++ after)
  simp only [other, if_false, startsLabel_sealed sealed,
    label, Bool.false_eq_true]
    at step
  have whole := within_readField stop (t :: q ++ [])
  rcases local_readField stop sealed
      with ⟨value, q', log, ended, reads⟩ | overruns
  · have read (after : List Token) :
        readField stop (t :: (q ++ after)) = ⟨value, q' ++ after, log⟩ :=
      reads after
    cases value with
    | some field =>
      have shorter := readField_length_lt stop (reads [])
      apply (inner q' ended (by simpa using shorter)).cons stop
        (field :: ·) id log
      intro after
      simp [step, read, Body.withField]
    | none =>
      rcases local_skipStatement 0 ended with ⟨q'', ended', -, skips⟩ | past
      · have shorter : q''.length < (t :: q).length := by
          rw [reads []] at whole
          have lt := skipStatement_within_lt other whole
          rw [skips []] at lt
          simpa using lt
        apply (inner q'' ended' shorter).cons stop id (fun _ => false) log
        intro after
        simp [step, read, skips, Body.spoiled]
      · refine .inr (past.of_suffix ?_)
        intro after
        rw [List.cons_append, step, read]
        exact readBody_suffix stop _
  · refine .inr (Past.of_suffix overruns ?_)
    intro after
    rw [List.cons_append, step]
    split <;> rename_i found <;> simp only [found]
    · exact readBody_suffix stop _
    · exact (readBody_suffix stop _).trans (skipStatement_suffix 0 _)

theorem local_readBody (h : Ended line q) : LocalBody stop line q := by
  -- By the length of what is left before the seam: behind a malformed member
  -- it is what skipping leaves, which is no tail of the list in the sense of
  -- its constructors.
  induction hn : q.length using Nat.strongRecOn generalizing q with
  | ind n ih =>
    cases q with
    | nil =>
      apply Or.inr
      intro after resumes
      obtain ⟨t, rest, rfl, kind, -⟩ := resumes
      exact readBody_length_lt stop (by simp [kind]) rest
    | cons t q =>
      have inner (q' : List Token) (ended : Ended line q')
          (shorter : q'.length < (t :: q).length) :
          LocalBody stop line q' :=
        ih q'.length (by omega) ended rfl
      by_cases closes : t.kind = .rbrace
      · refine .inl ⟨[], true, t :: q, [], h.cons, ?_⟩
        intro after
        rw [List.cons_append, readBody_cons, if_pos closes]
      cases label : startsLabel (t :: q) with
      | true => exact .label stop h.cons closes label inner
      | false => exact .field stop h.cons closes label inner

/-! ## Definitions -/

/-- A definition ends before the seam or at it, and what comes of it is
decided there, or it runs past the seam. -/
theorem local_readDefinition (scope : List Text)
    (head : Head) (h : Sealed line q) :
    (∃ mirror complete q' log, Ended line q' ∧
        ∀ after, readDefinition stop scope head (q ++ after) =
            ⟨mirror, complete, q' ++ after, log⟩) ∨
    Past line
      fun after => (readDefinition stop scope head (q ++ after)).rest := by
  obtain ⟨t, q, rfl⟩ := h.exists_cons
  by_cases opens : t.kind = .lbrace
  · have step (after : List Token) :
        readDefinition stop scope head (t :: q ++ after) =
          finish stop scope head (readBody stop (q ++ after)) := by
      simp [readDefinition, opens]
    rcases local_readBody stop h.tail
        with ⟨fields, sound, q', log, sealed, reads⟩ | overruns
    · have closing :
          Local line (fun tokens =>
              (expect stop .rbrace .unclosedBody tokens).andThen fun _ rest =>
                expect stop .semicolon .unterminatedMirror rest)
            (Ended line) q' :=
        (local_expect stop _ (by decide) sealed).andThen
          (within_expect stop _ _)
          (fun _ _ => within_expect stop _ _ _) (fun _ => Sealed.ended)
          fun _ _ sealed _ => local_expect_semicolon stop _ sealed
      rcases closing with ⟨value, q'', log', ended, ends⟩ | past
      · let mirror : Mirror :=
          ⟨head.name, head.location, scope, head.isClass,
            head.templateParams, head.attributes, fields⟩
        refine .inl ⟨if value.isSome && sound then some mirror else none,
          value.isSome, q'', log ++ log', ended, ?_⟩
        intro after
        have closed := ends after
        rw [step, reads]
        simp only at closed
        simp only [finish, closed, mirror]
      · refine .inr (Past.congr past ?_)
        intro after
        rw [step, reads]
        rfl
    · refine .inr (overruns.of_suffix ?_)
      intro after
      rw [step]
      exact finish_suffix stop _ _ _
  by_cases ends : t.kind = .semicolon
  · exact .inl ⟨none, true, q, _, h.tail,
      fun after => by simp only [List.cons_append, readDefinition, ends]; rfl⟩
  by_cases colon : t.kind = .colon
  · exact .inl ⟨none, false, t :: q, _, h.ended,
      fun after => by simp only [List.cons_append, readDefinition, colon]; rfl⟩
  · refine .inl ⟨none, false, t :: q, [Fault.missingBody.report t.location],
      h.ended, ?_⟩
    intro after
    rw [List.cons_append, readDefinition]
    split <;> first | contradiction | rfl

/-- What comes of a definition, and where reading goes on after it. -/
theorem local_readMirror (scope : List Text) (h : Sealed line q) :
    (∃ content q', Ended line q' ∧
        ∀ after, (readMirror stop scope (q ++ after)).content = content ∧
          (readMirror stop scope (q ++ after)).next = q' ++ after) ∨
    Past line fun after => (readMirror stop scope (q ++ after)).next := by
  -- a definition that was left before the seam is skipped from there
  have settled {mirror : Option Mirror} {complete : Bool}
      {q' : List Token} {log : Log} (ended : Ended line q')
      (reads : ∀ after, readMirror stop scope (q ++ after) =
            ⟨mirror, complete, q' ++ after, log⟩) :
      (∃ content q', Ended line q' ∧
          ∀ after, (readMirror stop scope (q ++ after)).content = content ∧
            (readMirror stop scope (q ++ after)).next = q' ++ after) ∨
      Past line fun after => (readMirror stop scope (q ++ after)).next := by
    cases complete with
    | true =>
      refine .inl ⟨{ mirrors := mirror.toList, log }, q', ended, ?_⟩
      intro after
      simp [reads, Definition.content, Definition.next]
    | false =>
      rcases local_skipStatement 0 ended with ⟨q'', ended', -, skips⟩ | past
      · refine .inl ⟨{ mirrors := mirror.toList, log }, q'', ended', ?_⟩
        intro after
        simp [reads, Definition.content, Definition.next, skips]
      · exact .inr (past.congr fun after => by simp [reads, Definition.next])
  have overrun
      (past :
        Past line fun after => (readMirror stop scope (q ++ after)).rest) :
      Past line fun after => (readMirror stop scope (q ++ after)).next :=
    past.of_suffix fun after => Definition.next_suffix _
  rcases local_readHead stop h with ⟨value, q', log, sealed, reads⟩ | past
  · cases value with
    | none =>
      exact settled sealed.ended
        fun after => by simp only [readMirror, reads]; rfl
    | some head =>
      rcases local_readDefinition stop scope head sealed with
        ⟨mirror, complete, q'', log', ended, reads'⟩ | past
      · exact settled ended
          fun after => by simp only [readMirror, reads, reads']; rfl
      · exact .inr
          (overrun (past.congr fun after => by simp only [readMirror, reads]))
  · refine .inr (overrun (Past.of_suffix past ?_))
    intro after
    unfold readMirror
    split <;> rename_i found <;> simp only [found]
    · exact List.suffix_refl _
    · exact readDefinition_suffix stop _ _ _

/-! ## Include lines -/

/-- Tokens of the semicolon's line that are dropped run past the seam, if
those of the line behind it are dropped too. -/
theorem local_dropWhile (h : Sealed line q) (p : Token → Bool)
    (same : ∀ s t : Token, s.kind = .semicolon → s.line = line →
        t.kind = .identifier → t.line = line → p s → p t) :
    (∃ u q', Sealed line (u :: q') ∧ p u = false ∧
        ∀ after, (q ++ after).dropWhile p = u :: (q' ++ after) ∧
          (q ++ after).takeWhile p = q.takeWhile p) ∨
    Past line fun after => (q ++ after).dropWhile p := by
  cases left : q.dropWhile p with
  | nil =>
    refine .inr (past_of_name ?_)
    intro t rest kind here
    obtain ⟨s, last, ends, there⟩ := h
    have all := List.takeWhile_append_dropWhile (p := p) (l := q)
    rw [left, List.append_nil] at all
    have dropped : ∀ u ∈ q, p u = true := by
      rw [← all]
      exact List.all_eq_true.mp List.all_takeWhile
    have first : p t = true :=
      same s t ends there kind here (dropped s (List.mem_of_getLast? last))
    rw [List.dropWhile_append_of_pos dropped, List.dropWhile_cons_of_pos first]
    exact List.dropWhile_suffix p
  | cons u q' =>
    have tail : u :: q' <:+ q := left ▸ List.dropWhile_suffix p
    have kept : p u = false := by
      simpa [left] using List.head?_dropWhile_not p q
    refine .inl ⟨u, q', (h.of_suffix tail).cons, kept, ?_⟩
    intro after
    have short : (q.takeWhile p).length ≠ q.length := by
      have whole :=
        congrArg List.length (List.takeWhile_append_dropWhile (p := p) (l := q))
      rw [left, List.length_append, List.length_cons] at whole
      omega
    rw [List.dropWhile_append, List.takeWhile_append, if_neg short, left]
    simp

/-- The rest of a line is skipped up to a token of another line, or past the
seam. -/
theorem local_skipLine (h : Sealed line q)
    (here : UInt32) (report : Diagnostic) :
    Local line (fun tokens =>
          (.giveUp (tokens.dropWhile (·.line == here)) report : Parsed Include))
      (Sealed line) q := by
  have dropped :=
    local_dropWhile h (·.line == here) fun s t _ on _ on' same => by
    simp only [beq_iff_eq] at same ⊢
    rw [on', ← on, same]
  rcases dropped with ⟨u, q', sealed, -, drops⟩ | past
  · exact .inl ⟨none, u :: q', [report], sealed,
      fun after => by simp [Parsed.giveUp, (drops after).1]⟩
  · exact .inr past

theorem local_readTarget (hash : Location) (here : UInt32) (h : Sealed line q) :
    Local line (readTarget hash here) (Sealed line) q := by
  obtain ⟨t, q, rfl⟩ := h.exists_cons
  by_cases string : t.kind = .string ∧ t.line = here
  · refine .inl ⟨some ⟨"\"" ++ t.text ++ "\"", hash⟩, q, [],
      h.tail_sealed (by simp [string.1]),
      fun after => ?_⟩
    rw [List.cons_append, readTarget, if_pos string]
    rfl
  · by_cases opens : t.kind = .less ∧ t.line = here
    · have sealed := h.tail_sealed (by simp [opens.1])
      have step (after : List Token) :=
        readTarget_angle hash opens.1 opens.2 (q ++ after)
      have dropped :=
        local_dropWhile sealed (inTarget here)
          fun s t _ on kind on' inside => by
        rw [inTarget_iff] at inside ⊢
        exact ⟨by rw [on', ← on, inside.1], by simp [kind]⟩
      rcases dropped with ⟨r, q', sealed', kept, drops⟩ | past
      · by_cases same : r.line = here
        · have closes : r.kind = .greater := by
            simpa [inTarget, same] using kept
          refine .inl
            ⟨some ⟨t.text ++
              (q.takeWhile (inTarget here)).flatMap Token.text ++ r.text, hash⟩,
              q', [], sealed'.tail_sealed (by simp [closes]), fun after => ?_⟩
          rw [List.cons_append, step, (drops after).1, (drops after).2]
          simp [same, Parsed.done]
        · refine .inl ⟨none, r :: q',
            [Fault.unterminatedTarget.report hash], sealed', ?_⟩
          intro after
          rw [List.cons_append, step, (drops after).1]
          simp [same, Parsed.giveUp]
      · refine .inr (past.of_suffix ?_)
        intro after
        rw [List.cons_append, step]
        split <;> rename_i found <;> simp only [found]
        · exact List.nil_suffix
        · split
          · exact List.suffix_cons _ _
          · exact List.suffix_refl _
    · have step (after : List Token) :
          readTarget hash here (t :: q ++ after) =
            .giveUp ((t :: q ++ after).dropWhile (·.line == here))
              (Fault.missingTarget.report hash) := by
        rw [List.cons_append, readTarget, if_neg string, if_neg opens]
      exact (local_skipLine h here _).congr step

theorem local_readInclude (hash : Location) (h : Sealed line q) :
    Local line (readInclude stop hash) (Sealed line) q := by
  obtain ⟨t, q, rfl⟩ := h.exists_cons
  cases named : t.isWord "include" with
  | true =>
    have kind := Token.kind_of_isWord named
    apply (local_readTarget hash t.line (h.tail_sealed (by simp [kind]))).congr
    intro after
    simp [readInclude, named]
  | false =>
    apply (local_skipLine h hash.line
        (Fault.notAnInclude.report t.location)).congr
    intro after
    simp [readInclude, named]

/-! ## Openings of namespace blocks -/

theorem local_readNamespace (h : Sealed line q) :
    Local line (readNamespace stop) (Sealed line) q := by
  refine (local_expect stop _ (by decide) h).andThen (within_expect stop _ _)
    (fun _ rest => ?_) (fun _ => id) ?_
  · have tail := pathTail_suffix rest
    split <;> rename_i found <;> rw [found] at tail
    · exact (within_blame stop _ _).trans tail
    · exact ((within_expect stop _ _ _).andThen
          fun _ _ => Parsed.within_done _ _).trans tail
  intro first q' sealed _
  obtain ⟨components, q'', sealed', reads⟩ := local_pathTail sealed
  cases components with
  | none =>
    refine Or.inl
      ((settles_blame stop (List Text) .missingNamespaceName sealed').congr ?_)
    intro after
    simp only [reads]
  | some components =>
    have opens :=
      local_expect stop .missingNamespaceBrace
        (by decide : Token.Kind.lbrace ≠ .semicolon) sealed'
    apply (opens.andDone (within_expect stop _ _)
        fun _ => first.text :: components).congr
    intro after
    simp only [reads]

/-! ## Items and runs -/

/-- An item ends before the seam or at it, and what it contributes is decided
there, or it runs past the seam. -/
theorem local_readItem (blocks : List Block)
    {t : Token} (h : Sealed line (t :: q)) :
    (∃ step blocks' q', Ended line q' ∧ ∀ after,
          readItem stop blocks t (q ++ after) = ⟨step, blocks', q' ++ after⟩) ∨
    Past line fun after => (readItem stop blocks t (q ++ after)).rest := by
  obtain closes | hash | named | ends | other := item_cases t
  · have step (after : List Token) :=
      readItem_of_rbrace stop blocks (q ++ after) closes
    cases blocks with
    | nil => exact .inl ⟨_, [], q, h.tail, step⟩
    | cons block outer => exact .inl ⟨_, outer, q, h.tail, step⟩
  · have step (after : List Token) :=
      readItem_of_hash stop blocks (q ++ after) hash
    rcases local_readInclude stop t.location
        (h.tail_sealed (by simp [hash])) with
      ⟨value, q', log, sealed, reads⟩ | past
    · refine .inl ⟨includeContent blocks ⟨value, [], log⟩, blocks, q',
        sealed.ended, ?_⟩
      intro after
      rw [step, reads]
      rfl
    · exact .inr (Past.congr past fun after => by rw [step])
  · have step (after : List Token) :=
      readItem_of_namespace stop blocks (q ++ after) named
    rcases local_readNamespace stop
        (h.tail_sealed (by simp [Token.kind_of_isWord named])) with
      ⟨value, q', log, sealed, reads⟩ | past
    · simp only [reads] at step
      cases value with
      | some components => exact .inl ⟨_, _, q', sealed.ended, step⟩
      | none =>
        rcases local_skipStatement 0 sealed.ended
            with ⟨q'', ended, -, skips⟩ | past
        · simp only [skips] at step
          exact .inl ⟨_, _, q'', ended, step⟩
        · exact .inr (past.congr fun after => by rw [step])
    · refine .inr (Past.of_suffix past ?_)
      intro after
      rw [step]
      split <;> rename_i found <;> simp only [found]
      · exact List.suffix_refl _
      · exact skipStatement_suffix 0 _
  · exact .inl ⟨_, blocks, q, h.tail,
      fun after => readItem_of_semicolon stop blocks (q ++ after) ends⟩
  · have step (after : List Token) :=
      readItem_of_definition stop blocks (q ++ after) other
    rcases local_readMirror stop
        (scopeOf blocks) h with ⟨content, q', ended, reads⟩ | past
    · refine .inl ⟨content, blocks, q', ended, ?_⟩
      intro after
      have read := reads after
      rw [List.cons_append] at read
      rw [step, read.1, read.2]
    · exact .inr (past.congr fun after => by simp [step])

variable {stop}

/-- A run that ends at the seam ends there whatever follows, with the same
content. -/
theorem Run.at_seam {blocks blocks' : List Block} {tokens after : List Token}
    {content : Content} (h : Run stop blocks tokens content blocks' after)
    (whole : tokens = q ++ after) (ended : Ended line q)
    (resumes : Resumes line after) (rest : List Token) :
    Run stop blocks (q ++ rest) content blocks' rest := by
  induction h generalizing q with
  | refl blocks tokens =>
    have none_left : q = [] := by simpa using whole
    subst none_left
    exact .refl blocks rest
  | @step blocks t ts content blocks' after run ih =>
    have reached := run.suffix.length_le
    cases q with
    | nil =>
      -- the run is past the seam already
      have within := (readItem_suffix stop blocks ts (t := t)).length_le
      rw [List.nil_append] at whole
      rw [← whole, List.length_cons] at reached
      omega
    | cons u q =>
      simp only [List.cons_append, List.cons.injEq] at whole
      obtain ⟨rfl, rfl⟩ := whole
      -- An item that ran past the seam would leave less than the run still
      -- has to reach.
      rcases local_readItem stop blocks ended.cons
          with ⟨first, inner, q', ended', reads⟩ | past
      · have onwards := ih (by rw [reads]) ended' resumes
        rw [reads] at onwards ⊢
        have all : Run stop blocks (t :: (q ++ rest)) _ blocks' rest :=
          .step (by rw [reads]; exact onwards)
        rwa [reads] at all
      · have left :
            (readItem stop blocks t (q ++ after)).rest.length < after.length :=
          past after resumes
        omega

end
end Decl
end MirrorAdapter
