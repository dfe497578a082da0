import MirrorAdapter.Proofs.Recovery.Isolation

/-!
# What a missing semicolon does to the next definition

Where the semicolon of a definition is missing, the error is noticed at what
follows, and the statement that is skipped from there is the one that follows.
All that is read on is what stands behind it.
-/
namespace MirrorAdapter
namespace Decl

open Grammar (Unterminated)

/-! ## Statements -/

/-- Skipping from its start takes the stretch as a whole, and nothing else. -/
def OneStatement (tokens : List Token) : Prop :=
  ∀ rest, skipStatement 0 (tokens ++ rest) = rest

/-- What neither opens nor closes braces nor ends the statement is skipped. -/
theorem skipStatement_append (depth : Nat) {tokens : List Token}
    (h : ∀ t ∈ tokens,
        t.kind ≠ .lbrace ∧ t.kind ≠ .rbrace ∧ (depth = 0 → t.kind ≠ .semicolon))
    (rest : List Token) :
    skipStatement depth (tokens ++ rest) = skipStatement depth rest := by
  induction tokens with
  | nil => rfl
  | cons t tokens ih =>
    obtain ⟨notOpening, notClosing, notEnding⟩ := h t (by simp)
    have step :
        skipStatement depth (t :: (tokens ++ rest)) =
          skipStatement depth (tokens ++ rest) := by
      rw [skipStatement.eq_def]
      dsimp only
      split
      · contradiction
      · contradiction
      · rename_i ends
        rw [if_neg fun outside => notEnding outside ends]
      · rfl
    rw [List.cons_append, step]
    exact ih fun u hu => h u (.tail _ hu)

/-- A definition is one statement if its only braces are those of its body and
its head has no semicolon. -/
theorem oneStatement_of_braces {front members : List Token}
    {l r semicolon : Token}
    (hfront :
      ∀ t ∈ front, t.kind ≠ .lbrace ∧ t.kind ≠ .rbrace ∧ t.kind ≠ .semicolon)
    (opens : l.kind = .lbrace)
    (hmembers : ∀ t ∈ members, t.kind ≠ .lbrace ∧ t.kind ≠ .rbrace)
    (closes : r.kind = .rbrace) (ends : semicolon.kind = .semicolon) :
    OneStatement (front ++ l :: members ++ [r, semicolon]) := by
  intro rest
  have before :=
    skipStatement_append 0 (fun t ht =>
          ⟨(hfront t ht).1, (hfront t ht).2.1, fun _ => (hfront t ht).2.2⟩)
      (l :: (members ++ r :: semicolon :: rest))
  have inside :=
    skipStatement_append 1
      (fun t ht => ⟨(hmembers t ht).1, (hmembers t ht).2, by simp⟩)
      (r :: semicolon :: rest)
  calc
    skipStatement 0 (front ++ l :: members ++ [r, semicolon] ++ rest) =
      skipStatement 0 (front ++ l :: (members ++ r :: semicolon :: rest)) := by
      simp
    _ = skipStatement 0 (l :: (members ++ r :: semicolon :: rest)) := before
    _ = skipStatement 1 (members ++ r :: semicolon :: rest) := by
      simp [skipStatement, opens]
    _ = skipStatement 1 (r :: semicolon :: rest) := inside
    _ = rest := by
      simp [skipStatement, closes, skipSemicolon, Token.startsWith, ends]

/-! ## The missing semicolon -/

/-- A definition without its semicolon yields an error, and the statement
behind it is skipped with it. -/
theorem run_of_unterminated (stop : Token)
    {definition after : List Token} (h : Unterminated definition)
    (missing : Token.startsWith .semicolon after = false)
    (blocks : List Block) :
    ∃ log, ¬Log.Clean log ∧ Run stop blocks (definition ++ after)
        (.ofLog log) blocks (skipStatement 0 after) := by
  obtain ⟨mirror, log, -, reads⟩ :=
    readMirror_of_unterminated stop h (scopeOf blocks)
  obtain ⟨t, ts, rfl, starts⟩ := h.starts
  have ending :
      expect stop .semicolon .unterminatedMirror after =
        blame stop .unterminatedMirror after := by
    cases after with
    | nil => rfl
    | cons u us =>
      have other : u.kind ≠ .semicolon := by
        simpa [Token.startsWith] using missing
      exact expect_of_ne stop _ other us
  -- All of the definition has been read, so the place to go on from is what
  -- follows it.
  have read := reads after
  rw [ending] at read
  have step :=
    readItem_of_definition stop blocks (ts ++ after)
      (leftToDefinition_of_starts starts)
  rw [List.cons_append] at read
  rw [read] at step
  refine ⟨log ++ [Fault.unterminatedMirror.report (place stop after)], ?_,
    .single step⟩
  rw [Log.clean_append]
  exact fun clean => not_clean_report rfl _ clean.2

theorem EofFree.of_suffix {tokens rest : List Token} (h : EofFree tokens)
    (tail : rest <:+ tokens) : EofFree rest :=
  fun t ht => h t (tail.subset ht)

/-- The mirror type of a definition comes before those of what follows. -/
theorem mirrorsOf_cons (path : Text) {first others : List Token}
    (h : Grammar.Mirror first) (free : EofFree (first ++ others)) :
    ∃ mirror,
      mirrorsOf path (first ++ others) = mirror :: mirrorsOf path others := by
  obtain ⟨mirror, log, -, runs⟩ := run_of_mirror (noEnd path) h []
  refine ⟨mirror, ?_⟩
  have whole := (runs others).readItems
  simp [mirrorsOf, readTokens_of_eofFree path free,
    readTokens_of_eofFree path (free.of_suffix (List.suffix_append _ _)), whole]

/-- Between stretches without errors stands a definition without its
semicolon, and the stretch behind it starts with a definition. There is an
error, and of the stretch behind only what follows its first statement is
read. So its mirror types are all returned iff they are all read from there;
if its first definition is one statement, exactly that one is lost. -/
theorem mirrorsOf_of_unterminated (path : Text)
    (before definition first others : List Token) (freeBefore : EofFree before)
    (free : EofFree definition) (freeAfter : EofFree (first ++ others))
    (cleanBefore : ErrorFree path before)
    (unterminated : Unterminated definition) (mirror : Grammar.Mirror first) :
    ¬ErrorFree path (before ++ definition ++ (first ++ others)) ∧
    ((mirrorsOf path before ++ mirrorsOf path (first ++ others)).Sublist
        (mirrorsOf path (before ++ definition ++ (first ++ others))) ↔
      (mirrorsOf path (first ++ others)).Sublist
        (mirrorsOf path (skipStatement 0 (first ++ others)))) ∧
    (OneStatement first →
      mirrorsOf path (before ++ definition ++ (first ++ others)) =
        mirrorsOf path before ++ mirrorsOf path others ∧ ∃ lost,
        mirrorsOf path (first ++ others) = lost :: mirrorsOf path others) := by
  have missing : Token.startsWith .semicolon (first ++ others) = false := by
    cases mirror with
    | mk good _ =>
      obtain ⟨t, ts, rfl, starts⟩ := good.starts
      simpa [Token.startsWith]
        using (leftToDefinition_of_starts starts).notSemicolon
  obtain ⟨content, clean, mirrors, runs⟩ :=
    passes_of_errorFree freeBefore cleanBefore
  obtain ⟨log, errors, run⟩ :=
    run_of_unterminated (noEnd path) unterminated missing []
  -- What stands before the definition is read as it is alone, the definition
  -- up to its missing semicolon; then a statement is skipped from the start
  -- of what follows.
  have whole := ((runs (definition ++ (first ++ others))).trans run).readItems
  rw [← List.append_assoc] at whole
  have freeAll := (freeBefore.append free).append freeAfter
  have left := freeAfter.of_suffix (skipStatement_suffix 0 (first ++ others))
  have returned :
      mirrorsOf path (before ++ definition ++ (first ++ others)) =
        mirrorsOf path before ++
          mirrorsOf path (skipStatement 0 (first ++ others)) := by
    rw [← mirrors]
    simp only [mirrorsOf, readTokens_of_eofFree path freeAll,
      readTokens_of_eofFree path left, whole]
    simp [Content.ofLog]
  refine ⟨?_, ?_, ?_⟩
  · intro errorFree
    rw [ErrorFree, readTokens_of_eofFree path freeAll, whole] at errorFree
    have all :
        (content ++ Content.ofLog log ++ readItems (noEnd path)
            [] (skipStatement 0 (first ++ others))).log.Clean :=
      errorFree
    simp only [Content.log_append, Log.clean_append] at all
    exact errors all.1.2
  · rw [returned, List.append_sublist_append_left]
  · intro one
    rw [returned, one]
    exact ⟨rfl, mirrorsOf_cons path mirror freeAfter⟩

/-- The shortest definition with a field is derived by the grammar. -/
theorem unterminated_of_field {keyword name l type field semicolon r : Token}
    (word : Grammar.isKeyword keyword) (named : name.kind = .identifier)
    (opens : l.kind = .lbrace) (typed : type.kind = .identifier)
    (other : Grammar.startsOtherMember [type] = false)
    (fieldNamed : field.kind = .identifier)
    (ends : semicolon.kind = .semicolon) (closes : r.kind = .rbrace) :
    Unterminated [keyword, name, l, type, field, semicolon, r] := by
  have unended :
      Grammar.NoneOutside [.semicolon, .rbrace, .equal, .lparen]
        [type, field] := by
    have first :=
      (Grammar.noneOutside_nil [.semicolon, .rbrace, .equal, .lparen]).snoc
        (t := type)
      fun _ => by simp [typed]
    exact first.snoc (t := field) fun _ => by simp [fieldNamed]
  have tokens : Grammar.FieldTokens [type, field] :=
    ⟨by simp, ⟨field, rfl, fieldNamed⟩,
      by simp [Grammar.opensAttributes, typed], other, unended,
      by simp [typed, fieldNamed, Token.Kind.nesting, Token.Kind.isOpener,
        Token.Kind.isCloser]⟩
  have member : Grammar.Member ([] ++ [type, field] ++ [semicolon]) :=
    .field .nil tokens (by simp [Grammar.startsLabel, fieldNamed]) ends
  exact .mk (.mk (.plain .nil) word .nil named) opens (.cons member .nil) closes

/-- A definition without its semicolon. -/
def unterminatedFirst : List Token :=
  beforeEnd (Token.scan "f.mirror" "struct A \x7b int x; \x7d")

/-- The definition on the next line. -/
def terminatedSecond : List Token :=
  beforeEnd (Token.scan "f.mirror" "\nstruct B \x7b int y; \x7d;")

theorem unterminated_unterminatedFirst : Unterminated unterminatedFirst := by
  let place (column : UInt32) : Location := ⟨"f.mirror", 1, column⟩
  have tokens :
      unterminatedFirst =
        [⟨.identifier, "struct", place 1⟩, ⟨.identifier, "A", place 8⟩,
          ⟨.lbrace, "\x7b", place 10⟩, ⟨.identifier, "int", place 12⟩,
          ⟨.identifier, "x", place 16⟩, ⟨.semicolon, ";", place 17⟩,
          ⟨.rbrace, "\x7d", place 19⟩] := by
    decide +kernel
  rw [tokens]
  exact unterminated_of_field (by decide) rfl rfl rfl (by decide) rfl rfl rfl

theorem terminatedSecond_eq :
    terminatedSecond =
      let place (column : UInt32) : Location := ⟨"f.mirror", 2, column⟩
      [⟨.identifier, "struct", place 1⟩, ⟨.identifier, "B", place 8⟩] ++
        ⟨.lbrace, "\x7b", place 10⟩ ::
        [⟨.identifier, "int", place 12⟩, ⟨.identifier, "y", place 16⟩,
          ⟨.semicolon, ";", place 17⟩] ++
        [⟨.rbrace, "\x7d", place 19⟩, ⟨.semicolon, ";", place 20⟩] := by
  decide +kernel

theorem mirror_terminatedSecond : Grammar.Mirror terminatedSecond := by
  rw [terminatedSecond_eq]
  exact .mk
    (unterminated_of_field (by decide) rfl rfl rfl (by decide) rfl rfl rfl) rfl

/-- Between neighbours without errors, leaving out the semicolon loses the
second definition and nothing else. -/
theorem terminatedSecond_skipped :
    ¬ErrorFree "f.mirror"
      (sibling ++ unterminatedFirst ++ (terminatedSecond ++ sibling)) ∧
    mirrorsOf "f.mirror"
      (sibling ++ unterminatedFirst ++ (terminatedSecond ++ sibling)) =
      mirrorsOf "f.mirror" sibling ++ mirrorsOf "f.mirror" sibling := by
  have one : OneStatement terminatedSecond := by
    rw [terminatedSecond_eq]
    exact oneStatement_of_braces (by decide) rfl (by decide) rfl rfl
  have lost :=
    mirrorsOf_of_unterminated "f.mirror" sibling unterminatedFirst
      terminatedSecond sibling (by decide +kernel) (by decide +kernel)
      (by decide +kernel) (by decide +kernel) unterminated_unterminatedFirst
      mirror_terminatedSecond
  exact ⟨lost.1, (lost.2.2 one).1⟩

/-- Without the semicolon of the first definition the second is lost, though
it has no error. -/
theorem terminatedSecond_lost :
    Unterminated unterminatedFirst ∧ Grammar.Mirror terminatedSecond ∧
    EofFree unterminatedFirst ∧ EofFree terminatedSecond ∧
    ErrorFree "f.mirror" terminatedSecond ∧
    unterminatedFirst ++ terminatedSecond = beforeEnd (Token.scan "f.mirror"
          "struct A \x7b int x; \x7d\nstruct B \x7b int y; \x7d;") ∧
    (mirrorsOf "f.mirror" terminatedSecond).length = 1 ∧
    mirrorsOf "f.mirror" (unterminatedFirst ++ terminatedSecond) = [] :=
  ⟨unterminated_unterminatedFirst, mirror_terminatedSecond,
    by decide +kernel, by decide +kernel, by decide +kernel,
    by decide +kernel, by decide +kernel, by decide +kernel⟩

end Decl
end MirrorAdapter
