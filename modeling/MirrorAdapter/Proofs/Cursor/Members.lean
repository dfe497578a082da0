import MirrorAdapter.Proofs.Cursor.Attributes
import MirrorAdapter.Proofs.Grammar.Members

/-!
# Members by position

A field is read the same way by position as from a list. A body is too, since
what skips a malformed member stops where a statement ends, and since a member
that was read or skipped has left at least one token behind.
-/
namespace MirrorAdapter
namespace Decl
namespace Cursor

variable {tokens rest : List Token}

/-! ## One field -/

/-- The tokens of a field up to a mark that may end it. -/
def fieldStep (stop : Token) (depth : Int) (taken tokens : List Token) :
    Parsed (List Token) :=
  let (inside, rest) := fieldTokens depth tokens
  if Token.startsWith .equal rest then Decl.blame stop .initializer rest
  else if Token.startsWith .lparen rest then Decl.blame stop .notADataField rest
  else .done (taken ++ inside) rest

theorem within_fieldStep (stop : Token)
    (depth : Int) (taken tokens : List Token) :
    (fieldStep stop depth taken tokens).Within tokens := by
  have tail := fieldTokens_suffix depth tokens
  unfold fieldStep
  dsimp only
  split
  · exact tail
  · split <;> exact tail

theorem run_fieldFrom {n : Nat} (h : Stands tokens rest)
    (enough : rest.length < n) (depth : Int)
    (taken : List Token) (content : Content) :
    (fieldFrom tokens n depth taken).run (before tokens rest content) =
      some ((fieldStep (endMark tokens) depth taken rest).value,
        before tokens (fieldStep (endMark tokens) depth taken rest).rest
          (content ++
            .ofLog (fieldStep (endMark tokens) depth taken rest).log)) := by
  unfold fieldStep
  fun_induction fieldTokens depth rest generalizing n taken with
    obtain ⟨n, rfl, later⟩ := exists_round enough
  | case1 => simp [fieldFrom, h, Parsed.done]
  | case2 depth t ts ends =>
    obtain ⟨rfl, ends⟩ := ends
    have marks :
        t.kind = .semicolon ∨ t.kind = .rbrace ∨ t.kind = .equal ∨
        t.kind = .lparen := by
      simpa [fieldEnds] using (endsField_iff t.kind).mp ends
    rcases marks with kind | kind | kind | kind <;>
      simp [fieldFrom, h, kind, Decl.blame, Parsed.giveUp, Parsed.done]
  | case3 depth t ts goesOn inside rest found ih =>
    by_cases outside : depth = 0
    · subst outside
      simp only [endsField_iff, fieldEnds, List.mem_cons,
        List.not_mem_nil, or_false, true_and, not_or]
        at goesOn
      rw [Int.zero_add] at ih found
      simp [fieldFrom, h, goesOn, ih h.tail later, found]
    · simp [fieldFrom, h, outside, ih h.tail later, found]

theorem follows_fieldFrom (tokens : List Token)
    (depth : Int) (taken rest : List Token) :
    Follows tokens rest (fieldFrom tokens tokens.length depth taken)
      (fieldStep (endMark tokens) depth taken rest) :=
  ⟨within_fieldStep _ _ _ _, fun h => run_fieldFrom h h.enough depth taken⟩

theorem readPlainField_eq (stop : Token)
    (attributes : List Attribute) (tokens : List Token) :
    readPlainField stop attributes tokens =
      (fieldStep stop 0 [] tokens).andThen fun taken rest =>
      (Decl.expect stop .semicolon .unterminatedField rest).andThen
        fun _ rest =>
        settled
          ((fieldOf attributes taken).mapError (·.report (place stop tokens)))
          rest := by
  rw [readPlainField, fieldStep]
  obtain ⟨inside, rest⟩ := fieldTokens 0 tokens
  by_cases initialized : Token.startsWith .equal rest
  · simp [initialized]
  · by_cases called : Token.startsWith .lparen rest
    · simp [initialized, called]
    · simp only [initialized, called, if_false, Bool.false_eq_true,
        List.nil_append, Parsed.done_andThen]
      congr
      funext _ rest
      cases fieldOf attributes inside <;> rfl

theorem follows_plainField (tokens : List Token)
    (attributes : List Attribute) (rest : List Token) :
    Follows tokens rest (plainField tokens attributes)
      (readPlainField (endMark tokens) attributes rest) := by
  rw [readPlainField_eq]
  have whole :=
    (follows_fieldFrom tokens 0 [] rest).andThen fun taken between =>
    (follows_expect tokens .semicolon
        (by simp) .unterminatedField between).andThen
      fun _ => follows_settle ((fieldOf attributes taken).mapError
            (·.report (place (endMark tokens) rest)))
  exact ⟨whole.within,
    fun h content => by simpa [plainField, h, place] using whole.run h content⟩

theorem follows_field (tokens rest : List Token) :
    Follows tokens rest (field tokens) (readField (endMark tokens) rest) := by
  have whole :=
    (follows_attributeGroups tokens [] rest).andThen (follows_plainField tokens)
  rwa [andThen_behind] at whole

/-! ## The body -/

theorem run_atLabel {t : Token} {ts : List Token}
    (h : Stands tokens (t :: ts)) (content : Content) (words : List Text) :
    (atLabel tokens words).run (before tokens (t :: ts) content) =
      some (words.any t.isWord && Token.startsWith .colon ts,
        before tokens (t :: ts) content) := by
  cases named :
    words.any t.isWord <;> cases ts <;>
        simp [atLabel, h, named, kind_endMark h.ends, -List.any_eq_true]

theorem run_members {n : Nat} (h : Stands tokens rest)
    (enough : rest.length < n) (sound : Bool)
    (fields : List Field) (content : Content) :
    (members tokens n sound fields).run (before tokens rest content) =
      some ((sound && (readBody (endMark tokens) rest).sound,
          fields ++ (readBody (endMark tokens) rest).fields),
        before tokens (readBody (endMark tokens) rest).rest
          (content ++ .ofLog (readBody (endMark tokens) rest).log)) := by
  fun_induction readBody (endMark tokens) rest
    generalizing n sound fields content with
    obtain ⟨n, rfl, later⟩ := exists_round enough
  | case1 => simp [members, h]
  | case2 t ts closes => simp [members, h, closes]
  | case3 t ts other label shorter ih =>
    obtain ⟨u, us, rfl, colon⟩ := Token.exists_of_startsWith label.2
    have further : us.length < n := Nat.lt_of_succ_lt later
    rw [List.tail_cons] at ih ⊢
    simp [members, h, h.tail, other, run_atLabel h, label.1, colon,
      ih h.tail.tail further]
  | case4 t ts other notPublic label shorter ih =>
    obtain ⟨u, us, rfl, colon⟩ := Token.exists_of_startsWith label.2
    have notPublic : t.isWord "public" = false := by
      simpa [colon] using notPublic
    have further : us.length < n := Nat.lt_of_succ_lt later
    rw [List.tail_cons] at ih ⊢
    simp [members, h, h.tail, other, run_atLabel h, notPublic, label.1,
      colon, ih h.tail.tail further, Body.spoiled, place]
  | case5 t ts other notPublic noLabel found between log reads shorter ih =>
    obtain ⟨there, reads⟩ := (follows_field tokens (t :: ts)).of_eq reads h
    have moved := suffix_of_shorter h there shorter
    have further : between.length < n := Nat.lt_of_lt_of_le shorter later
    simp [members, h, other, run_atLabel h, notPublic, noLabel, reads,
      run_unstick h _ moved, ih there further, Body.withField]
  | case6 t ts other notPublic noLabel between log reads shorter ih =>
    obtain ⟨there, reads⟩ := (follows_field tokens (t :: ts)).of_eq reads h
    obtain ⟨ending, tail, same, skips⟩ := run_skipMember there
    have onward := there.of_suffix (skipStatement_suffix 0 between)
    have moved := suffix_of_shorter h onward shorter
    have further : (skipStatement 0 between).length < n :=
      Nat.lt_of_lt_of_le shorter later
    rw [skipSemicolon] at same
    simp [members, h, other, run_atLabel h, notPublic, noLabel,
      reads, skips, there.of_suffix tail, same, run_unstick h _ moved,
      ih onward further, Body.spoiled]

end Cursor
end Decl
end MirrorAdapter
