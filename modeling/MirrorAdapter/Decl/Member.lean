import MirrorAdapter.Decl.AttributeList
import MirrorAdapter.Token.Spelling

/-!
# Reading the members of a mirror type

A body holds data fields and `public:` labels. A malformed member spoils the
type but not the members after it: reading goes on behind the end of its
statement.
-/
namespace MirrorAdapter
namespace Decl

/-- Marks that end the tokens of a field where no bracket is open. -/
def endsField : Token.Kind → Bool
  | .semicolon | .rbrace | .equal | .lparen => true
  | _ => false

/-- The tokens of a field from inside `depth` open brackets, and the rest from
the mark that ends them. -/
def fieldTokens (depth : Int) : List Token → List Token × List Token
  | [] => ([], [])
  | t :: ts =>
    if depth = 0 ∧ endsField t.kind then ([], t :: ts)
    else
      let (inside, rest) := fieldTokens (depth + t.kind.nesting) ts
      (t :: inside, rest)

/-- Words that start a member other than a data field. -/
def startsOther (t : Token) : Bool :=
  t.isWord "static" || t.isWord "using" || t.isWord "typedef"

/-- The field that a list of tokens declares: its type is spelled by all of
them but the last, its name. -/
def fieldOf (attributes : List Attribute) (tokens : List Token) :
    Except Fault Field :=
  match tokens with
  | first :: second :: more =>
    let last := more.getLastD second
    if last.kind ≠ .identifier then .error .malformedField
    else if startsOther first then .error .notADataField
    else .ok
      { name := last.text
        location := last.location
        type := ⟨Token.spell tokens.dropLast, first.location⟩
        attributes }
  | _ => .error .malformedField

section
variable (stop : Token)

/-- A field without its attributes. -/
def readPlainField (attributes : List Attribute) (tokens : List Token) :
    Parsed Field :=
  let (inside, rest) := fieldTokens 0 tokens
  if Token.startsWith .equal rest then blame stop .initializer rest
  else if Token.startsWith .lparen rest then blame stop .notADataField rest
  else
    (expect stop .semicolon .unterminatedField rest).andThen fun _ rest =>
      match fieldOf attributes inside with
      | .ok field => .done field rest
      | .error fault => .giveUp rest (fault.report (place stop tokens))

def readField (tokens : List Token) : Parsed Field :=
  (readAttributes stop tokens).andThen (readPlainField stop)

end

theorem fieldTokens_append (depth : Int) (tokens : List Token) :
    (fieldTokens depth tokens).1 ++ (fieldTokens depth tokens).2 = tokens := by
  fun_induction fieldTokens depth tokens with
  | case1 => rfl
  | case2 => rfl
  | case3 _ _ _ _ _ _ h ih => rw [h] at ih; simpa using ih

theorem fieldTokens_suffix (depth : Int) (tokens : List Token) :
    (fieldTokens depth tokens).2 <:+ tokens :=
  ⟨_, fieldTokens_append depth tokens⟩

section
variable (stop : Token)

theorem within_readPlainField (attributes : List Attribute)
    (tokens : List Token) :
    (readPlainField stop attributes tokens).Within tokens := by
  have tail := fieldTokens_suffix 0 tokens
  unfold readPlainField
  dsimp only
  split
  · exact (within_blame stop _ _).trans tail
  · split
    · exact (within_blame stop _ _).trans tail
    · refine (Parsed.Within.andThen (within_expect stop _ _ _)
          fun _ rest => ?_).trans tail
      split
      · exact Parsed.within_done _ _
      · exact Parsed.within_giveUp _ _

theorem within_readField (tokens : List Token) :
    (readField stop tokens).Within tokens :=
  (within_readAttributes stop tokens).andThen
    fun _ _ => within_readPlainField stop _ _

/-- A field that is read leaves less than there was. -/
theorem readField_length_lt {tokens rest : List Token} {field : Field}
    {log : Log} (h : readField stop tokens = ⟨some field, rest, log⟩) :
    rest.length < tokens.length := by
  obtain ⟨attributes, between, _, _, first, second, -⟩ :=
    Parsed.andThen_eq_some h
  have skipped : between.length ≤ tokens.length := by
    have within := within_readAttributes stop tokens
    rw [first] at within
    exact List.IsSuffix.length_le within
  unfold readPlainField at second
  dsimp only at second
  split at second
  · simp [blame, Parsed.giveUp] at second
  split at second
  · simp [blame, Parsed.giveUp] at second
  obtain ⟨mark, after, _, _, ended, found, -⟩ := Parsed.andThen_eq_some second
  have consumed := expect_length_lt stop ended
  have inside := (fieldTokens_suffix 0 between).length_le
  split at found
  · simp only [Parsed.done, Parsed.mk.injEq] at found
    rw [← found.2.1]
    omega
  · simp [Parsed.giveUp] at found

end

/-- What reading a body yields: its fields, whether all members were sound,
and what is left, which starts with the closing brace if there is one. -/
structure Body where
  fields : List Field := []
  sound : Bool := true
  rest : List Token := []
  log : Log := []

/-- Puts a field in front. -/
def Body.withField (field : Field) (log : Log) (body : Body) : Body :=
  { body with fields := field :: body.fields, log := log ++ body.log }

/-- Records that a member in front was malformed. -/
def Body.spoiled (log : Log) (body : Body) : Body :=
  { body with sound := false, log := log ++ body.log }

theorem length_tail_lt (ts : List Token) : ts.tail.length < ts.length + 1 := by
  rw [List.length_tail]
  omega

section
variable (stop : Token)

/-- The members from here to the closing brace. What cannot be read is skipped
up to its end. -/
def readBody (tokens : List Token) : Body :=
  match tokens with
  | [] => {}
  | t :: ts =>
    if closes : t.kind = .rbrace then { rest := t :: ts }
    else if t.isWord "public" ∧ Token.startsWith .colon ts then
      have : ts.tail.length < ts.length + 1 := length_tail_lt ts
      readBody ts.tail
    else if (t.isWord "private" ∨ t.isWord "protected") ∧
      Token.startsWith .colon ts then
      have : ts.tail.length < ts.length + 1 := length_tail_lt ts
      (readBody ts.tail).spoiled [Fault.notPublic.report t.location]
    else
      match h : readField stop (t :: ts) with
      | ⟨some field, rest, log⟩ =>
        have : rest.length < ts.length + 1 := readField_length_lt stop h
        (readBody rest).withField field log
      | ⟨none, rest, log⟩ =>
        have : (skipStatement 0 rest).length < ts.length + 1 := by
          have within : rest <:+ t :: ts := by
            have := within_readField stop (t :: ts)
            rwa [h] at this
          exact skipStatement_within_lt closes within
        (readBody (skipStatement 0 rest)).spoiled log
termination_by tokens.length
decreasing_by all_goals assumption

theorem readBody_suffix (tokens : List Token) :
    (readBody stop tokens).rest <:+ tokens := by
  fun_induction readBody stop tokens with
  | case1 => exact List.suffix_refl _
  | case2 => exact List.suffix_refl _
  | case3 t ts _ _ _ ih =>
    exact ih.trans ((List.tail_suffix ts).trans (List.suffix_cons t ts))
  | case4 t ts _ _ _ _ ih =>
    exact ih.trans ((List.tail_suffix ts).trans (List.suffix_cons t ts))
  | case5 t ts _ _ _ field rest log h _ ih =>
    have within := within_readField stop (t :: ts)
    rw [h] at within
    exact ih.trans within
  | case6 t ts _ _ _ rest log h _ ih =>
    have within := within_readField stop (t :: ts)
    rw [h] at within
    exact ih.trans ((skipStatement_suffix 0 rest).trans within)

end
end Decl
end MirrorAdapter
