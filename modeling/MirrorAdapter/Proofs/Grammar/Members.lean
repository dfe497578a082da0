import MirrorAdapter.Decl.Member
import MirrorAdapter.Proofs.Grammar.Attributes
import Mathlib.Data.List.Forall2

/-!
# Members and their grammar

A body without errors is a list of members up to its closing brace, with one
field for each member that is not a label, and every list of members is read
as one. What keeps labels and fields apart is decided by the first two tokens
alone, which all belong to the field.
-/
namespace MirrorAdapter
namespace Grammar

/-! ## What the first two tokens decide -/

theorem opensAttributes_append {a : List Token} (two : 2 ≤ a.length)
    (b : List Token) : opensAttributes (a ++ b) = opensAttributes a := by
  match a, two with
  | _ :: _ :: _, _ => rfl

theorem startsLabel_append {a : List Token} (two : 2 ≤ a.length)
    (b : List Token) : startsLabel (a ++ b) = startsLabel a := by
  match a, two with
  | _ :: _ :: _, _ => rfl

theorem startsLabel_cons (t : Token) (ts : List Token) :
    startsLabel (t :: ts) =
      ((t.isWord "public" || t.isWord "private" || t.isWord "protected") &&
        Token.startsWith .colon ts) := by
  cases ts with
  | nil => simp [startsLabel, Token.startsWith]
  | cons u us => rfl

theorem FieldTokens.two_le_append {tokens : List Token}
    (h : FieldTokens tokens) (attributes : List Token) :
    2 ≤ (attributes ++ tokens).length := by
  have two := h.two
  rw [List.length_append]
  omega

/-- A field with its attributes does not start with a closing brace. -/
theorem startsWith_rbrace_field {attributes tokens : List Token}
    (ha : Attributes attributes) (hf : FieldTokens tokens) (rest : List Token) :
    Token.startsWith .rbrace (attributes ++ (tokens ++ rest)) = false := by
  cases ha with
  | cons opens _ _ _ _ _ => simp [Token.startsWith, opens]
  | nil =>
    cases tokens with
    | nil => exact absurd hf.two (by simp)
    | cons t ts =>
      have unended := hf.unended [] t ts rfl rfl
      simp only [List.mem_cons, not_or] at unended
      simp [Token.startsWith, unended.2.1]

end Grammar

namespace Decl

open Grammar (count NoneOutside FieldTokens FieldsOf Members startsLabel
    startsOtherMember opensAttributes)

/-! ## The tokens of a field -/

/-- The marks that end a field. -/
def fieldEnds : List Token.Kind := [.semicolon, .rbrace, .equal, .lparen]

theorem endsField_iff (kind : Token.Kind) :
    endsField kind = true ↔ kind ∈ fieldEnds := by
  cases kind <;> decide

theorem fieldTokens_unended (taken tokens : List Token)
    (h : NoneOutside fieldEnds taken) :
    NoneOutside fieldEnds (taken ++ (fieldTokens (count taken) tokens).1) := by
  induction tokens generalizing taken with
  | nil => simpa [fieldTokens] using h
  | cons t ts ih =>
    rw [fieldTokens]
    split
    · simpa using h
    · rename_i other
      have inside : count taken = 0 → t.kind ∉ fieldEnds := by
        intro outside mark
        exact other ⟨outside, (endsField_iff t.kind).mpr mark⟩
      have step := ih (taken ++ [t]) (h.snoc inside)
      simpa using step

/-- A field ends outside all brackets. -/
theorem fieldTokens_closed (depth : Int) (tokens : List Token)
    (h : (fieldTokens depth tokens).2 ≠ []) :
    depth + count (fieldTokens depth tokens).1 = 0 := by
  fun_induction fieldTokens depth tokens with
  | case1 => simp at h
  | case2 depth t ts ends => simpa using ends.1
  | case3 depth t ts other inside rest tail ih =>
    rw [tail] at ih
    have closed : depth + t.kind.nesting + count inside = 0 := ih h
    show depth + count (t :: inside) = 0
    rw [Grammar.count_cons]
    omega

/-- Tokens without an end outside brackets are taken one after another. -/
theorem fieldTokens_of_unended (taken inside rest : List Token)
    (h : NoneOutside fieldEnds (taken ++ inside)) :
    fieldTokens (count taken) (inside ++ rest) =
      (inside ++ (fieldTokens (count (taken ++ inside)) rest).1,
        (fieldTokens (count (taken ++ inside)) rest).2) := by
  induction inside generalizing taken with
  | nil => simp
  | cons t inside ih =>
    have step := ih (taken ++ [t]) (by simpa using h)
    have other : count taken = 0 → t.kind ∉ fieldEnds := h taken t inside rfl
    have goesOn : ¬(count taken = 0 ∧ endsField t.kind = true) := by
      rintro ⟨outside, mark⟩
      exact other outside ((endsField_iff t.kind).mp mark)
    simp only [Grammar.count_append, Grammar.count_cons,
      Grammar.count_nil, Int.add_zero, Int.add_assoc]
      at step ⊢
    rw [List.cons_append, fieldTokens, if_neg goesOn, step]
    rfl

theorem fieldTokens_field {tokens : List Token}
    (h : FieldTokens tokens) {semicolon : Token}
    (ends : semicolon.kind = .semicolon) (rest : List Token) :
    fieldTokens 0 (tokens ++ semicolon :: rest) =
      (tokens, semicolon :: rest) := by
  have inside :=
    fieldTokens_of_unended [] tokens (semicolon :: rest) h.unended
  simp only [Grammar.count_nil, List.nil_append, h.closed] at inside
  rw [inside]
  simp [fieldTokens, ends, endsField]

/-! ## One field -/

theorem severity_of_fieldOf {attributes : List Attribute} {tokens : List Token}
    {fault : Fault} (h : fieldOf attributes tokens = .error fault) :
    fault.severity = .error := by
  match tokens with
  | [] | [_] =>
    cases h
    rfl
  | first :: second :: more =>
    unfold fieldOf at h
    dsimp only at h
    split at h
    · cases h
      rfl
    · split at h
      · cases h
        rfl
      · cases h

/-- The tokens spell the type of the field up to their last one, which is its
name. -/
structure Declares (tokens : List Token) (field : Field) : Prop where
  name : field.name = (tokens.getLastD default).text
  location : field.location = (tokens.getLastD default).location
  type :
    field.type = ⟨Token.spell tokens.dropLast, (tokens.headD default).location⟩

instance (tokens : List Token) (field : Field) :
    Decidable (Declares tokens field) :=
  decidable_of_iff (field.name = (tokens.getLastD default).text ∧
      field.location = (tokens.getLastD default).location ∧ field.type =
        ⟨Token.spell tokens.dropLast, (tokens.headD default).location⟩)
    ⟨fun ⟨name, location, type⟩ => ⟨name, location, type⟩,
      fun h => ⟨h.name, h.location, h.type⟩⟩

theorem declares_of_fieldOf {attributes : List Attribute} {tokens : List Token}
    {field : Field} (h : fieldOf attributes tokens = .ok field) :
    Declares tokens field := by
  match tokens with
  | [] | [_] => cases h
  | first :: second :: more =>
    have last :
        (first :: second :: more).getLastD default = more.getLastD second := by
      rw [List.getLastD_cons, List.getLastD_cons]
    unfold fieldOf at h
    dsimp only at h
    split at h
    · cases h
    · split at h
      · cases h
      · obtain rfl := Except.ok.inj h
        exact ⟨by rw [last], by rw [last], rfl⟩

/-- A list of tokens declares a field iff there are two of them, the last is a
name and the first does not start another member. -/
theorem fieldOf_iff (attributes : List Attribute) (tokens : List Token) :
    (∃ field, fieldOf attributes tokens = .ok field) ↔ 2 ≤ tokens.length ∧
      (∃ t, tokens.getLast? = some t ∧ t.kind = .identifier) ∧
      startsOtherMember tokens = false := by
  match tokens with
  | [] | [_] => simp [fieldOf]
  | first :: second :: more =>
    have found :
        (first :: second :: more).getLast? = some (more.getLastD second) := by
      rw [List.getLast?_cons_cons, List.getLast?_cons,
        List.getLastD_eq_getLast?]
    have other :
        startsOtherMember (first :: second :: more) = startsOther first :=
      rfl
    rw [found, other]
    unfold fieldOf
    dsimp only
    generalize more.getLastD second = last
    by_cases named : last.kind = .identifier
    · cases startsOther first <;> simp [named]
    · simp [named]

section
variable (stop : Token)

theorem honest_readPlainField (attributes : List Attribute)
    (tokens : List Token) : (readPlainField stop attributes tokens).Honest := by
  unfold readPlainField
  dsimp only
  split
  · exact honest_blame stop rfl _
  · split
    · exact honest_blame stop rfl _
    · apply (honest_expect stop _ rfl _).andThen
      intro _ rest
      split
      · exact Parsed.honest_done _ _
      · rename_i fault found
        exact Parsed.honest_giveUp
          _ (Fault.isError_report (severity_of_fieldOf found) _)

/-- `fieldtokens ;`, with the field that they declare. -/
def PlainField (field : Field) (tokens : List Token) : Prop :=
  ∃ inside semicolon, tokens = inside ++ [semicolon] ∧ FieldTokens inside ∧
    semicolon.kind = .semicolon ∧ Declares inside field

theorem consumes_readPlainField (attributes : List Attribute)
    (tokens : List Token) (h : opensAttributes tokens = false) :
    (readPlainField stop attributes tokens).Consumes tokens PlainField := by
  have whole := fieldTokens_append 0 tokens
  unfold readPlainField
  dsimp only
  split
  · exact Parsed.consumes_giveUp _ _ _ _
  · split
    · exact Parsed.consumes_giveUp _ _ _ _
    · -- the mark that ends the field is there, so the count is zero where it
      -- stands
      have good {t : Token} {field : Field} (ends : t.kind = .semicolon)
          (left : (fieldTokens 0 tokens).2 ≠ [])
          (declared : fieldOf attributes (fieldTokens 0 tokens).1 = .ok field) :
          PlainField field ((fieldTokens 0 tokens).1 ++ [t]) := by
        obtain ⟨two, named, noOther⟩ :=
          (fieldOf_iff attributes _).mp ⟨field, declared⟩
        have closed : count (fieldTokens 0 tokens).1 = 0 := by
          simpa using fieldTokens_closed 0 tokens left
        have noAttributes :
            opensAttributes (fieldTokens 0 tokens).1 = false := by
          rwa [← Grammar.opensAttributes_append two (fieldTokens 0 tokens).2,
            whole]
        have unended :=
          fieldTokens_unended [] tokens (Grammar.noneOutside_nil _)
        exact ⟨_, t, rfl, ⟨two, named, noAttributes, noOther, unended, closed⟩,
          ends, declares_of_fieldOf declared⟩
      refine Parsed.Consumes.after
        ((consumes_expect stop _ _ _).andThen fun t _ rest here shape => ?_)
        whole
        fun _ _ all => all
      obtain ⟨rfl, ends⟩ := shape
      have left : (fieldTokens 0 tokens).2 ≠ [] := by
        intro none_left
        simp [none_left, expect, blame, Parsed.giveUp] at here
      split
      · rename_i field declared
        exact Parsed.consumes_nothing (good ends left declared)
      · exact Parsed.consumes_giveUp _ _ _ _

theorem reads_readPlainField {tokens : List Token}
    (h : FieldTokens tokens) {semicolon : Token}
    (ends : semicolon.kind = .semicolon) (attributes : List Attribute) :
    Reads (readPlainField stop attributes) (tokens ++ [semicolon])
      fun _ => True := by
  obtain ⟨field, declared⟩ :=
    (fieldOf_iff attributes tokens).mpr ⟨h.two, h.named, h.noOther⟩
  refine ⟨field, [], Log.clean_nil, ?_⟩
  intro rest _
  rw [List.append_assoc, List.singleton_append, readPlainField,
    fieldTokens_field h ends]
  simp [Token.startsWith, ends, expect, Parsed.done, Parsed.andThen, declared]

theorem honest_readField (tokens : List Token) :
    (readField stop tokens).Honest :=
  (honest_readAttributes stop tokens).andThen
    fun _ _ => honest_readPlainField stop _ _

theorem consumes_readField (tokens : List Token) :
    (readField stop tokens).Consumes tokens
      fun field eaten => ∃ attributes plain, eaten = attributes ++ plain ∧
          Grammar.Attributes attributes ∧ PlainField field plain := by
  apply (consumes_readAttributes stop tokens).andThen
  intro _ attributes rest here good
  have noMore := opensAttributes_of_readAttributes stop tokens here.1
  rw [here.2] at noMore
  exact (consumes_readPlainField stop _ rest noMore).mono
    fun _ plain shape => ⟨attributes, plain, rfl, good, shape⟩

theorem reads_readField {attributes tokens : List Token}
    (ha : Grammar.Attributes attributes) (hf : FieldTokens tokens)
    {semicolon : Token} (ends : semicolon.kind = .semicolon) :
    Reads (readField stop) (attributes ++ (tokens ++ [semicolon]))
      fun _ => True := by
  refine (reads_readAttributes stop ha).andThen
    (fun _ => reads_readPlainField stop hf ends _) fun rest _ => ?_
  rw [List.append_assoc, Grammar.opensAttributes_append hf.two]
  exact hf.noAttributes

/-! ## The body -/

/-- The step of a body in terms of the grammar's lookahead, without the
bookkeeping for its end. -/
theorem readBody_cons (t : Token) (ts : List Token) :
    readBody stop (t :: ts) =
      if t.kind = .rbrace then { rest := t :: ts }
      else if startsLabel (t :: ts) then
        if t.isWord "public" then readBody stop ts.tail
        else (readBody stop ts.tail).spoiled [Fault.notPublic.report t.location]
      else
        match readField stop (t :: ts) with
        | ⟨some field, rest, log⟩ => (readBody stop rest).withField field log
        | ⟨none, rest, log⟩ =>
          (readBody stop (skipStatement 0 rest)).spoiled log := by
  rw [readBody, Grammar.startsLabel_cons]
  by_cases closes : t.kind = .rbrace
  · simp [closes]
  -- The tests for the three labels are made one by one; all answers together
  -- decide.
  · cases Token.startsWith .colon ts <;> cases t.isWord "public" <;>
        cases t.isWord "private" <;> cases t.isWord "protected" <;>
        simp [closes] <;> split <;> rename_i found <;> simp [found]

/-- A body is sound iff it reports no error. -/
theorem honest_readBody (tokens : List Token) :
    (readBody stop tokens).log.Clean ↔ (readBody stop tokens).sound = true := by
  fun_induction readBody stop tokens with
  | case1 => simp
  | case2 => simp
  | case3 _ _ _ _ _ ih => exact ih
  | case4 =>
    simp [Body.spoiled, Log.Clean, Log.hasErrors, Fault.report,
      Fault.severity, Diagnostic.isError]
  | case5 t ts _ _ _ field rest log found _ ih =>
    have step := honest_readField stop (t :: ts)
    rw [found] at step
    simp [Body.withField, step.clean_iff.mpr ⟨field, rfl⟩, ih]
  | case6 t ts _ _ _ rest log found _ ih =>
    have step := honest_readField stop (t :: ts)
    rw [found] at step
    have spoiled : ¬log.Clean :=
      fun clean => absurd (step.clean_iff.mp clean) (by simp)
    simp [Body.spoiled, spoiled]

/-- A sound body consists of members, and its fields are what those
declare. -/
theorem fields_of_readBody (tokens : List Token)
    (sound : (readBody stop tokens).sound = true) :
    ∃ members fields, tokens = members ++ (readBody stop tokens).rest ∧
      FieldsOf members fields ∧
      List.Forall₂ Declares fields (readBody stop tokens).fields := by
  fun_induction readBody stop tokens with
  | case1 => exact ⟨[], [], rfl, .nil, .nil⟩
  | case2 => exact ⟨[], [], rfl, .nil, .nil⟩
  | case3 t ts _ label _ ih =>
    obtain ⟨members, fields, whole, good, declared⟩ := ih sound
    obtain ⟨colon, ts, rfl, kind⟩ := Token.exists_of_startsWith label.2
    exact ⟨t :: colon :: members, fields, by simpa using whole,
      .label label.1 kind good, declared⟩
  | case4 => simp [Body.spoiled] at sound
  | case5 t ts _ notPublic notHidden field rest log found _ ih =>
    obtain ⟨members, fields, whole, good, declared⟩ := ih sound
    obtain ⟨eaten, first, attributes, _, rfl, ha, inside, semicolon, rfl,
          hf, ends, here⟩ :=
      consumes_readField stop (t :: ts) field (by rw [found])
    rw [found] at first
    have two := hf.two_le_append attributes
    -- The loop has seen that no label starts here, and the first two tokens
    -- decide that.
    have noLabel : startsLabel (attributes ++ inside) = false := by
      rw [← Grammar.startsLabel_append two (semicolon :: rest)]
      simp only [List.append_assoc, List.singleton_append] at first ⊢
      rw [← first, Grammar.startsLabel_cons]
      cases colon : Token.startsWith .colon ts with
      | false => simp
      | true =>
        simp only [colon, and_true, not_or, Bool.not_eq_true]
          at notPublic notHidden
        simp [notPublic, notHidden]
    refine ⟨attributes ++ inside ++ [semicolon] ++ members, inside :: fields,
      ?_, .field ha hf noLabel ends good, .cons here declared⟩
    refine first.trans
      ((congrArg (attributes ++ (inside ++ [semicolon]) ++ ·) whole).trans ?_)
    simp [Body.withField]
  | case6 => simp [Body.spoiled] at sound

/-- A label in front of a body is passed over. -/
theorem readBody_label {word colon : Token} (named : word.isWord "public")
    (marked : colon.kind = .colon) (rest : List Token) :
    readBody stop (word :: colon :: rest) = readBody stop rest := by
  have notClosing : word.kind ≠ .rbrace := by
    intro closes
    simp [Token.isWord, closes] at named
  have label : startsLabel (word :: colon :: rest) = true := by
    simp [startsLabel, named, marked]
  rw [readBody_cons, if_neg notClosing, if_pos label, if_pos named]
  rfl

/-- A field in front of a body adds to it. -/
theorem readBody_field {attributes tokens : List Token} {semicolon : Token}
    (ha : Grammar.Attributes attributes) (hf : FieldTokens tokens)
    (noLabel : startsLabel (attributes ++ tokens) = false)
    (ends : semicolon.kind = .semicolon) :
    ∃ field log, Log.Clean log ∧
      ∀ rest, readBody stop (attributes ++ tokens ++ [semicolon] ++ rest) =
          (readBody stop rest).withField field log := by
  obtain ⟨field, log, clean, reads⟩ := reads_readField stop ha hf ends
  refine ⟨field, log, clean, ?_⟩
  intro rest
  have step := reads rest trivial
  -- The field is tried only where neither the body ends nor a label starts.
  have notClosing :=
    Grammar.startsWith_rbrace_field ha hf ([semicolon] ++ rest)
  have noLabel' :=
    Grammar.startsLabel_append (hf.two_le_append attributes)
      ([semicolon] ++ rest)
  rw [noLabel] at noLabel'
  simp only [List.append_assoc] at step notClosing noLabel' ⊢
  obtain ⟨t, ts, whole⟩ :
      ∃ t ts, attributes ++ (tokens ++ ([semicolon] ++ rest)) = t :: ts := by
    apply List.exists_cons_of_ne_nil
    simp
  rw [whole] at step notClosing noLabel' ⊢
  have other : t.kind ≠ .rbrace := by
    simpa [Token.startsWith] using notClosing
  rw [readBody_cons, if_neg other, if_neg (by simp [noLabel']), step]

/-- Members are read up to the closing brace after them. -/
theorem readBody_of_members {members : List Token} (h : Members members) :
    ∃ fields log,
      Log.Clean log ∧ ∀ rest, Token.startsWith .rbrace rest = true →
        readBody stop (members ++ rest) = { fields, rest, log } := by
  induction h with
  | nil =>
    refine ⟨[], [], Log.clean_nil, ?_⟩
    intro rest hrest
    obtain ⟨t, ts, rfl, closes⟩ := Token.exists_of_startsWith hrest
    rw [List.nil_append, readBody_cons, if_pos closes]
  | @cons member others good _ ih =>
    obtain ⟨fields, log, clean, reads⟩ := ih
    cases good with
    | label named marked =>
      refine ⟨fields, log, clean, ?_⟩
      intro rest hrest
      rw [← reads rest hrest]
      exact readBody_label stop named marked (others ++ rest)
    | field ha hf noLabel ends =>
      obtain ⟨field, log', clean', step⟩ :=
        readBody_field stop ha hf noLabel ends
      refine ⟨field :: fields, log' ++ log, by simp [clean, clean'], ?_⟩
      intro rest hrest
      rw [List.append_assoc, step (others ++ rest), reads rest hrest]
      rfl

end
end Decl
end MirrorAdapter
