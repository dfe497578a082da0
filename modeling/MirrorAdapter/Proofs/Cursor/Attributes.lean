import MirrorAdapter.Proofs.Cursor.Steps
import MirrorAdapter.Proofs.Grammar.Attributes

/-!
# Attributes by position

By position what has been found so far is taken along, where readers of lists
put it together afterwards. Beyond that both go the same way through
attributes.
-/
namespace MirrorAdapter
namespace Decl
namespace Cursor

variable {tokens rest : List Token}

/-! ## One attribute -/

theorem join_cons_cons (first second : Text) (more : List Text) :
    Text.join "::" (first :: second :: more) =
      Text.join "::" ((first ++ "::" ++ second) :: more) := by
  cases more <;> simp [Text.join]

/-- The components of a name behind the first one, and the name they make
together. -/
def nameStep (stop : Token) (name : Text) (tokens : List Token) :
    Parsed Text :=
  match pathTail tokens with
  | (some components, rest) =>
    .done (Text.join "::" (name :: components)) rest
  | (none, rest) => Decl.blame stop .missingAttributeComponent rest

theorem within_nameStep (stop : Token) (name : Text) (tokens : List Token) :
    (nameStep stop name tokens).Within tokens := by
  have tail := pathTail_suffix tokens
  unfold nameStep
  split <;> rename_i found <;> rw [found] at tail <;> exact tail

theorem run_nameTail {n : Nat} (h : Stands tokens rest)
    (enough : rest.length < n) (name : Text) (content : Content) :
    (nameTail tokens n name).run (before tokens rest content) =
      some ((nameStep (endMark tokens) name rest).value,
        before tokens (nameStep (endMark tokens) name rest).rest
          (content ++ .ofLog (nameStep (endMark tokens) name rest).log)) := by
  unfold nameStep
  fun_induction pathTail rest generalizing n name with
    obtain ⟨n, rfl, later⟩ := exists_round enough
  | case1 => simp [nameTail, h, Parsed.done, Text.join]
  | case2 t kind =>
    simp [nameTail, h, h.tail, kind, Decl.blame, Parsed.giveUp]
  | case3 t kind u us named components rest found ih =>
    have further : us.length < n := Nat.lt_of_succ_lt later
    cases components <;>
      simp [nameTail, h, h.tail, kind, named, ih h.tail.tail further, found,
        join_cons_cons, Parsed.done]
  | case4 t kind u us other =>
    simp [nameTail, h, h.tail, kind, other, Decl.blame, Parsed.giveUp]
  | case5 t ts other => simp [nameTail, h, other, Parsed.done, Text.join]

theorem follows_nameTail (tokens : List Token)
    (name : Text) (rest : List Token) :
    Follows tokens rest (nameTail tokens tokens.length name)
      (nameStep (endMark tokens) name rest) :=
  ⟨within_nameStep _ _ _, fun h => run_nameTail h h.enough name⟩

theorem run_argumentsFrom {n : Nat} (h : Stands tokens rest)
    (enough : rest.length < n) (depth : Nat)
    (taken : List Token) (content : Content) :
    (argumentsFrom tokens n (depth + 1) taken).run
      (before tokens rest content) =
      some (taken ++ (argumentTokens depth rest).1,
        before tokens (argumentTokens depth rest).2 content) := by
  fun_induction argumentTokens depth rest generalizing n taken with
    obtain ⟨n, rfl, later⟩ := exists_round enough
  | case1 => simp [argumentsFrom, h]
  | case2 depth t ts kind inside rest found ih =>
    simp [argumentsFrom, h, kind, ih h.tail later, found]
  | case3 t ts opens kind => simp [argumentsFrom, h, kind]
  | case4 t ts opens kind outer inside rest found ih =>
    simp [argumentsFrom, h, kind, ih h.tail later, found]
  | case5 depth t ts opens closes inside rest found ih =>
    simp [argumentsFrom, h, opens, closes, ih h.tail later, found]

theorem follows_arguments (tokens : List Token)
    (name : Text) (rest : List Token) :
    Follows tokens rest (arguments tokens name)
      (readArguments (endMark tokens) name rest) := by
  refine ⟨within_readArguments _ _ _, fun h content => ?_⟩
  cases rest with
  | nil => simp [arguments, h, readArguments, Parsed.done]
  | cons t ts =>
    by_cases kind : t.kind = .lparen
    · have inside := h.tail.of_suffix (argumentTokens_suffix 0 ts)
      have closing :=
        (follows_expect tokens .rparen (by simp) (.unbalancedArguments name)
            (argumentTokens 0 ts).2).andThen
          fun _ => follows_done (some (argumentTokens 0 ts).1)
      simpa [arguments, h, kind, readArguments,
        run_argumentsFrom h.tail h.tail.enough 0]
        using closing.run inside content
    · simp [arguments, h, kind, readArguments, Parsed.done]

theorem readAttribute_eq (stop : Token) (tokens : List Token) :
    readAttribute stop tokens =
      (Decl.expect stop .identifier .missingAttributeName tokens).andThen
        fun first rest =>
      (nameStep stop first.text rest).andThen fun name rest =>
        (readArguments stop name rest).andThen fun arguments rest =>
          .done { name, location := place stop tokens, arguments } rest := by
  cases tokens with
  | nil => rfl
  | cons t ts =>
    rw [readAttribute, readAttributeName, Decl.expect]
    by_cases named : t.kind = .identifier
    · rcases found :
          pathTail ts with ⟨_ | components, rest⟩ <;>
              simp [named, nameStep, found, place]
    · simp only [named, if_false]
      rfl

theorem follows_oneAttribute (tokens rest : List Token) :
    Follows tokens rest (oneAttribute tokens)
      (readAttribute (endMark tokens) rest) := by
  rw [readAttribute_eq]
  have whole :=
    (follows_expect tokens .identifier (by simp) .missingAttributeName
        rest).andThen
    fun first between =>
      (follows_nameTail tokens first.text between).andThen fun name between =>
      (follows_arguments tokens name between).andThen
        fun arguments => follows_done
            ({ name, location := place (endMark tokens) rest, arguments } :
              Attribute)
  exact ⟨whole.within, fun h content =>
      by simpa [oneAttribute, h, place] using whole.run h content⟩

/-! ## Attribute groups -/

/-- What has been taken before a step and what the step finds, together. -/
def behind {α : Type} (taken : List α) (step : Parsed (List α)) :
    Parsed (List α) :=
  ⟨step.value.map (taken ++ ·), step.rest, step.log⟩

section
variable {α β : Type}

@[simp] theorem behind_nil (step : Parsed (List α)) :
    behind [] step = step := by
  obtain ⟨value, rest, log⟩ := step
  simp [behind]

variable (taken : List α)

@[simp] theorem behind_done (found : List α) (rest : List Token) :
    behind taken (.done found rest) = .done (taken ++ found) rest :=
  rfl

theorem behind_andThen (first : Parsed β)
    (second : β → List Token → Parsed (List α)) :
    behind taken (first.andThen second) =
      first.andThen fun b rest => behind taken (second b rest) := by
  obtain ⟨_ | b, rest, log⟩ := first <;> rfl

theorem andThen_behind (first : Parsed (List α))
    (second : List α → List Token → Parsed β) :
    (behind taken first).andThen second =
      first.andThen fun found rest => second (taken ++ found) rest := by
  obtain ⟨_ | found, rest, log⟩ := first <;> rfl

end

theorem run_keep (taken : List Attribute) (a : Attribute) (content : Content) :
    (keep taken a).run (before tokens rest content) =
      some (taken ++ (keepDirective a).1,
        before tokens rest (content ++ .ofLog (keepDirective a).2)) := by
  unfold keepDirective
  by_cases kept : a.isDirective <;> simp [keep, kept]

theorem run_attributeList {n : Nat} (h : Stands tokens rest)
    (enough : rest.length < n) (taken : List Attribute) (content : Content) :
    (attributeList tokens n taken).run (before tokens rest content) =
      some ((behind taken (readAttributeList (endMark tokens) rest)).value,
        before tokens (readAttributeList (endMark tokens) rest).rest (content ++
          .ofLog (readAttributeList (endMark tokens) rest).log)) := by
  fun_induction readAttributeList (endMark tokens) rest
    generalizing n taken content with
    obtain ⟨n, rfl, later⟩ := exists_round enough
  | case1 rest closes => simp [attributeList, h, closes, behind, Parsed.done]
  | case2 rest opens between log found =>
    obtain ⟨-, reads⟩ := (follows_oneAttribute tokens rest).of_eq found h
    simp [attributeList, Reader.andThen, h, opens, reads, behind]
  | case3 rest opens a log found =>
    obtain ⟨there, reads⟩ := (follows_oneAttribute tokens rest).of_eq found h
    simp [attributeList, Reader.andThen, h, opens, reads, there, behind,
      run_keep]
  | case4 rest opens a c between log found comma shorter tail =>
    rename_i ih
    obtain ⟨there, reads⟩ := (follows_oneAttribute tokens rest).of_eq found h
    have further : between.length < n := Nat.lt_of_lt_of_le shorter later
    simp [attributeList, Reader.andThen, h, opens, reads, there, behind,
      run_keep, comma, ih there.tail further, tail, Function.comp_def]
  | case5 rest opens a c between log found other =>
    obtain ⟨there, reads⟩ := (follows_oneAttribute tokens rest).of_eq found h
    simp [attributeList, Reader.andThen, h, opens, reads, there, behind,
      run_keep, other]

theorem follows_attributeList (tokens : List Token)
    (taken : List Attribute) (rest : List Token) :
    Follows tokens rest (attributeList tokens tokens.length taken)
      (behind taken (readAttributeList (endMark tokens) rest)) :=
  ⟨within_readAttributeList _ _, fun h => run_attributeList h h.enough taken⟩

theorem follows_group (tokens : List Token)
    (taken : List Attribute) (a b : Token) (inside : List Token) :
    Follows tokens (a :: b :: inside) (group tokens taken)
      (behind taken (readGroup (endMark tokens) inside)) := by
  have closing (between : List Token) :=
    follows_expect tokens .rbracket (by simp) .unclosedAttributeList between
  have whole :=
    (follows_attributeList tokens taken inside).andThen
      fun taken between => (closing between).andThen
          fun _ between => (closing between).andThen fun _ => follows_done taken
  rw [readGroup, behind_andThen]
  simp only [behind_andThen, behind_done]
  rw [andThen_behind] at whole
  exact ⟨(whole.within.cons b).cons a,
    fun h content => by simp [group, h, h.tail, whole.run h.tail.tail content]⟩

theorem run_atGroup (h : Stands tokens rest) (content : Content) :
    (atGroup tokens).run (before tokens rest content) =
      some (Grammar.opensAttributes rest, before tokens rest content) := by
  cases rest with
  | nil => simp [atGroup, h, Grammar.opensAttributes]
  | cons a more =>
    by_cases opens : a.kind = .lbracket <;> cases more <;> simp [atGroup, h,
          opens, kind_endMark h.ends, Grammar.opensAttributes]

theorem run_groupsFrom {n : Nat} (h : Stands tokens rest)
    (enough : rest.length < n) (taken : List Attribute) (content : Content) :
    (groupsFrom tokens n taken).run (before tokens rest content) =
      some ((behind taken (readAttributes (endMark tokens) rest)).value,
        before tokens (readAttributes (endMark tokens) rest).rest
          (content ++ .ofLog (readAttributes (endMark tokens) rest).log)) := by
  fun_induction readAttributes (endMark tokens) rest
    generalizing n taken content with
    obtain ⟨n, rfl, later⟩ := exists_round enough
  | case1 a b inside opens between log found =>
    obtain ⟨-, reads⟩ :=
      (follows_group tokens taken a b inside).of_eq
        (congrArg (behind taken) found) h
    simp [groupsFrom, Reader.andThen, run_atGroup h, opens, reads, behind,
      Grammar.opensAttributes]
  | case2 a b inside opens group between log found shorter tail =>
    rename_i ih
    obtain ⟨there, reads⟩ :=
      (follows_group tokens taken a b inside).of_eq
        (congrArg (behind taken) found) h
    have further : between.length < n := Nat.lt_of_lt_of_le shorter later
    simp [groupsFrom, Reader.andThen, run_atGroup h, opens, reads, behind,
      tail, ih there further, Grammar.opensAttributes, Function.comp_def]
  | case3 a b inside other =>
    simp [groupsFrom, run_atGroup h, other, behind, Parsed.done,
      Grammar.opensAttributes]
  | case4 rest short =>
    rcases rest with _ | ⟨a, _ | ⟨b, inside⟩⟩
    · simp [groupsFrom, run_atGroup h, behind, Parsed.done,
        Grammar.opensAttributes]
    · simp [groupsFrom, run_atGroup h, behind, Parsed.done,
        Grammar.opensAttributes]
    · exact absurd rfl (short a b inside)

theorem follows_attributeGroups (tokens : List Token)
    (taken : List Attribute) (rest : List Token) :
    Follows tokens rest (attributeGroups tokens taken)
      (behind taken (readAttributes (endMark tokens) rest)) :=
  ⟨within_readAttributes _ _, fun h => run_groupsFrom h h.enough taken⟩

end Cursor
end Decl
end MirrorAdapter
