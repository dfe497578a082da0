import MirrorAdapter.Proofs.Grammar.Members
import MirrorAdapter.Proofs.Items
import MirrorAdapter.Proofs.Relocation.Tokens

/-!
# Reading moved tokens

Each reader finds in moved tokens what it finds in the tokens themselves,
moved. The one exception are `#` lines, which end where their line does; so a
file is read alike wherever its tokens stand if it has no `#`.
-/
namespace MirrorAdapter
namespace Decl

section
variable (g : Location → Location) (stop : Token)

/-! ## Attributes -/

theorem pathTail_relocate (tokens : List Token) :
    pathTail (tokens.map (Token.relocate g)) =
      ((pathTail tokens).1, (pathTail tokens).2.map (Token.relocate g)) := by
  fun_induction pathTail tokens with
  | case1 => rfl
  | case2 t scope => simp [pathTail, scope]
  | case3 t scope u us name components rest found ih =>
    rw [found] at ih
    simp [pathTail, scope, name, ih]
  | case4 t scope u us other => simp [pathTail, scope, other]
  | case5 t ts other =>
    rw [List.map_cons, pathTail.eq_def]
    simp [other]

theorem argumentTokens_relocate (depth : Nat) (tokens : List Token) :
    argumentTokens depth (tokens.map (Token.relocate g)) =
      ((argumentTokens depth tokens).1.map (Token.relocate g),
        (argumentTokens depth tokens).2.map (Token.relocate g)) := by
  induction tokens generalizing depth with
  | nil => rfl
  | cons t ts ih =>
    rw [List.map_cons, argumentTokens.eq_def,
      argumentTokens.eq_def depth (t :: ts)]
    simp only [Token.kind_relocate, ih]
    split
    · rfl
    · split
      · split <;> rfl
      · rfl

theorem readAttributeName_relocate (tokens : List Token) :
    readAttributeName (stop.relocate g) (tokens.map (Token.relocate g)) =
      (readAttributeName stop tokens).relocate g (Prod.map id g) := by
  cases tokens with
  | nil => exact blame_relocate g stop [] _ _
  | cons t ts =>
    by_cases named : t.kind = .identifier
    · rcases found : pathTail ts with ⟨_ | components, rest⟩
      · simp only [List.map_cons, readAttributeName, Token.kind_relocate,
          named, if_true, pathTail_relocate, found]
        exact blame_relocate g stop rest _ _
      · simp [readAttributeName, named, pathTail_relocate, found]
    · simp only [List.map_cons, readAttributeName, Token.kind_relocate,
        named, if_false]
      exact blame_relocate g stop (t :: ts) _ _

theorem readArguments_relocate (name : Text) (tokens : List Token) :
    readArguments (stop.relocate g) name (tokens.map (Token.relocate g)) =
      (readArguments stop name tokens).relocate g
        (Option.map (List.map (Token.relocate g))) := by
  cases tokens with
  | nil => rfl
  | cons t ts =>
    by_cases opens : t.kind = .lparen
    · simp only [List.map_cons, readArguments, Token.kind_relocate, opens,
        if_true, argumentTokens_relocate, expect_relocate]
      exact Parsed.relocate_andThen g _ fun _ _ => rfl
    · simp [readArguments, opens]

theorem readAttribute_relocate (tokens : List Token) :
    readAttribute (stop.relocate g) (tokens.map (Token.relocate g)) =
      (readAttribute stop tokens).relocate g (Attribute.relocate g) := by
  rw [readAttribute, readAttributeName_relocate]
  refine Parsed.relocate_andThen g _ fun (name, location) _ => ?_
  dsimp only [Prod.map, id]
  rw [readArguments_relocate]
  exact Parsed.relocate_andThen g _ fun _ _ => rfl

theorem keepDirective_relocate (a : Attribute) :
    keepDirective (a.relocate g) =
      ((keepDirective a).1.map (Attribute.relocate g),
        (keepDirective a).2.map (Diagnostic.relocate g)) := by
  have same : (a.relocate g).isDirective = a.isDirective := rfl
  rw [keepDirective, keepDirective, same]
  cases a.isDirective <;> rfl

theorem readFurther_relocate (a : Attribute) {rest : List Token}
    (ih : ∀ tail : List Token, tail.length < rest.length →
        readAttributeList (stop.relocate g) (tail.map (Token.relocate g)) =
          (readAttributeList stop tail).relocate g
            (List.map (Attribute.relocate g))) :
    readFurther (stop.relocate g) (a.relocate g) (rest.map (Token.relocate g)) =
      (readFurther stop a rest).relocate g
        (List.map (Attribute.relocate g)) := by
  cases rest with
  | nil => simp [readFurther, keepDirective_relocate, Parsed.relocate]
  | cons c rest =>
    by_cases comma : c.kind = .comma
    · simp [readFurther, comma, keepDirective_relocate,
        ih rest (Nat.lt_succ_self _), Parsed.relocate, Function.comp_def]
    · simp [readFurther, comma, keepDirective_relocate, Parsed.relocate]

theorem readAttributeList_relocate (tokens : List Token) :
    readAttributeList (stop.relocate g) (tokens.map (Token.relocate g)) =
      (readAttributeList stop tokens).relocate g
        (List.map (Attribute.relocate g)) := by
  -- By the number of tokens left: the list goes on behind what an attribute
  -- took.
  induction h : tokens.length using Nat.strongRecOn generalizing tokens with
  | _ n ih =>
    cases closed : Token.startsWith .rbracket tokens with
    | true =>
      rw [readAttributeList, readAttributeList, if_pos closed,
        if_pos (by simpa using closed)]
      rfl
    | false =>
      rw [readAttributeList_of_open stop closed,
        readAttributeList_of_open _ (by simpa using closed),
        readAttribute_relocate]
      refine Parsed.relocate_andThen g
        _ fun a _ => readFurther_relocate g stop a fun tail shorter => ?_
      have within := (within_readAttribute stop tokens).length_le
      exact ih tail.length (by omega) tail rfl

theorem readGroup_relocate (tokens : List Token) :
    readGroup (stop.relocate g) (tokens.map (Token.relocate g)) =
      (readGroup stop tokens).relocate g (List.map (Attribute.relocate g)) := by
  rw [readGroup, readAttributeList_relocate]
  refine Parsed.relocate_andThen g _ fun attributes _ => ?_
  rw [expect_relocate]
  refine Parsed.relocate_andThen g _ fun _ _ => ?_
  rw [expect_relocate]
  exact Parsed.relocate_andThen g _ fun _ _ => rfl

theorem opensAttributes_relocate (tokens : List Token) :
    Grammar.opensAttributes (tokens.map (Token.relocate g)) =
      Grammar.opensAttributes tokens := by
  match tokens with
  | [] => rfl
  | [_] => rfl
  | _ :: _ :: _ => rfl

theorem readAttributes_relocate (tokens : List Token) :
    readAttributes (stop.relocate g) (tokens.map (Token.relocate g)) =
      (readAttributes stop tokens).relocate g
        (List.map (Attribute.relocate g)) := by
  -- By the number of tokens left: the next group starts behind what this one
  -- took.
  induction h : tokens.length using Nat.strongRecOn generalizing tokens with
  | _ n ih =>
    cases opened : Grammar.opensAttributes tokens with
    | false =>
      rw [readAttributes_of_closed stop opened,
        readAttributes_of_closed _ (by rw [opensAttributes_relocate, opened])]
      rfl
    | true =>
      match tokens with
      | a :: b :: inside =>
        obtain ⟨ha, hb⟩ : a.kind = .lbracket ∧ b.kind = .lbracket := by
          simpa [Grammar.opensAttributes] using opened
        have ha' : (a.relocate g).kind = .lbracket := ha
        have hb' : (b.relocate g).kind = .lbracket := hb
        rw [List.map_cons, List.map_cons, readAttributes_of_open stop ha hb,
          readAttributes_of_open _ ha' hb', readGroup_relocate]
        refine Parsed.relocate_andThen g _ fun group _ => ?_
        have within := (within_readGroup stop inside).length_le
        rw [ih _ (by simp only [List.length_cons] at h; omega) _ rfl]
        exact Parsed.relocate_andThen g
          _ fun more _ => by rw [← List.map_append]; rfl

/-! ## Template parameters -/

theorem templateParam_relocate (following tokens : List Token) :
    templateParam (stop.relocate g) (following.map (Token.relocate g))
      (tokens.map (Token.relocate g)) =
      moved (Diagnostic.relocate g) (LocatedParam.relocate g)
        (templateParam stop following tokens) := by
  cases tokens with
  | nil =>
    rw [List.map_nil, templateParam, place_relocate]
    rfl
  | cons first more =>
    have find :
        ((first :: more).map (Token.relocate g)).find? (·.kind = .equal) =
          ((first :: more).find? (·.kind = .equal)).map (Token.relocate g) := by
      rw [List.find?_map]
      rfl
    rw [List.map_cons] at find ⊢
    rw [templateParam, templateParam, find, List.getLast?_map]
    generalize (first :: more).find? (·.kind = .equal) = equal
    cases equal with
    | some equal => rfl
    | none =>
      rcases more.getLast? with _ | last
      · rfl
      · simp only [Option.map_none, Option.map_some, Token.kind_relocate,
          ← List.map_cons, Token.spell_relocate]
        by_cases named : last.kind = .identifier
        · simp only [named, if_true]
          rfl
        · simp only [named, if_false]
          rfl

theorem readParams_relocate (depth : Int) (taken tokens : List Token) :
    readParams (stop.relocate g) depth (taken.map (Token.relocate g))
      (tokens.map (Token.relocate g)) =
      (readParams stop depth taken tokens).relocate g
        (List.map (LocatedParam.relocate g)) := by
  induction tokens generalizing depth taken with
  | nil => exact blame_relocate g stop [] _ _
  | cons t ts ih =>
    rw [List.map_cons, readParams, readParams, Token.kind_relocate,
      templateParam_relocate]
    split
    · rcases templateParam stop ts taken with report | param <;> rfl
    · split
      · rcases templateParam stop ts taken with report | param
        · rfl
        · have further := ih 0 []
          rw [List.map_nil] at further
          dsimp only
          rw [further]
          exact Parsed.relocate_andThen g _ fun _ _ => rfl
      · rw [← ih, List.map_append]
        rfl

theorem readTemplate_relocate (tokens : List Token) :
    readTemplate (stop.relocate g) (tokens.map (Token.relocate g)) =
      (readTemplate stop tokens).relocate g
        (List.map (LocatedParam.relocate g)) := by
  cases tokens with
  | nil => rfl
  | cons t ts =>
    rw [List.map_cons, readTemplate, readTemplate, Token.isWord_relocate,
      expect_relocate]
    split
    · exact Parsed.relocate_andThen g
        _ fun _ _ => readParams_relocate g stop 0 [] _
    · rfl

/-! ## Members -/

theorem fieldTokens_relocate (depth : Int) (tokens : List Token) :
    fieldTokens depth (tokens.map (Token.relocate g)) =
      ((fieldTokens depth tokens).1.map (Token.relocate g),
        (fieldTokens depth tokens).2.map (Token.relocate g)) := by
  induction tokens generalizing depth with
  | nil => rfl
  | cons t ts ih =>
    rw [List.map_cons, fieldTokens, fieldTokens]
    simp only [Token.kind_relocate, ih]
    split <;> rfl

theorem fieldOf_relocate (attributes : List Attribute) (tokens : List Token) :
    fieldOf (attributes.map (Attribute.relocate g))
      (tokens.map (Token.relocate g)) =
      (fieldOf attributes tokens).map (Field.relocate g) := by
  match tokens with
  | [] => rfl
  | [_] => rfl
  | first :: second :: more =>
    have other : startsOther (first.relocate g) = startsOther first := rfl
    have last : (more.map (Token.relocate g)).getLastD (second.relocate g) =
        (more.getLastD second).relocate g := by
      rw [List.getLastD_eq_getLast?, List.getLastD_eq_getLast?,
        List.getLast?_map, Option.getD_map]
    have type :
        Token.spell
          ((first :: second :: more).map (Token.relocate g)).dropLast =
          Token.spell (first :: second :: more).dropLast := by
      rw [← List.map_dropLast, Token.spell_relocate]
    rw [List.map_cons, List.map_cons] at type ⊢
    simp only [fieldOf, other, last, type, Token.kind_relocate]
    split
    · rfl
    · split <;> rfl

theorem readPlainField_relocate (attributes : List Attribute)
    (tokens : List Token) :
    readPlainField (stop.relocate g) (attributes.map (Attribute.relocate g))
      (tokens.map (Token.relocate g)) =
      (readPlainField stop attributes tokens).relocate g
        (Field.relocate g) := by
  rw [readPlainField, readPlainField, fieldTokens_relocate]
  simp only [Token.startsWith_relocate]
  split
  · exact blame_relocate g stop _ _ _
  · split
    · exact blame_relocate g stop _ _ _
    · rw [expect_relocate, fieldOf_relocate]
      refine Parsed.relocate_andThen g _ fun _ _ => ?_
      rcases fieldOf attributes (fieldTokens 0 tokens).1 with fault | field
      · rw [place_relocate]
        rfl
      · rfl

theorem readField_relocate (tokens : List Token) :
    readField (stop.relocate g) (tokens.map (Token.relocate g)) =
      (readField stop tokens).relocate g (Field.relocate g) := by
  rw [readField, readAttributes_relocate]
  exact Parsed.relocate_andThen g
    _ fun attributes _ => readPlainField_relocate g stop attributes _

def Body.relocate (body : Body) : Body :=
  { fields := body.fields.map (Field.relocate g)
    sound := body.sound
    rest := body.rest.map (Token.relocate g)
    log := body.log.map (Diagnostic.relocate g) }

theorem Body.relocate_withField (field : Field) (log : Log) (body : Body) :
    (body.withField field log).relocate g = (body.relocate g).withField
        (field.relocate g) (log.map (Diagnostic.relocate g)) := by
  simp [relocate, withField]

theorem Body.relocate_spoiled (log : Log) (body : Body) :
    (body.spoiled log).relocate g =
      (body.relocate g).spoiled (log.map (Diagnostic.relocate g)) := by
  simp [relocate, spoiled]

theorem startsLabel_relocate (tokens : List Token) :
    Grammar.startsLabel (tokens.map (Token.relocate g)) =
      Grammar.startsLabel tokens := by
  match tokens with
  | [] => rfl
  | [_] => rfl
  | _ :: _ :: _ => rfl

theorem readBody_relocate (tokens : List Token) :
    readBody (stop.relocate g) (tokens.map (Token.relocate g)) =
      (readBody stop tokens).relocate g := by
  -- By the number of tokens left: a field takes some, and behind one that
  -- cannot be read some are skipped.
  induction h : tokens.length using Nat.strongRecOn generalizing tokens with
  | _ n ih =>
    cases tokens with
    | nil =>
      rw [List.map_nil, readBody, readBody]
      rfl
    | cons t ts =>
      have shorter : ts.length < n := by
        simpa using (show ts.length < _ from h ▸ Nat.lt_succ_self _)
      have labelled := startsLabel_relocate g (t :: ts)
      have field := readField_relocate g stop (t :: ts)
      have within := within_readField stop (t :: ts)
      rw [List.map_cons] at labelled field ⊢
      rw [readBody_cons, readBody_cons, labelled, field,
        Token.kind_relocate, Token.isWord_relocate]
      split
      · rfl
      · rename_i closes
        split
        · have tail : ts.tail.length < n := by rw [List.length_tail]; omega
          rw [← List.map_tail, ih _ tail _ rfl]
          split
          · rfl
          · rw [Body.relocate_spoiled]
            rfl
        · rcases found :
              readField stop
                (t :: ts) with ⟨_ | field, rest, log⟩ <;> rw [found]
                at within
          · have skipped : (skipStatement 0 rest).length < _ :=
              skipStatement_within_lt closes within
            dsimp only [Parsed.relocate, Option.map_none]
            rw [skipStatement_relocate, ih _ (by omega) _ rfl,
              Body.relocate_spoiled]
          · have left := readField_length_lt stop found
            dsimp only [Parsed.relocate, Option.map_some]
            rw [ih _ (by omega) _ rfl, Body.relocate_withField]

/-! ## Definitions -/

def Head.relocate (head : Head) : Head :=
  { head with
    location := g head.location
    templateParams := head.templateParams.map (LocatedParam.relocate g)
    attributes := head.attributes.map (Attribute.relocate g) }

def Definition.relocate (d : Definition) : Definition :=
  { mirror := d.mirror.map (Mirror.relocate g)
    complete := d.complete
    rest := d.rest.map (Token.relocate g)
    log := d.log.map (Diagnostic.relocate g) }

theorem readKeyword_relocate (tokens : List Token) :
    readKeyword (stop.relocate g) (tokens.map (Token.relocate g)) =
      (readKeyword stop tokens).relocate g id := by
  cases tokens with
  | nil => exact blame_relocate g stop [] _ _
  | cons t ts =>
    rw [List.map_cons, readKeyword, readKeyword, Token.isWord_relocate,
      Token.isWord_relocate]
    split
    · rfl
    · split
      · rfl
      · exact blame_relocate g stop (t :: ts) _ _

theorem readHead_relocate (tokens : List Token) :
    readHead (stop.relocate g) (tokens.map (Token.relocate g)) =
      (readHead stop tokens).relocate g (Head.relocate g) := by
  rw [readHead, readAttributes_relocate]
  refine Parsed.relocate_andThen g _ fun leading _ => ?_
  rw [readTemplate_relocate]
  refine Parsed.relocate_andThen g _ fun templateParams _ => ?_
  rw [readAttributes_relocate]
  refine Parsed.relocate_andThen g _ fun middle _ => ?_
  rw [readKeyword_relocate]
  refine Parsed.relocate_andThen g _ fun isClass _ => ?_
  rw [readAttributes_relocate]
  refine Parsed.relocate_andThen g _ fun trailing _ => ?_
  rw [expect_relocate]
  refine Parsed.relocate_andThen g _ fun name _ => ?_
  rw [Parsed.relocate_done, Head.relocate, List.map_append, List.map_append]
  rfl

theorem finish_relocate (scope : List Text) (head : Head) (body : Body) :
    finish (stop.relocate g) scope (head.relocate g) (body.relocate g) =
      (finish stop scope head body).relocate g := by
  have closing :
      ((expect (stop.relocate g) .rbrace .unclosedBody
            (body.relocate g).rest).andThen fun _ rest =>
          expect (stop.relocate g) .semicolon .unterminatedMirror rest) =
        ((expect stop .rbrace .unclosedBody body.rest).andThen fun _ rest =>
          expect stop .semicolon .unterminatedMirror rest).relocate g
            (Token.relocate g) := by
    show (expect _ _ _ (body.rest.map (Token.relocate g))).andThen _ = _
    rw [expect_relocate]
    exact Parsed.relocate_andThen g _ fun _ _ => expect_relocate g stop _ _ _
  rw [finish, finish, closing]
  generalize (expect stop .rbrace .unclosedBody body.rest).andThen _ = ending
  obtain ⟨_ | t, rest, log⟩ := ending
  · simp [Definition.relocate, Parsed.relocate, Body.relocate]
  · cases sound : body.sound <;>
      simp [Definition.relocate, Parsed.relocate, Body.relocate,
        Head.relocate, Mirror.relocate, sound]

theorem readDefinition_relocate (scope : List Text)
    (head : Head) (tokens : List Token) :
    readDefinition (stop.relocate g) scope
      (head.relocate g) (tokens.map (Token.relocate g)) =
      (readDefinition stop scope head tokens).relocate g := by
  cases tokens with
  | nil => rfl
  | cons t ts =>
    rw [List.map_cons, readDefinition, readDefinition, Token.kind_relocate,
      readBody_relocate]
    cases t.kind <;> first | exact finish_relocate g stop scope head _ | rfl

theorem readMirror_relocate (scope : List Text) (tokens : List Token) :
    readMirror (stop.relocate g) scope (tokens.map (Token.relocate g)) =
      (readMirror stop scope tokens).relocate g := by
  rw [readMirror, readMirror, readHead_relocate]
  rcases readHead stop tokens with ⟨_ | head, rest, log⟩
  · rfl
  · dsimp only [Parsed.relocate, Option.map_some]
    rw [readDefinition_relocate]
    simp [Definition.relocate]

theorem Definition.next_relocate (d : Definition) :
    (d.relocate g).next = d.next.map (Token.relocate g) := by
  have complete : (d.relocate g).complete = d.complete := rfl
  rw [next, next, complete]
  split
  · rfl
  · exact skipStatement_relocate g d.rest 0

/-! ## Files -/

def Content.relocate (content : Content) : Content :=
  { includes := content.includes.map (Include.relocate g)
    mirrors := content.mirrors.map (Mirror.relocate g)
    log := content.log.map (Diagnostic.relocate g) }

def Block.relocate (block : Block) : Block :=
  { block with location := g block.location }

theorem Content.relocate_append (a b : Content) :
    (a ++ b).relocate g = a.relocate g ++ b.relocate g := by
  show Content.mk _ _ _ = Content.mk _ _ _
  simp [relocate]

theorem scopeOf_relocate (blocks : List Block) :
    scopeOf (blocks.map (Block.relocate g)) = scopeOf blocks := by
  rw [scopeOf, scopeOf, ← List.map_reverse, List.flatMap_map]
  rfl

theorem readNamespace_relocate (tokens : List Token) :
    readNamespace (stop.relocate g) (tokens.map (Token.relocate g)) =
      (readNamespace stop tokens).relocate g id := by
  rw [readNamespace, expect_relocate]
  refine Parsed.relocate_andThen g _ fun first _ => ?_
  simp only [pathTail_relocate]
  rcases pathTail (expect stop .identifier .missingNamespaceName tokens).rest
      with ⟨_ | components, rest⟩
  · exact blame_relocate g stop rest _ _
  · dsimp only
    rw [expect_relocate]
    exact Parsed.relocate_andThen g _ fun _ _ => rfl

def Step.relocate (step : Step) : Step :=
  { content := step.content.relocate g
    blocks := step.blocks.map (Block.relocate g)
    rest := step.rest.map (Token.relocate g) }

/-- An item other than a `#` line does not depend on places. -/
theorem readItem_relocate (blocks : List Block)
    {t : Token} (mark : t.kind ≠ .hash) (ts : List Token) :
    readItem (stop.relocate g) (blocks.map (Block.relocate g))
      (t.relocate g) (ts.map (Token.relocate g)) =
      (readItem stop blocks t ts).relocate g := by
  obtain closes | hash | named | ends | other := item_cases t
  · rw [readItem_of_rbrace stop blocks ts closes,
      readItem_of_rbrace _ (blocks.map (Block.relocate g))
        _ (t := t.relocate g) closes]
    cases blocks <;> rfl
  · exact absurd hash mark
  · rw [readItem_of_namespace stop blocks ts named,
      readItem_of_namespace _ _ _ (t := t.relocate g) named,
      readNamespace_relocate]
    rcases readNamespace stop ts with ⟨_ | components, rest, log⟩
    · simp [Parsed.relocate, Step.relocate, Content.relocate, Content.ofLog,
        skipStatement_relocate]
    · rfl
  · rw [readItem_of_semicolon stop blocks ts ends,
      readItem_of_semicolon _ _ _ (t := t.relocate g) ends]
    rfl
  · have other' : LeftToDefinition (t.relocate g) :=
      ⟨other.notClosing, other.notHash, other.notNamespace, other.notSemicolon⟩
    have definition := readMirror_relocate g stop (scopeOf blocks) (t :: ts)
    rw [List.map_cons] at definition
    rw [readItem_of_definition stop blocks ts other,
      readItem_of_definition _ _ _ other', scopeOf_relocate,
      definition, Definition.next_relocate]
    simp only [Step.relocate, Content.relocate, Definition.content,
      Definition.relocate]
    cases (readMirror stop (scopeOf blocks) (t :: ts)).mirror <;> rfl

/-- A file without `#` lines does not depend on places. -/
theorem readItems_relocate (blocks : List Block)
    {tokens : List Token} (marks : ∀ t ∈ tokens, t.kind ≠ .hash) :
    readItems (stop.relocate g) (blocks.map (Block.relocate g))
      (tokens.map (Token.relocate g)) =
      (readItems stop blocks tokens).relocate g := by
  induction blocks, tokens using items_induction stop with
  | nil blocks =>
    rw [List.map_nil, readItems.eq_def, readItems.eq_def]
    simp only [Content.relocate, Content.ofLog, List.map_map, List.map_nil]
    rfl
  | item blocks t ts ih =>
    rw [List.forall_mem_cons] at marks
    have further :=
      ih fun u found =>
          marks.2 u ((readItem_suffix stop blocks ts).subset found)
    rw [List.map_cons, readItems_cons, readItems_cons,
      readItem_relocate g stop blocks marks.1, Content.relocate_append,
      ← further]
    rfl

end

/-- Without `#` lines there are no includes. -/
theorem includes_readItems (stop : Token) (blocks : List Block)
    {tokens : List Token} (marks : ∀ t ∈ tokens, t.kind ≠ .hash) :
    (readItems stop blocks tokens).includes = [] := by
  induction blocks, tokens using items_induction stop with
  | nil blocks =>
    rw [readItems.eq_def]
    rfl
  | item blocks t ts ih =>
    rw [List.forall_mem_cons] at marks
    have further :=
      ih fun u found =>
          marks.2 u ((readItem_suffix stop blocks ts).subset found)
    have own : (readItem stop blocks t ts).content.includes = [] := by
      obtain closes | hash | named | ends | other := item_cases t
      · rw [readItem_of_rbrace stop blocks ts closes]
        cases blocks <;> rfl
      · exact absurd hash marks.1
      · rw [readItem_of_namespace stop blocks ts named]
        split <;> rfl
      · rw [readItem_of_semicolon stop blocks ts ends]
      · rw [readItem_of_definition stop blocks ts other]
        rfl
    rw [readItems_cons, Content.includes_append, own, further]
    rfl

end Decl
end MirrorAdapter
