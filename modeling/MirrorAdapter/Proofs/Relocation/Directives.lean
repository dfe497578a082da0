import MirrorAdapter.Directive.Parser
import MirrorAdapter.Proofs.Relocation.Tokens

/-!
# Directives of moved declarations

The directives of a moved declaration are those of the declaration itself,
moved. A getter stands in a string literal, whose tokens are cut out anew
under the name of its file; the name of the file does not matter.
-/
namespace MirrorAdapter
namespace Directive

section
variable (g : Location → Location)

def Argument.relocate : Argument → Argument
  | .absent => .absent
  | .list tokens => .list (tokens.map (Token.relocate g))
  | .value tokens => .value (tokens.map (Token.relocate g))

def Item.relocate (item : Item) : Item :=
  { item with
    location := g item.location, argument := item.argument.relocate g }

def Finding.relocate (f : Finding) : Finding :=
  { f with location := g f.location }

def TypeDirectives.relocate (d : TypeDirectives) : TypeDirectives :=
  { d with
    location := g d.location,
    remoteTypes := d.remoteTypes.map (Reference.relocate g) }

/-- A flag that is not given has no place. -/
def FieldDirectives.relocate (d : FieldDirectives) : FieldDirectives :=
  { source := d.source.map (Reference.relocate g)
    via := d.via.map (Reference.relocate g)
    getter := d.getter.map (Reference.relocate g)
    getterOwned := d.getterOwned
    getterOwnedLocation :=
      if d.getterOwned then g d.getterOwnedLocation
      else d.getterOwnedLocation }

def Model.relocate (model : Model) : Model :=
  { type := model.type.relocate g,
    fields := model.fields.map (FieldDirectives.relocate g) }

/-! ## Items -/

theorem splitCommas_relocate (depth : Int) (tokens : List Token) :
    splitCommas depth (tokens.map (Token.relocate g)) =
      (splitCommas depth tokens).map (List.map (Token.relocate g)) := by
  induction tokens generalizing depth with
  | nil => rfl
  | cons t ts ih =>
    rw [List.map_cons, splitCommas, splitCommas, Token.kind_relocate, ih, ih]
    split
    · rfl
    · rcases splitCommas (depth + t.kind.nesting) ts
          with _ | ⟨part, parts⟩ <;> rfl

theorem splitArguments_relocate (tokens : List Token) :
    splitArguments (tokens.map (Token.relocate g)) =
      (splitArguments tokens).map (List.map (Token.relocate g)) := by
  rw [splitArguments, splitArguments, List.isEmpty_map, splitCommas_relocate]
  split <;> rfl

theorem readItem_relocate (fallback : Location) (tokens : List Token) :
    readItem (g fallback) (tokens.map (Token.relocate g)) =
      moved (Finding.relocate g) (Item.relocate g)
        (readItem fallback tokens) := by
  match tokens with
  | [] => rfl
  | [first] =>
    simp only [List.map_cons, List.map_nil, readItem, Token.kind_relocate,
      apply_ite (moved (Finding.relocate g) (Item.relocate g))]
    rfl
  | first :: second :: more =>
    have whole := Token.balanced_relocate g (first :: second :: more)
    have inside := Token.balanced_relocate g more.dropLast
    rw [List.map_cons, List.map_cons] at whole ⊢
    simp only [readItem, Token.kind_relocate, ← List.map_dropLast,
      whole, inside, List.getLast?_map, List.isEmpty_map,
      apply_ite (moved (Finding.relocate g) (Item.relocate g))]
    rcases more.getLast? with _ | last <;> rfl

variable {α : Type} (move : α → α)

theorem sound_relocate (parts : List (Except Finding α)) :
    sound (parts.map (moved (Finding.relocate g) move)) =
      (sound parts).map move := by
  rw [sound, sound, List.filterMap_map, List.map_filterMap]
  congr 1
  funext part
  cases part <;> rfl

theorem findings_relocate (parts : List (Except Finding α)) :
    findings (parts.map (moved (Finding.relocate g) move)) =
      (findings parts).map (Finding.relocate g) := by
  rw [findings, findings, List.filterMap_map, List.map_filterMap]
  congr 1
  funext part
  cases part <;> rfl

theorem readItems_relocate (a : Decl.Attribute) :
    readItems (a.relocate g) =
      (readItems a).map (moved (Finding.relocate g) (Item.relocate g)) := by
  rcases a with ⟨name, location, _ | _ | ⟨t, ts⟩⟩
  · rfl
  · rfl
  · show (splitArguments ((t :: ts).map (Token.relocate g))).map
        (readItem (g location)) = _
    rw [splitArguments_relocate, List.map_map]
    show _ = ((splitArguments (t :: ts)).map (readItem location)).map _
    rw [List.map_map]
    exact List.map_congr_left fun part _ => readItem_relocate g location part

/-! ## Values -/

theorem readType_relocate (item : Item) (tokens : List Token) :
    readType (item.relocate g) (tokens.map (Token.relocate g)) =
      moved (Finding.relocate g) (Reference.relocate g)
        (readType item tokens) := by
  cases tokens with
  | nil => rfl
  | cons first more =>
    have spelling := Token.spell_relocate g (first :: more)
    rw [List.map_cons] at spelling ⊢
    simp only [readType, spelling, Token.kind_relocate]
    split <;> rfl

theorem readTypes_relocate (item : Item) :
    readTypes (item.relocate g) =
      ((readTypes item).1.map (Reference.relocate g),
        (readTypes item).2.map (Finding.relocate g)) := by
  rcases item with ⟨key, location, _ | tokens | tokens⟩
  · rfl
  · have types :
        (splitArguments (tokens.map (Token.relocate g))).map
          (readType ((Item.mk key location (.list tokens)).relocate g)) =
          ((splitArguments tokens).map
              (readType ⟨key, location, .list tokens⟩)).map
            (moved (Finding.relocate g) (Reference.relocate g)) := by
      rw [splitArguments_relocate, List.map_map, List.map_map]
      exact List.map_congr_left fun part _ => readType_relocate g _ part
    show (sound ((splitArguments (tokens.map (Token.relocate g))).map _),
          findings _)
        = _
    rw [types, sound_relocate, findings_relocate]
    rfl
  · rfl

theorem readSingleType_relocate (item : Item) :
    readSingleType (item.relocate g) = moved (List.map (Finding.relocate g))
        (Reference.relocate g) (readSingleType item) := by
  rw [readSingleType, readSingleType, readTypes_relocate]
  rcases readTypes item
      with ⟨_ | ⟨type, _ | ⟨more, types⟩⟩, _ | ⟨found, others⟩⟩ <;> rfl

theorem namePath_relocate (depth : Nat)
    (expectName : Bool) (tokens : List Token) :
    namePath depth expectName (tokens.map (Token.relocate g)) =
      namePath depth expectName tokens := by
  fun_induction namePath depth expectName tokens <;> simp_all [namePath]

theorem hasScope_relocate (depth : Nat) (tokens : List Token) :
    hasScope depth (tokens.map (Token.relocate g)) = hasScope depth tokens := by
  fun_induction hasScope depth tokens <;> simp_all [hasScope]

theorem isQualifiedName_relocate (tokens : List Token) :
    isQualifiedName (tokens.map (Token.relocate g)) =
      isQualifiedName tokens := by
  have afterScope :
      (if Token.startsWith .scope tokens then
          (tokens.map (Token.relocate g)).tail
        else tokens.map (Token.relocate g)) =
      (if Token.startsWith .scope tokens then tokens.tail else tokens).map
        (Token.relocate g) := by
    split
    · rw [List.map_tail]
    · rfl
  simp only [isQualifiedName, Token.startsWith_relocate,
    afterScope, Token.balanced_relocate, namePath_relocate,
    hasScope_relocate, List.getLast?_map]
  rcases tokens.getLast? with _ | last <;> rfl

theorem readGetter_relocate (item : Item) :
    readGetter (item.relocate g) =
      moved (Finding.relocate g) (Reference.relocate g) (readGetter item) := by
  rcases item
      with ⟨key, location, _ | tokens | _ | ⟨literal, _ | ⟨second, more⟩⟩⟩
  · rfl
  · rfl
  · rfl
  · -- What stands in the literal is scanned under the name of the file, which
    -- is another one now.
    have again :=
      Token.scanBody_relocate literal.location.file
        (g literal.location).file literal.text
    simp only [Item.relocate, Argument.relocate, readGetter,
      List.map_cons, List.map_nil, Token.kind_relocate,
      Token.location_relocate, Token.text_relocate, again,
      isQualifiedName_relocate, Token.spell_relocate,
      apply_ite (moved (Finding.relocate g) (Reference.relocate g))]
    rfl
  · rfl

/-! ## Declarations -/

theorem typeItem_relocate (item : Item) :
    typeItem (item.relocate g) =
      ((typeItem item).1.map (Reference.relocate g),
        (typeItem item).2.map (Finding.relocate g)) := by
  have key : (item.relocate g).key = item.key := rfl
  rw [typeItem, typeItem, key]
  rcases Key.ofWord? item.key with _ | key
  · rfl
  · cases key
    · exact readTypes_relocate g item
    all_goals rfl

theorem setOnce_relocate {α : Type} (item : Item)
    (given : Bool) {value value' : Except (List Finding) α}
    {set set' : α → FieldDirectives} (move : α → α) (d : FieldDirectives)
    (values : value' = moved (List.map (Finding.relocate g)) move value)
    (sets : ∀ a, set' (move a) = (set a).relocate g) :
    setOnce (item.relocate g) given value' set' (d.relocate g) =
      ((setOnce item given value set d).1.relocate g,
        (setOnce item given value set d).2.map (Finding.relocate g)) := by
  cases given
  · rcases value with found | a
    · simp [setOnce, values, moved]
    · simp [setOnce, values, moved, sets]
  · rfl

theorem fieldItem_relocate (d : FieldDirectives) (item : Item) :
    fieldItem (d.relocate g) (item.relocate g) =
      ((fieldItem d item).1.relocate g,
        (fieldItem d item).2.map (Finding.relocate g)) := by
  have key : (item.relocate g).key = item.key := rfl
  have set {r : Option Reference} :
      (r.map (Reference.relocate g)).isSome = r.isSome :=
    Option.isSome_map
  rw [fieldItem, fieldItem, key]
  rcases Key.ofWord? item.key with _ | key
  · rfl
  · cases key with
    | source =>
      have given : (d.relocate g).source.isSome = d.source.isSome := set
      dsimp only
      rw [given]
      exact setOnce_relocate g item _ (Reference.relocate g) d
        (readSingleType_relocate g item) fun _ => rfl
    | via =>
      have given : (d.relocate g).via.isSome = d.via.isSome := set
      dsimp only
      rw [given]
      exact setOnce_relocate g item _ (Reference.relocate g) d
        (readSingleType_relocate g item) fun _ => rfl
    | getter =>
      have given : (d.relocate g).getter.isSome = d.getter.isSome := set
      dsimp only
      rw [given, readGetter_relocate]
      refine setOnce_relocate g item _ (Reference.relocate g) d ?_ fun _ => rfl
      rcases readGetter item with found | function <;> rfl
    | getterOwned =>
      refine setOnce_relocate g item _ g d ?_ fun _ => rfl
      rcases item with ⟨key, location, _ | tokens | tokens⟩ <;> rfl

theorem fieldItems_relocate (d : FieldDirectives) (items : List Item) :
    fieldItems (d.relocate g) (items.map (Item.relocate g)) =
      ((fieldItems d items).1.relocate g,
        (fieldItems d items).2.map (Finding.relocate g)) := by
  induction items generalizing d with
  | nil => rfl
  | cons item items ih =>
    simp only [List.map_cons, fieldItems, fieldItem_relocate, ih,
      List.map_append]

theorem fieldAttributes_relocate (d : FieldDirectives)
    (attributes : List Decl.Attribute) :
    fieldAttributes (d.relocate g)
      (attributes.map (Decl.Attribute.relocate g)) =
      ((fieldAttributes d attributes).1.relocate g,
        (fieldAttributes d attributes).2.map (Finding.relocate g)) := by
  induction attributes generalizing d with
  | nil => rfl
  | cons a attributes ih =>
    simp only [List.map_cons, fieldAttributes, readItems_relocate,
      sound_relocate, findings_relocate, fieldItems_relocate, ih,
      List.map_append]

theorem typeAttributes_relocate (attributes : List Decl.Attribute) :
    typeAttributes (attributes.map (Decl.Attribute.relocate g)) =
      ((typeAttributes attributes).1.map (Reference.relocate g),
        (typeAttributes attributes).2.map (Finding.relocate g)) := by
  simp only [typeAttributes, List.flatMap_map, readItems_relocate,
    sound_relocate, findings_relocate, List.map_flatMap, List.map_append,
    typeItem_relocate]

theorem result_conclude_relocate {α : Type} (move : α → α)
    (subject : Subject) (error : Error) (value : α) (found : List Finding) :
    (conclude subject error (move value)
        (found.map (Finding.relocate g))).result =
      (conclude subject error value found).result.map move := by
  simp only [conclude, List.isEmpty_map]
  split <;> rfl

theorem result_ofType_relocate (m : Decl.Mirror) :
    (ofType (m.relocate g)).result =
      (ofType m).result.map (TypeDirectives.relocate g) := by
  have name : (m.relocate g).qualifiedName = m.qualifiedName := rfl
  have attributes :
      (m.relocate g).attributes =
        m.attributes.map (Decl.Attribute.relocate g) :=
    rfl
  rw [ofType, ofType, attributes, typeAttributes_relocate, name,
    ← result_conclude_relocate g]
  cases m.attributes <;> rfl

theorem result_ofField_relocate (m : Decl.Mirror) (f : Decl.Field) :
    (ofField (m.relocate g) (f.relocate g)).result =
      (ofField m f).result.map (FieldDirectives.relocate g) := by
  have attributes := fieldAttributes_relocate g {} f.attributes
  have nothing : ({} : FieldDirectives).relocate g = {} := rfl
  rw [nothing] at attributes
  rw [ofField, ofField, ← result_conclude_relocate g]
  show (conclude _ _ (fieldAttributes {}
            (f.attributes.map (Decl.Attribute.relocate g))).1
          (fieldAttributes {}
              (f.attributes.map (Decl.Attribute.relocate g))).2).result
      = _
  rw [attributes]
  rfl

/-- The directives of a moved declaration are those of the declaration, moved,
and if there are none, that is so for the same reason. -/
theorem result_ofMirror_relocate (m : Decl.Mirror) :
    (ofMirror (m.relocate g)).result =
      (ofMirror m).result.map (Model.relocate g) := by
  have fields (fs : List Decl.Field) :
      ((fs.map (Decl.Field.relocate g)).map (ofField (m.relocate g))).mapM
        Outcome.result =
        ((fs.map (ofField m)).mapM Outcome.result).map
          (List.map (FieldDirectives.relocate g)) := by
    induction fs with
    | nil => rfl
    | cons f fs ih =>
      simp only [List.map_cons, List.mapM_cons, result_ofField_relocate, ih]
      rcases (ofField m f).result with error | d
      · rfl
      · rcases (fs.map (ofField m)).mapM Outcome.result with error | ds <;> rfl
  rw [ofMirror, ofMirror]
  dsimp only
  rw [result_ofType_relocate,
    show (m.relocate g).fields = m.fields.map (Decl.Field.relocate g) from rfl,
    fields]
  rcases (ofType m).result with error | type
  · rfl
  · rcases (m.fields.map (ofField m)).mapM Outcome.result
        with error | ds <;> rfl

end
end Directive
end MirrorAdapter
