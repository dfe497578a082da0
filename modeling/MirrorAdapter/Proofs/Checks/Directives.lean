import MirrorAdapter.Directive.Parser
import MirrorAdapter.Proofs.Checks.Forms
import Mathlib.Data.List.Forall2

/-!
# What sound directive lists say

Where nothing is wrong with the attributes of a type or a field, their
directives can be read off what is written there: cut all argument lists at
their commas, and look for the item that begins with the key. A type has all
types of all its `from` lists, in order; a field has for each key the one item
that is given.
-/
namespace MirrorAdapter
namespace Directive

/-! ## Items as they are written -/

/-- The items of attributes, in order. -/
def writtenItems (attributes : List Decl.Attribute) : List (List Token) :=
  attributes.flatMap fun a => splitArguments (a.arguments.getD [])

/-- Whether an item begins with the word of a key. -/
def isItemOf (key : Key) : List Token → Bool
  | [] => false
  | first :: _ => first.text == key.word

/-- The item that attributes give for a key. -/
def given (key : Key) (attributes : List Decl.Attribute) :
    Option (List Token) :=
  (writtenItems attributes).find? (isItemOf key)

/-- The tokens behind the key of an item and its parenthesis, up to the
parenthesis at the end. -/
def inParentheses (item : List Token) : List Token := (item.drop 2).dropLast

/-- The type that tokens spell. -/
def spelledType (tokens : List Token) : Reference :=
  ⟨Token.spell tokens, (tokens.headD default).location⟩

/-- The types that an item such as `from(T, U)` lists. -/
def listedTypes (item : List Token) : List Reference :=
  (splitArguments (inParentheses item)).map spelledType

/-- The function that an item such as `getter = "::read"` names. -/
def namedFunction (item : List Token) : Reference :=
  let literal := (item.drop 2).headD default
  ⟨Token.spell (Token.scanBody literal.location.file literal.text),
    literal.location⟩

theorem mem_of_mem_splitCommas {depth : Int} {tokens part : List Token}
    (h : part ∈ splitCommas depth tokens) {t : Token} (inside : t ∈ part) :
    t ∈ tokens := by
  induction tokens generalizing depth part t with
  | nil =>
    obtain rfl : part = [] := by simpa [splitCommas] using h
    cases inside
  | cons u ts ih =>
    rw [splitCommas] at h
    split at h
    · rcases List.mem_cons.mp h with rfl | later
      · cases inside
      · exact .tail _ (ih later inside)
    · split at h
      · rename_i none_left
        exact absurd none_left (splitCommas_ne_nil _ ts)
      · rename_i first others found
        have parts : ∀ other ∈ first :: others, ∀ v ∈ other, v ∈ ts :=
          fun other member v within => ih (by rw [found]; exact member) within
        rcases List.mem_cons.mp h with rfl | later
        · rcases List.mem_cons.mp inside with rfl | behind
          · exact .head _
          · exact .tail _ (parts first (.head _) t behind)
        · exact .tail _ (parts part (.tail _ later) t inside)

theorem mem_of_mem_splitArguments {tokens part : List Token}
    (h : part ∈ splitArguments tokens) {t : Token} (inside : t ∈ part) :
    t ∈ tokens := by
  unfold splitArguments at h
  split at h
  · cases h
  · exact mem_of_mem_splitCommas h inside

theorem eq_of_splitArguments_eq_singleton {tokens part : List Token}
    (h : splitArguments tokens = [part]) : part = tokens := by
  unfold splitArguments at h
  split at h
  · cases h
  · exact eq_of_splitCommas_eq_singleton h

/-! ## Reading parts one by one -/

section
variable {α β : Type} {read : α → Except Finding β}

@[simp] theorem findings_cons_ok (b : β) (parts : List (Except Finding β)) :
    findings (.ok b :: parts) = findings parts := rfl

@[simp] theorem findings_cons_error (found : Finding)
    (parts : List (Except Finding β)) :
    findings (.error found :: parts) = found :: findings parts := rfl

@[simp] theorem sound_cons_ok (b : β) (parts : List (Except Finding β)) :
    sound (.ok b :: parts) = b :: sound parts := rfl

theorem mem_findings {parts : List (Except Finding β)} {found : Finding} :
    found ∈ findings parts ↔ .error found ∈ parts := by
  rw [findings, List.mem_filterMap]
  constructor
  · rintro ⟨_ | b, member, same⟩
    · rwa [← Option.some.inj same]
    · cases same
  · intro member
    exact ⟨_, member, rfl⟩

/-- Without findings every part has been read. -/
theorem forall₂_sound {parts : List α} (h : findings (parts.map read) = []) :
    List.Forall₂ (fun part b => read part = .ok b) parts
      (sound (parts.map read)) := by
  induction parts with
  | nil => exact .nil
  | cons part parts ih =>
    rw [List.map_cons] at h ⊢
    cases result : read part with
    | error found => simp [result] at h
    | ok b =>
      rw [result] at h
      exact .cons result (ih h)

/-- Where each part has one reading at most, the readings are those of the
parts. -/
theorem sound_eq_map {parts : List α} {f : α → β}
    (h : findings (parts.map read) = [])
    (value : ∀ part b, read part = .ok b → b = f part) :
    sound (parts.map read) = parts.map f := by
  have same : List.Forall₂ (· = ·) (sound (parts.map read)) (parts.map f) :=
    List.forall₂_map_right_iff.mpr ((forall₂_sound h).imp value).flip
  rwa [List.forall₂_eq_eq_eq] at same

end

/-! ## Items -/

/-- The item was read from the part, whatever place was to be blamed for an
empty one. -/
def Writes (part : List Token) (item : Item) : Prop :=
  ∃ fallback, readItem fallback part = .ok item

/-- What the key and the argument of an item are in terms of its part. -/
structure Written (part : List Token) (item : Item) : Prop where
  key : ∀ k : Key, isItemOf k part = true ↔ item.key = k.word
  location : item.location = (part.headD default).location
  list : ∀ tokens, item.argument = .list tokens → tokens = inParentheses part
  value : ∀ tokens, item.argument = .value tokens → tokens = part.drop 2

theorem Form.written {part : List Token} {argument : Argument}
    (h : Form part argument) : Written part (writtenItem part argument) where
  key := by
    intro k
    cases h <;> simp [isItemOf, writtenItem]
  location := rfl
  list := by
    rintro tokens rfl
    cases h with
    | list => simp [inParentheses]
  value := by
    rintro tokens rfl
    cases h with
    | value => rfl

theorem Writes.written {part : List Token} {item : Item}
    (h : Writes part item) : Written part item := by
  obtain ⟨fallback, h⟩ := h
  obtain ⟨argument, form, read⟩ | ⟨found, read, -⟩ :=
    readItem_cases fallback part
  · rw [read] at h
    obtain rfl := Except.ok.inj h
    exact form.written
  · rw [read] at h
    cases h

/-- An attribute without findings has items, and each of them was read. -/
theorem writes_readItems {a : Decl.Attribute}
    (h : findings (readItems a) = []) :
    List.Forall₂ Writes (splitArguments (a.arguments.getD []))
      (sound (readItems a)) := by
  unfold readItems at h ⊢
  split at h
  · simp [findings] at h
  · simp [findings] at h
  · rename_i tokens _ given
    rw [given]
    exact (forall₂_sound h).imp fun part item read => ⟨a.location, read⟩

/-- All items that could be read from attributes. -/
def itemsOf (attributes : List Decl.Attribute) : List Item :=
  attributes.flatMap fun a => sound (readItems a)

theorem writes_itemsOf {attributes : List Decl.Attribute}
    (h : ∀ a ∈ attributes, findings (readItems a) = []) :
    List.Forall₂ Writes (writtenItems attributes) (itemsOf attributes) := by
  induction attributes with
  | nil => exact .nil
  | cons a rest ih =>
    rw [List.forall_mem_cons] at h
    rw [writtenItems, itemsOf, List.flatMap_cons, List.flatMap_cons]
    exact List.rel_append (writes_readItems h.1) (ih h.2)

/-! ## Keys and types -/

theorem ofWord?_eq_some_iff (word : Text) (key : Key) :
    Key.ofWord? word = some key ↔ word = key.word := by
  constructor
  · intro h
    have same : (key.word == word) = true :=
      List.find?_some (p := fun k : Key => k.word == word) h
    exact (eq_of_beq same).symm
  · rintro rfl
    cases key <;> decide +kernel

theorem word_injective {key other : Key} (h : key.word = other.word) :
    key = other := by
  have same := (ofWord?_eq_some_iff key.word key).mpr rfl
  rwa [(ofWord?_eq_some_iff key.word other).mpr h, Option.some.injEq, eq_comm]
    at same

theorem eq_spelledType {item : Item} {tokens : List Token} {type : Reference}
    (h : readType item tokens = .ok type) : type = spelledType tokens := by
  unfold readType at h
  split at h
  · cases h
  · split at h
    · cases h
    · exact (Except.ok.inj h).symm

/-- Where nothing is wrong with a type list, it is one. -/
theorem readTypes_silent {part : List Token} {item : Item}
    (written : Written part item) (h : (readTypes item).2 = []) :
    (∃ tokens, item.argument = .list tokens) ∧
    (readTypes item).1 = listedTypes part := by
  unfold readTypes at h ⊢
  cases list : item.argument with
  | list tokens =>
    rw [list] at h
    obtain rfl := written.list tokens list
    exact ⟨⟨_, rfl⟩, sound_eq_map h fun part type => eq_spelledType⟩
  | absent => simp [list] at h
  | value tokens => simp [list] at h

theorem readSingleType_ok {part : List Token} {item : Item}
    (written : Written part item) {type : Reference}
    (h : readSingleType item = .ok type) :
    type = spelledType (inParentheses part) := by
  unfold readSingleType at h
  split at h <;> try cases h
  rename_i found
  obtain ⟨-, types⟩ := readTypes_silent written (by rw [found])
  rw [found] at types
  -- There is one part only, so nothing was cut off.
  obtain ⟨tokens, one, rfl⟩ := List.map_eq_singleton_iff.mp types.symm
  rw [eq_of_splitArguments_eq_singleton one]

theorem readSingleType_ne_error_nil (item : Item) :
    readSingleType item ≠ .error [] := by
  unfold readSingleType
  split <;> simp_all

theorem readGetter_ok {part : List Token} {item : Item}
    (written : Written part item) {function : Reference}
    (h : readGetter item = .ok function) : function = namedFunction part := by
  unfold readGetter at h
  split at h
  · rename_i literal value
    have tokens := written.value _ value
    split at h
    · dsimp only at h
      split at h
      · obtain rfl := Except.ok.inj h
        simp [namedFunction, ← tokens]
      · cases h
    · cases h
  · cases h

/-! ## Types -/

/-- An item of a type on which nothing was found lists remote types. -/
theorem typeItem_silent {part : List Token} {item : Item}
    (written : Written part item) (h : (typeItem item).2 = []) :
    isItemOf .source part = true ∧ (typeItem item).1 = listedTypes part := by
  unfold typeItem at h ⊢
  split at h
  · rename_i key
    exact ⟨(written.key .source).mpr ((ofWord?_eq_some_iff _ _).mp key),
      (readTypes_silent written h).2⟩
  · cases h
  · cases h

theorem typeItems_silent {parts : List (List Token)} {items : List Item}
    (written : List.Forall₂ Writes parts items)
    (h : ∀ item ∈ items, (typeItem item).2 = []) :
    (∀ part ∈ parts, isItemOf .source part = true) ∧
    items.flatMap (fun item => (typeItem item).1) =
      parts.flatMap listedTypes := by
  induction written with
  | nil => simp
  | cons first _ ih =>
    rw [List.forall_mem_cons] at h
    obtain ⟨key, types⟩ := typeItem_silent first.written h.1
    obtain ⟨keys, others⟩ := ih h.2
    exact ⟨List.forall_mem_cons.mpr ⟨key, keys⟩,
      by rw [List.flatMap_cons, List.flatMap_cons, types, others]⟩

/-- The `from` lists of a type, in order. -/
def sourceLists (attributes : List Decl.Attribute) : List (List Reference) :=
  ((writtenItems attributes).filter (isItemOf .source)).map listedTypes

theorem typeAttributes_silent {attributes : List Decl.Attribute}
    (h : (typeAttributes attributes).2 = []) :
    (∀ part ∈ writtenItems attributes, isItemOf .source part = true) ∧
    (typeAttributes attributes).1 = (sourceLists attributes).flatten := by
  simp only [typeAttributes, List.flatMap_eq_nil_iff, List.append_eq_nil_iff]
    at h
  have written := writes_itemsOf fun a found => (h a found).1
  have silent : ∀ item ∈ itemsOf attributes, (typeItem item).2 = [] := by
    intro item found
    obtain ⟨a, member, inside⟩ := List.mem_flatMap.mp found
    exact (h a member).2 _ (List.mem_map_of_mem inside)
  obtain ⟨keys, types⟩ := typeItems_silent written silent
  refine ⟨keys, ?_⟩
  rw [sourceLists, List.filter_eq_self.mpr keys, ← List.flatMap_def,
    ← types, itemsOf, List.flatMap_assoc]
  simp [typeAttributes, List.flatMap_map]

/-! ## Fields -/

/-- What an item with the key does to the directives of a field if nothing is
found on it: it sets what had not been set. -/
inductive Sets (item : Item) (d : FieldDirectives) :
    Key → FieldDirectives → Prop
  | source {type : Reference} :
      d.source = none → readSingleType item = .ok type →
      Sets item d .source { d with source := some type }
  | via {type : Reference} : d.via = none → readSingleType item = .ok type →
      Sets item d .via { d with via := some type }
  | getter {function : Reference} :
      d.getter = none → readGetter item = .ok function →
      Sets item d .getter { d with getter := some function }
  | getterOwned :
      d.getterOwned = false → Sets item d .getterOwned
        { d with getterOwned := true, getterOwnedLocation := item.location }

theorem setOnce_silent {α : Type} {item : Item} {given : Bool}
    {value : Except (List Finding) α} {set : α → FieldDirectives}
    {d d' : FieldDirectives} (h : setOnce item given value set d = (d', []))
    (reported : value ≠ .error []) :
    given = false ∧ ∃ a, value = .ok a ∧ d' = set a := by
  unfold setOnce at h
  split at h
  · simp at h
  rename_i new
  cases value with
  | error found =>
    obtain ⟨-, rfl⟩ := Prod.mk.inj h
    exact absurd rfl reported
  | ok a => exact ⟨by simpa using new, a, rfl, (Prod.mk.inj h).1.symm⟩

theorem sets_of_fieldItem {item : Item}
    {d d' : FieldDirectives} (h : fieldItem d item = (d', [])) :
    ∃ key : Key, item.key = key.word ∧ Sets item d key d' := by
  unfold fieldItem at h
  split at h <;> rename_i key <;> try rw [ofWord?_eq_some_iff] at key
  · obtain ⟨new, type, value, rfl⟩ :=
      setOnce_silent h (readSingleType_ne_error_nil item)
    exact ⟨_, key, .source (by simpa using new) value⟩
  · obtain ⟨new, type, value, rfl⟩ :=
      setOnce_silent h (readSingleType_ne_error_nil item)
    exact ⟨_, key, .via (by simpa using new) value⟩
  · obtain ⟨new, function, value, rfl⟩ :=
      setOnce_silent h (by cases readGetter item <;> simp [Except.mapError])
    refine ⟨_, key, .getter (by simpa using new) ?_⟩
    cases result : readGetter item with
    | error found => simp [result, Except.mapError] at value
    | ok function' => simpa [result, Except.mapError] using value
  · obtain ⟨new, location, value, rfl⟩ := setOnce_silent h (by split <;> simp)
    split at value
    · obtain rfl := Except.ok.inj value
      exact ⟨_, key, .getterOwned (by simpa using new)⟩
    · cases value
  · simp at h

/-- A slot of the directives that items of one key fill with a value, and all
others leave alone. -/
structure FilledBy {β : Type} (key : Key) (value : List Token → β)
    (slot : FieldDirectives → Option β) : Prop where
  empty : slot {} = none
  fill : ∀ {part item d d'}, Written part item → Sets item d key d' →
    slot d = none ∧ slot d' = some (value part)
  leave :
    ∀ {item d d' other}, other ≠ key → Sets item d other d' → slot d' = slot d

theorem filledBy_source :
    FilledBy .source (fun part => spelledType (inParentheses part))
      (·.source) where
  empty := rfl
  fill := by
    rintro _ _ _ _ written ⟨new, type⟩
    exact ⟨new, congrArg some (readSingleType_ok written type)⟩
  leave := by
    rintro _ _ _ _ other (_ | _ | _ | _) <;> first | rfl |
      exact absurd rfl other

theorem filledBy_via :
    FilledBy .via (fun part => spelledType (inParentheses part)) (·.via) where
  empty := rfl
  fill := by
    rintro _ _ _ _ written (_ | ⟨new, type⟩)
    exact ⟨new, congrArg some (readSingleType_ok written type)⟩
  leave := by
    rintro _ _ _ _ other (_ | _ | _ | _) <;> first | rfl |
      exact absurd rfl other

theorem filledBy_getter : FilledBy .getter namedFunction (·.getter) where
  empty := rfl
  fill := by
    rintro _ _ _ _ written (_ | _ | ⟨new, function⟩)
    exact ⟨new, congrArg some (readGetter_ok written function)⟩
  leave := by
    rintro _ _ _ _ other (_ | _ | _ | _) <;> first | rfl |
      exact absurd rfl other

/-- The flag counts as a slot for the place where it was given. -/
def FieldDirectives.flag (d : FieldDirectives) : Option Location :=
  if d.getterOwned then some d.getterOwnedLocation else none

theorem filledBy_flag :
    FilledBy .getterOwned (fun part => (part.headD default).location)
      FieldDirectives.flag where
  empty := rfl
  fill := by
    rintro _ _ _ _ written (_ | _ | _ | ⟨new⟩)
    exact ⟨by simp [FieldDirectives.flag, new],
      by simp [FieldDirectives.flag, written.location]⟩
  leave := by
    rintro _ _ _ _ other (_ | _ | _ | _) <;> first | rfl |
      exact absurd rfl other

theorem fieldItems_cons (d : FieldDirectives)
    (item : Item) (items : List Item) :
    fieldItems d (item :: items) =
      ((fieldItems (fieldItem d item).1 items).1,
        (fieldItem d item).2 ++ (fieldItems (fieldItem d item).1 items).2) :=
  rfl

/-- Items on which nothing was found fill a slot with the value of the first
item of its key, unless it was filled before. -/
theorem FilledBy.fieldItems {β : Type} {key : Key} {value : List Token → β}
    {slot : FieldDirectives → Option β} (h : FilledBy key value slot)
    {parts : List (List Token)} {items : List Item}
    (written : List.Forall₂ Writes parts items) {d d' : FieldDirectives}
    (silent : fieldItems d items = (d', [])) :
    slot d' = (slot d).or ((parts.find? (isItemOf key)).map value) := by
  induction written generalizing d with
  | nil =>
    obtain rfl := (Prod.mk.inj silent).1
    simp
  | @cons part item parts items first _ ih =>
    rw [fieldItems_cons] at silent
    obtain ⟨rfl, none_found⟩ := Prod.mk.inj silent
    obtain ⟨none_first, none_later⟩ := List.append_eq_nil_iff.mp none_found
    obtain ⟨other, word, sets⟩ := sets_of_fieldItem (Prod.ext rfl none_first)
    rw [ih (Prod.ext rfl none_later), List.find?_cons]
    by_cases same : other = key
    · subst same
      obtain ⟨new, filled⟩ := h.fill first.written sets
      simp [(first.written.key other).mpr word, new, filled]
    · have skipped : isItemOf key part = false := by
        rw [Bool.eq_false_iff, ne_eq, first.written.key, word]
        exact fun words => same (word_injective words)
      simp [skipped, h.leave same sets]

theorem fieldItems_append (d : FieldDirectives) (a b : List Item) :
    fieldItems d (a ++ b) =
      ((fieldItems (fieldItems d a).1 b).1,
        (fieldItems d a).2 ++ (fieldItems (fieldItems d a).1 b).2) := by
  induction a generalizing d with
  | nil => rfl
  | cons item a ih =>
    simp only [List.cons_append, fieldItems_cons, ih, List.append_assoc]

/-- Attributes without findings do to the directives what all their items
do. -/
theorem fieldAttributes_silent {attributes : List Decl.Attribute}
    {d : FieldDirectives} (h : (fieldAttributes d attributes).2 = []) :
    (∀ a ∈ attributes, findings (readItems a) = []) ∧
    fieldItems d (itemsOf attributes) =
      ((fieldAttributes d attributes).1, []) := by
  induction attributes generalizing d with
  | nil => exact ⟨by simp, rfl⟩
  | cons a rest ih =>
    have found :
        findings (readItems a) ++ (fieldItems d (sound (readItems a))).2 ++
          (fieldAttributes (fieldItems d (sound (readItems a))).1 rest).2 =
          [] :=
      h
    simp only [List.append_eq_nil_iff] at found
    obtain ⟨⟨form, items⟩, later⟩ := found
    obtain ⟨forms, whole⟩ := ih later
    refine ⟨List.forall_mem_cons.mpr ⟨form, forms⟩, ?_⟩
    rw [itemsOf, List.flatMap_cons, fieldItems_append, items, ← itemsOf, whole]
    rfl

/-- The directives are those that attributes give. -/
structure FieldDirectives.GivenBy (attributes : List Decl.Attribute)
    (d : FieldDirectives) : Prop where
  source : d.source = (given .source attributes).map
        fun item => spelledType (inParentheses item)
  via : d.via =
      (given .via attributes).map fun item => spelledType (inParentheses item)
  getter : d.getter = (given .getter attributes).map namedFunction
  getterOwned : d.getterOwned = (given .getterOwned attributes).isSome

theorem of_conclude_ok {α : Type} {subject : Subject}
    {error : Error} {value a : α} {found : List Finding}
    (h : (conclude subject error value found).result = .ok a) :
    found = [] ∧ value = a := by
  unfold conclude at h
  dsimp only at h
  split at h
  · exact ⟨List.isEmpty_iff.mp ‹_›, Except.ok.inj h⟩
  · cases h

/-- What is read of a field fills each slot with the value of the item that is
given for its key. -/
theorem FilledBy.ofField {β : Type} {key : Key}
    {value : List Token → β} {slot : FieldDirectives → Option β}
    (filled : FilledBy key value slot) {m : Decl.Mirror} {f : Decl.Field}
    {d : FieldDirectives} (h : (ofField m f).result = .ok d) :
    slot d = (given key f.attributes).map value := by
  obtain ⟨none_found, rfl⟩ := of_conclude_ok h
  obtain ⟨forms, items⟩ := fieldAttributes_silent none_found
  rw [filled.fieldItems (writes_itemsOf forms) items, filled.empty,
    Option.none_or, given]

theorem givenBy_of_ofField {m : Decl.Mirror} {f : Decl.Field}
    {d : FieldDirectives} (h : (ofField m f).result = .ok d) :
    d.GivenBy f.attributes := by
  refine ⟨filledBy_source.ofField h, filledBy_via.ofField h,
    filledBy_getter.ofField h, ?_⟩
  have flag := congrArg Option.isSome (filledBy_flag.ofField h)
  rw [Option.isSome_map] at flag
  rw [← flag, FieldDirectives.flag]
  cases d.getterOwned <;> rfl

theorem remoteTypes_of_ofType {m : Decl.Mirror}
    {d : TypeDirectives} (h : (ofType m).result = .ok d) :
    d.remoteTypes = (sourceLists m.attributes).flatten := by
  obtain ⟨none_found, rfl⟩ := of_conclude_ok h
  exact (typeAttributes_silent none_found).2

end Directive
end MirrorAdapter
