import MirrorAdapter.Proofs.Checks.Directives
import MirrorAdapter.Proofs.Checks.QualifiedNames

/-!
# Entries of directive lists

The attributes of a type or a field are read entry by entry: an entry is an
item between two commas of an argument list, or an attribute that has none. On
a field an entry sets a directive if it has the key of one that is not set
yet, and an argument such as the key takes (`Takes`); otherwise it is blamed,
and leaves all directives alone (`Added`).
-/
namespace MirrorAdapter
namespace Directive

open Grammar (CountedName)

/-! ## Entries -/

namespace Entry

/-- The entries of an attribute, in order. An attribute without arguments has
one entry without tokens. -/
def ofAttribute (a : Decl.Attribute) : List Entry :=
  (splitCommas 0 (a.arguments.getD [])).map (Entry.mk a.location)

/-- The item that an entry holds. -/
structure Holds (e : Entry) (item : Item) :
    Prop extends Written e.tokens item where
  form : Form e.tokens item.argument

/-- How an entry is read. -/
inductive Reads (e : Entry) : Except Finding Item → Prop
  | item {item : Item} : e.Holds item → Reads e (.ok item)
  | fault {found : Finding} :
      (∀ argument, ¬Form e.tokens argument) → e.Locates found.location →
      Reads e (.error found)

theorem reads_readItem (e : Entry) : Reads e (readItem e.place e.tokens) := by
  obtain ⟨argument, form, read⟩ | ⟨found, read, located⟩ :=
    readItem_cases e.place e.tokens
  · rw [read]
    exact .item ⟨form.written, form⟩
  · rw [read]
    refine .fault (fun argument form => ?_) located
    rw [readItem_of_form form] at read
    cases read

theorem reads_readItems (a : Decl.Attribute) :
    List.Forall₂ Reads (ofAttribute a) (readItems a) := by
  have bare (fault : Fault) :
      List.Forall₂ Reads [⟨a.location, []⟩] [.error ⟨fault, a.location⟩] :=
    .cons (.fault not_form_nil (.inr ⟨rfl, rfl⟩)) .nil
  unfold ofAttribute readItems
  split
  · rename_i none_given
    rw [none_given]
    exact bare _
  · rename_i empty
    rw [empty]
    exact bare _
  · rename_i tokens notEmpty given
    rw [given, splitArguments, if_neg (by simpa using notEmpty)]
    rw [List.forall₂_map_right_iff, List.forall₂_map_left_iff]
    exact List.forall₂_same.mpr fun part _ => reads_readItem ⟨a.location, part⟩

namespace Holds

variable {e : Entry} {item : Item}

theorem locates_location (h : e.Holds item) : e.Locates item.location := by
  obtain ⟨place, part⟩ := e
  cases part with
  | nil => exact absurd h.form (not_form_nil _)
  | cons first rest => exact .inl ⟨first, .head _, h.location⟩

theorem locates_of_mem_list (h : e.Holds item) {tokens : List Token}
    (list : item.argument = .list tokens) {t : Token} (inside : t ∈ tokens) :
    e.Locates t.location := by
  rw [h.list tokens list] at inside
  exact .inl ⟨t, List.mem_of_mem_drop (List.dropLast_subset _ inside), rfl⟩

theorem locates_of_mem_value (h : e.Holds item)
    {tokens : List Token} (value : item.argument = .value tokens)
    {t : Token} (inside : t ∈ tokens) : e.Locates t.location := by
  rw [h.value tokens value] at inside
  exact .inl ⟨t, List.mem_of_mem_drop inside, rfl⟩

end Holds

end Entry

/-! ## Arguments -/

/-- A type is named by tokens that do not begin with a string literal. -/
def IsType (tokens : List Token) : Prop :=
  ∃ first rest, tokens = first :: rest ∧ first.kind ≠ .string

/-- The argument is a list of types. -/
def ListsTypes (argument : Argument) : Prop :=
  ∃ tokens,
    argument = .list tokens ∧ ∀ part ∈ splitArguments tokens, IsType part

/-- The arguments that a key takes on a field: one type, a string literal that
names a function, or none at all. -/
def Takes (argument : Argument) : Key → Prop
  | .source | .via =>
    ∃ tokens, argument = .list tokens ∧ splitArguments tokens = [tokens] ∧
      IsType tokens
  | .getter =>
    ∃ literal, argument = .value [literal] ∧ literal.kind = .string ∧
      CountedName (Token.scanBody literal.location.file literal.text)
  | .getterOwned => argument = .absent

theorem isType_of_readType {item : Item} {part : List Token}
    {type : Reference} (h : readType item part = .ok type) : IsType part := by
  unfold readType at h
  split at h
  · cases h
  rename_i first rest
  split at h
  · cases h
  · rename_i notString
    exact ⟨first, rest, rfl, notString⟩

theorem not_isType_of_readType {item : Item} {part : List Token}
    {found : Finding} (h : readType item part = .error found) :
    ¬IsType part ∧
    (found.location = item.location ∨
      ∃ t ∈ part, found.location = t.location) := by
  unfold readType at h
  split at h
  · obtain rfl := Except.error.inj h
    exact ⟨by rintro ⟨_, _, ⟨⟩, -⟩, .inl rfl⟩
  rename_i first rest
  split at h
  · rename_i string
    obtain rfl := Except.error.inj h
    refine ⟨?_, .inr ⟨first, .head _, rfl⟩⟩
    rintro ⟨_, _, ⟨⟩, notString⟩
    exact notString string
  · cases h

/-- A type list is read if it is one, and blamed otherwise. -/
theorem readTypes_judged {e : Entry} {item : Item} (h : e.Holds item) :
    ((readTypes item).2 = [] ↔ ListsTypes item.argument) ∧
    ∀ f ∈ (readTypes item).2, e.Locates f.location := by
  cases argument : item.argument with
  | list tokens =>
    have found :
        (readTypes item).2 =
          findings ((splitArguments tokens).map (readType item)) := by
      rw [readTypes, argument]
    rw [found]
    refine ⟨⟨fun silent => ⟨tokens, rfl, fun part member => ?_⟩, ?_⟩,
      fun f blamed => ?_⟩
    · cases result : readType item part with
      | ok type => exact isType_of_readType result
      | error f =>
        have blamed :=
          mem_findings.mpr (List.mem_map.mpr ⟨part, member, result⟩)
        rw [silent] at blamed
        cases blamed
    · rintro ⟨_, ⟨⟩, types⟩
      refine List.eq_nil_iff_forall_not_mem.mpr fun f blamed => ?_
      obtain ⟨part, member, result⟩ :=
        List.mem_map.mp (mem_findings.mp blamed)
      exact (not_isType_of_readType result).1 (types part member)
    · obtain ⟨part, member, result⟩ :=
        List.mem_map.mp (mem_findings.mp blamed)
      rcases (not_isType_of_readType result).2 with place | ⟨t, inside, place⟩
      · rw [place]
        exact h.locates_location
      · rw [place]
        exact h.locates_of_mem_list argument
          (mem_of_mem_splitArguments member inside)
  | absent | value tokens =>
    have found :
        (readTypes item).2 = [⟨.notATypeList item.key, item.location⟩] := by
      rw [readTypes, argument]
    rw [found]
    refine ⟨⟨nofun, ?_⟩, ?_⟩
    · rintro ⟨_, ⟨⟩, -⟩
    · simpa using h.locates_location

/-- A value is read if the argument is as it should be, and blamed in the
entry otherwise. -/
inductive Judged {α : Type} (e : Entry) (fits : Prop) :
    Except (List Finding) α → Prop
  | ok {a : α} : fits → Judged e fits (.ok a)
  | error {found : List Finding} :
      ¬fits → found ≠ [] → (∀ f ∈ found, e.Locates f.location) →
      Judged e fits (.error found)

theorem judged_readSingleType {e : Entry} {item : Item} (h : e.Holds item) :
    Judged e (Takes item.argument .source) (readSingleType item) := by
  obtain ⟨silent, located⟩ := readTypes_judged h
  have single (one : (readTypes item).2 = []) (tokens : List Token)
      (list : item.argument = .list tokens) :
      (readTypes item).1 = (splitArguments tokens).map spelledType := by
    obtain ⟨-, types⟩ := readTypes_silent h.toWritten one
    rw [types, listedTypes, h.list tokens list]
  unfold readSingleType
  split
  · rename_i type found
    rw [found] at silent single
    obtain ⟨tokens, list, types⟩ := silent.mp rfl
    obtain ⟨part, one, -⟩ :=
      List.map_eq_singleton_iff.mp (single rfl tokens list).symm
    obtain rfl := eq_of_splitArguments_eq_singleton one
    exact .ok ⟨part, list, one, types part (by simp [one])⟩
  · rename_i types notOne found
    rw [found] at single
    refine .error ?_ (by simp) (by simpa using h.locates_location)
    rintro ⟨tokens, list, one, -⟩
    have listed := single rfl tokens list
    rw [one] at listed
    exact notOne _ listed
  · rename_i types found _ notNone result
    rw [result] at silent located
    have some : found ≠ [] := fun none_found => notNone none_found
    refine .error ?_ some located
    rintro ⟨tokens, list, one, type⟩
    exact some (silent.mpr ⟨tokens, list, by simpa [one] using type⟩)

theorem judged_readGetter {e : Entry} {item : Item} (h : e.Holds item) :
    Judged e (Takes item.argument .getter)
      ((readGetter item).mapError ([·])) := by
  unfold readGetter
  split
  · rename_i literal value
    have place := h.locates_of_mem_value value (.head _)
    split
    · rename_i string
      dsimp only
      split
      · rename_i name
        exact .ok ⟨literal, value, string, (isQualifiedName_iff _).mp name⟩
      · rename_i noName
        refine .error ?_ (by simp) (by simpa using place)
        rintro ⟨other, same, -, name⟩
        obtain rfl : literal = other := by simpa [value] using same
        exact noName ((isQualifiedName_iff _).mpr name)
    · rename_i notString
      refine .error ?_ (by simp) (by simpa using h.locates_location)
      rintro ⟨other, same, string, -⟩
      obtain rfl : literal = other := by simpa [value] using same
      exact notString string
  · rename_i notOne
    refine .error ?_ (by simp) (by simpa using h.locates_location)
    rintro ⟨literal, value, -⟩
    exact notOne literal value

/-! ## Directives -/

/-- The item is a directive with the key, and its argument is one that the key
takes. -/
def Directs (key : Key) (tokens : List Token) : Prop :=
  isItemOf key tokens = true ∧
    ∃ argument, Form tokens argument ∧ Takes argument key

/-- An item is a directive with one key at most. -/
theorem eq_of_isItemOf {key other : Key} {tokens : List Token}
    (h : isItemOf key tokens = true) (h' : isItemOf other tokens = true) :
    key = other := by
  cases tokens with
  | nil => cases h
  | cons first rest =>
    have words : key.word = other.word :=
      (eq_of_beq h).symm.trans (eq_of_beq h')
    exact word_injective words

namespace Entry.Holds

variable {e : Entry} {item : Item}

theorem ofWord?_eq_some_iff (h : e.Holds item) (key : Key) :
    Key.ofWord? item.key = some key ↔ isItemOf key e.tokens = true := by
  rw [Directive.ofWord?_eq_some_iff, h.key]

theorem directs_iff (h : e.Holds item) (key : Key) :
    Directs key e.tokens ↔
      Key.ofWord? item.key = some key ∧ Takes item.argument key := by
  rw [h.ofWord?_eq_some_iff]
  constructor
  · rintro ⟨word, argument, form, takes⟩
    rw [h.form.argument_eq form]
    exact ⟨word, takes⟩
  · rintro ⟨word, takes⟩
    exact ⟨word, _, h.form, takes⟩

end Entry.Holds

/-- Whether a directive of a field is set. -/
def FieldDirectives.has (d : FieldDirectives) : Key → Bool
  | .source => d.source.isSome
  | .via => d.via.isSome
  | .getter => d.getter.isSome
  | .getterOwned => d.getterOwned

/-- What becomes of the directives of a field behind an entry: it sets one
that had not been set, or it is blamed and leaves them as they are. -/
inductive Added (e : Entry) (d : FieldDirectives) :
    FieldDirectives × List Finding → Prop
  | set {key : Key} {d' : FieldDirectives} :
      Directs key e.tokens → d.has key = false →
      (∀ k, d'.has k = (d.has k || k == key)) → Added e d (d', [])
  | blamed {found : List Finding} :
      (∀ key, Directs key e.tokens → d.has key = true) → found ≠ [] →
      (∀ f ∈ found, e.Locates f.location) → Added e d (d, found)

theorem added_setOnce {α : Type} {e : Entry} {item : Item}
    (h : e.Holds item) {key : Key} (word : Key.ofWord? item.key = some key)
    {value : Except (List Finding) α} {set : α → FieldDirectives}
    {d : FieldDirectives} (judged : Judged e (Takes item.argument key) value)
    (sets : ∀ a k, (set a).has k = (d.has k || k == key)) :
    Added e d (setOnce item (d.has key) value set d) := by
  have only {other : Key} (directs : Directs other e.tokens) :
      other = key ∧ Takes item.argument key := by
    obtain ⟨otherWord, takes⟩ := (h.directs_iff other).mp directs
    obtain rfl : key = other := Option.some.inj (word.symm.trans otherWord)
    exact ⟨rfl, takes⟩
  unfold setOnce
  split
  · rename_i given
    refine .blamed (fun other directs => ?_) (by simp)
      (by simpa using h.locates_location)
    rw [(only directs).1, given]
  · rename_i new
    cases judged with
    | ok takes =>
      exact .set ((h.directs_iff key).mpr ⟨word, takes⟩)
        (by simpa using new) (sets _)
    | error ill some located =>
      exact .blamed (fun other directs => absurd (only directs).2 ill)
        some located

theorem added_fieldItem {e : Entry} {item : Item} (h : e.Holds item)
    (d : FieldDirectives) : Added e d (fieldItem d item) := by
  unfold fieldItem
  split <;> rename_i word
  · exact added_setOnce h word (judged_readSingleType h)
      fun _ k => by cases k <;> simp [FieldDirectives.has]
  · exact added_setOnce h word (judged_readSingleType h)
      fun _ k => by cases k <;> simp [FieldDirectives.has]
  · exact added_setOnce h word (judged_readGetter h)
      fun _ k => by cases k <;> simp [FieldDirectives.has]
  · refine added_setOnce h word ?_
      fun _ k => by cases k <;> simp [FieldDirectives.has]
    split
    · rename_i absent
      exact .ok absent
    · rename_i given
      exact .error given (by simp) (by simpa using h.locates_location)
  · refine .blamed (fun key directs => ?_) (by simp)
      (by simpa using h.locates_location)
    have known := ((h.directs_iff key).mp directs).1
    rw [word] at known
    cases known

end Directive
end MirrorAdapter
