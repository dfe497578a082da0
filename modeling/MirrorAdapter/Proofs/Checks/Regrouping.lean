import MirrorAdapter.Proofs.Checks.Findings
import Mathlib.Data.List.Perm.Basic

/-!
# Regrouped directives of fields

The directives of a field are settled by its items alone: how they are
ordered, and over how many attributes they are spread, makes no difference.
Nothing is found on a field if and only if each item is a directive and no two
have the same key; the one item with a key is the same then in every order.
-/
namespace MirrorAdapter
namespace Directive

/-! ## Success -/

/-- Two items with no key in common. -/
def Apart (a b : List Token) : Prop := ∀ key, Directs key a → ¬Directs key b

theorem Apart.symm {a b : List Token} (h : Apart a b) : Apart b a :=
  fun key second first => h key first second

/-- Each item is a directive, and no two have the same key. -/
structure Compatible (items : List (List Token)) : Prop where
  directs : ∀ item ∈ items, ∃ key, Directs key item
  apart : items.Pairwise Apart

theorem compatible_cons {item : List Token} {items : List (List Token)} :
    Compatible (item :: items) ↔
      ((∃ key, Directs key item) ∧ ∀ other ∈ items, Apart item other) ∧
      Compatible items := by
  constructor
  · rintro ⟨directs, apart⟩
    obtain ⟨first, rest⟩ := List.forall_mem_cons.mp directs
    obtain ⟨others, among⟩ := List.pairwise_cons.mp apart
    exact ⟨⟨first, others⟩, rest, among⟩
  · rintro ⟨⟨first, others⟩, rest, among⟩
    exact ⟨List.forall_mem_cons.mpr ⟨first, rest⟩,
      List.pairwise_cons.mpr ⟨others, among⟩⟩

theorem Compatible.perm {items items' : List (List Token)}
    (h : Compatible items) (same : items.Perm items') : Compatible items' where
  directs := fun item member => h.directs item (same.mem_iff.mpr member)
  apart := (same.pairwise_iff Apart.symm).mp h.apart

theorem acceptedOnField_iff {before : List Entry} {e : Entry} :
    AcceptedOnField before e ↔ (∃ key, Directs key e.tokens) ∧
      ∀ earlier ∈ before, Apart earlier.tokens e.tokens := by
  constructor
  · rintro ⟨key, directs, first⟩
    refine ⟨⟨key, directs⟩, fun earlier member other again directed => ?_⟩
    obtain rfl := eq_of_isItemOf directs.1 directed.1
    exact first earlier member again
  · rintro ⟨⟨key, directs⟩, apart⟩
    exact ⟨key, directs,
      fun earlier member again => apart earlier member key again directs⟩

/-- Nothing is found on entries if and only if their items are compatible,
with each other and with those before. -/
theorem Shares.eq_nil_iff {before entries : List Entry} {found : List Finding}
    (h : Shares AcceptedOnField before entries found) :
    found = [] ↔ Compatible (entries.map (·.tokens)) ∧
      ∀ earlier ∈ before, ∀ e ∈ entries, Apart earlier.tokens e.tokens := by
  induction h with
  | nil =>
    have none_left : Compatible [] := ⟨by simp, .nil⟩
    simp [none_left]
  | @cons before rest e share others found accepted _ _ perm ih =>
    have parts : found = [] ↔ share = [] ∧ others = [] := by
      rw [← List.append_eq_nil_iff, ← List.length_eq_zero_iff,
        perm.length_eq, List.length_eq_zero_iff]
    rw [parts, accepted, ih, acceptedOnField_iff, List.map_cons,
      compatible_cons]
    simp only [List.forall_mem_map, List.forall_mem_append,
      List.forall_mem_cons, List.not_mem_nil, false_imp_iff,
      implies_true, and_true, forall_and]
    tauto

/-- What is read of a field succeeds if and only if its items are compatible,
those of empty lists included. -/
theorem ofField_ok_iff (m : Decl.Mirror) (f : Decl.Field) :
    (∃ d, (ofField m f).result = .ok d) ↔
      Compatible ((f.attributes.flatMap Entry.ofAttribute).map (·.tokens)) := by
  have shares := shares_fieldAttributes f.attributes records_nil
  have compatible := shares.eq_nil_iff
  rw [(honest_ofField m f).ok_iff]
  have silent :
      (ofField m f).log = [] ↔ (fieldAttributes {} f.attributes).2 = [] :=
    List.map_eq_nil_iff
  rw [silent, compatible]
  simp

/-- Where no list is missing or empty, the entries are the items that are
written. -/
theorem tokens_entries {attributes : List Decl.Attribute}
    (listed : ∀ a ∈ attributes, a.arguments.getD [] ≠ []) :
    (attributes.flatMap Entry.ofAttribute).map (·.tokens) =
      writtenItems attributes := by
  rw [List.map_flatMap, writtenItems]
  refine List.flatMap_congr fun a member => ?_
  rw [splitArguments, if_neg (by simpa using listed a member),
    Entry.ofAttribute, List.map_map]
  exact List.map_id _

/-! ## Values -/

/-- Where one item at most has a key, it does not matter in which order it is
looked for. -/
theorem given_perm {attributes attributes' : List Decl.Attribute}
    (same : (writtenItems attributes).Perm (writtenItems attributes'))
    (h : Compatible (writtenItems attributes)) (key : Key) :
    given key attributes = given key attributes' := by
  have single {items : List (List Token)} (h : Compatible items) :
      (items.filter (isItemOf key)).Pairwise fun _ _ => False := by
    -- two items with one key would not be apart
    rw [List.pairwise_filter]
    refine h.apart.imp_of_mem fun {a b} first second apart word word' => ?_
    obtain ⟨other, directs⟩ := h.directs a first
    obtain ⟨other', directs'⟩ := h.directs b second
    obtain rfl := eq_of_isItemOf word directs.1
    obtain rfl := eq_of_isItemOf word' directs'.1
    exact apart key directs directs'
  have filtered :=
    (same.filter (isItemOf key)).eq_of_pairwise nofun (single h)
      (single (h.perm same))
  rw [given, given, ← List.head?_filter, ← List.head?_filter, filtered]

/-- What all directives that are set do not change holds behind all items. -/
theorem fieldItems_preserves {P : FieldDirectives → Prop}
    (step : ∀ {item d key d'}, Sets item d key d' → P d → P d')
    {items : List Item} {d d' : FieldDirectives}
    (silent : fieldItems d items = (d', [])) (h : P d) : P d' := by
  induction items generalizing d with
  | nil =>
    obtain rfl := (Prod.mk.inj silent).1
    exact h
  | cons item items ih =>
    rw [fieldItems_cons] at silent
    obtain ⟨rfl, none_found⟩ := Prod.mk.inj silent
    obtain ⟨none_first, none_later⟩ := List.append_eq_nil_iff.mp none_found
    obtain ⟨key, -, sets⟩ := sets_of_fieldItem (Prod.ext rfl none_first)
    exact ih (Prod.ext rfl none_later) (step sets h)

/-- Without the flag there is no place for it. -/
theorem getterOwnedLocation_of_ofField {m : Decl.Mirror} {f : Decl.Field}
    {d : FieldDirectives} (h : (ofField m f).result = .ok d) :
    d.getterOwned = false → d.getterOwnedLocation = {} := by
  obtain ⟨none_found, rfl⟩ := of_conclude_ok h
  obtain ⟨-, items⟩ := fieldAttributes_silent none_found
  refine fieldItems_preserves
    (P := fun d => d.getterOwned = false → d.getterOwnedLocation = {}) ?_
    items (fun _ => rfl)
  rintro item d key d' (_ | _ | _ | _) unset
  · exact unset
  · exact unset
  · exact unset
  · nofun

/-- Directives are settled by their slots, the flag with its place being one
of them. -/
theorem eq_of_slots {d d' : FieldDirectives}
    (source : d.source = d'.source) (via : d.via = d'.via)
    (getter : d.getter = d'.getter) (flag : d.flag = d'.flag)
    (unset : d.getterOwned = false → d.getterOwnedLocation = {})
    (unset' : d'.getterOwned = false → d'.getterOwnedLocation = {}) :
    d = d' := by
  obtain ⟨_, _, _, owned, place⟩ := d
  obtain ⟨_, _, _, owned', place'⟩ := d'
  cases owned <;> cases owned' <;> simp_all [FieldDirectives.flag]

/-- Two fields with the same items, in any order and in any number of
attributes, have the same directives, or what is read of both fails. -/
theorem ofField_regrouped {m m' : Decl.Mirror} {f f' : Decl.Field}
    (listed : ∀ a ∈ f.attributes, a.arguments.getD [] ≠ [])
    (listed' : ∀ a ∈ f'.attributes, a.arguments.getD [] ≠ [])
    (same : (writtenItems f.attributes).Perm (writtenItems f'.attributes)) :
    (ofField m f).result.toOption = (ofField m' f').result.toOption := by
  have ok := ofField_ok_iff m f
  have ok' := ofField_ok_iff m' f'
  rw [tokens_entries listed] at ok
  rw [tokens_entries listed'] at ok'
  by_cases compatible : Compatible (writtenItems f.attributes)
  case pos =>
    obtain ⟨d, h⟩ := ok.mpr compatible
    obtain ⟨d', h'⟩ := ok'.mpr (compatible.perm same)
    have slot {β : Type} {key : Key} {value : List Token → β}
        {slot : FieldDirectives → Option β}
        (filled : FilledBy key value slot) : slot d = slot d' := by
      rw [filled.ofField h, filled.ofField h', given_perm same compatible]
    have directives : d = d' :=
      eq_of_slots (slot filledBy_source) (slot filledBy_via)
        (slot filledBy_getter) (slot filledBy_flag)
        (getterOwnedLocation_of_ofField h) (getterOwnedLocation_of_ofField h')
    rw [h, h', directives]
  case neg =>
    have failed {r : Except Error FieldDirectives}
        (none_read : ¬∃ d, r = .ok d) : r.toOption = none := by
      cases r with
      | error e => rfl
      | ok d => exact absurd ⟨d, rfl⟩ none_read
    rw [failed (mt ok.mp compatible),
      failed (mt ok'.mp fun h => compatible (h.perm same.symm))]

/-- A field with an attribute for each group of items. -/
def groupedField (groups : List (List (List Token))) : Decl.Field where
  name := "x"
  location := default
  type := default
  attributes :=
    groups.map fun items =>
        ⟨Decl.directiveName, default,
          some (items.intersperse [⟨.comma, ",", default⟩]).flatten⟩

/-- All directives that a field can have, each in a file of its own. -/
def allDirectives : List (List Token) :=
  [Token.scanBody "a" "from(std::map<K, V>)", Token.scanBody "b" "via(C)",
    Token.scanBody "c" "getter = \"::r::x\"", Token.scanBody "d" "getter_owned"]

theorem ofField_allDirectives :
    let f := groupedField [allDirectives]
    let f' :=
      groupedField [allDirectives.drop 2, (allDirectives.take 2).reverse]
    ((∀ a ∈ f.attributes, a.arguments.getD [] ≠ []) ∧
      (∀ a ∈ f'.attributes, a.arguments.getD [] ≠ []) ∧
      (writtenItems f.attributes).Perm (writtenItems f'.attributes)) ∧
    (ofField default f).result.toOption.isSome = true ∧
    (ofField default f).result.toOption =
      (ofField default f').result.toOption := by
  intro f f'
  have listed : ∀ a ∈ f.attributes, a.arguments.getD [] ≠ [] := by
    decide +kernel
  have listed' : ∀ a ∈ f'.attributes, a.arguments.getD [] ≠ [] := by
    decide +kernel
  have same :
      (writtenItems f.attributes).Perm (writtenItems f'.attributes) := by
    decide +kernel
  exact ⟨⟨listed, listed', same⟩, by decide +kernel,
    ofField_regrouped listed listed' same⟩

end Directive
end MirrorAdapter
