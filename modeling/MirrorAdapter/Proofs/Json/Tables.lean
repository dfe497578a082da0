import MirrorAdapter.Mapping.Json
import MirrorAdapter.Proofs.Checks.Tables
import MirrorAdapter.Proofs.Json.Agreement
import MirrorAdapter.Proofs.Json.RoundTrip
import MirrorAdapter.Proofs.Sorting
import MirrorAdapter.Support.Standard

/-!
# What the JSON of tables tells

The text for a list of tables settles all that it tells of them: two lists
have one text only if they agree table by table and field by field, up to what
the support library makes of their names and spellings. What a field does not
have is told from what it has with an empty spelling.
-/
namespace MirrorAdapter

/-! ## Members of objects -/

namespace JsonValue

theorem lookup_insertMember (member : Text × JsonValue)
    (members : List (Text × JsonValue)) (key : Text) :
    (insertMember member members).lookup key =
      if key == member.1 then some member.2 else members.lookup key := by
  induction members with
  | nil =>
    rw [insertMember, List.lookup_cons]
    cases key == member.1 <;> rfl
  | cons other rest ih =>
    rw [insertMember]
    split
    · rename_i earlier
      -- The member is not put behind one with its own key, which would hide
      -- it.
      rw [List.lookup_cons, List.lookup_cons, ih]
      cases own : key == other.1 with
      | false => rfl
      | true =>
        have distinct : (key == member.1) = false := by
          rw [beq_eq_false_iff_ne, eq_of_beq own]
          intro same
          rw [same, Text.before_iff_lt] at earlier
          exact List.lt_irrefl _ earlier
        rw [distinct]
        rfl
    · rw [List.lookup_cons]
      cases key == member.1 <;> rfl

/-- Sorting its members does not change what an object has under a key. -/
theorem lookup_sorted (members : List (Text × JsonValue)) (key : Text) :
    (members.foldr insertMember []).lookup key = members.lookup key := by
  induction members with
  | nil => rfl
  | cons member members ih =>
    rw [List.foldr_cons, lookup_insertMember, ih, List.lookup_cons]
    cases key == member.1 <;> rfl

/-- Two objects are the same only if they have the same under every key. -/
theorem lookup_eq_of_sortedObject_eq {ms ns : List (Text × JsonValue)}
    (same : sortedObject ms = sortedObject ns) (key : Text) :
    ms.lookup key = ns.lookup key := by
  rw [← lookup_sorted ms, ← lookup_sorted ns, JsonValue.object.inj same]

end JsonValue

/-! ## Locations -/

theorem Location.agrees_of_toJson [Support] {l m : Location}
    (same : l.toJson = m.toJson) : l.Agrees Support.jsonString m := by
  have found := JsonValue.lookup_eq_of_sortedObject_eq same
  exact
    { file := JsonValue.string.inj (Option.some.inj (found "file"))
      line := UInt32.toNat_inj.mp
        (Int.ofNat.inj
          (JsonValue.integer.inj (Option.some.inj (found "line"))))
      column := UInt32.toNat_inj.mp
        (Int.ofNat.inj
          (JsonValue.integer.inj (Option.some.inj (found "column")))) }

theorem Location.Agrees.toJson_eq [Support] {l m : Location}
    (h : l.Agrees Support.jsonString m) : l.toJson = m.toJson := by
  simp only [Location.toJson, JsonValue.source, h.file, h.line, h.column]

namespace Mapping

/-- Two lists are written alike iff they have one length and their members are
written alike in pairs. -/
theorem map_eq_map_iff_forall₂ {α β : Type} {f : α → β} {R : α → α → Prop}
    {xs ys : List α} (h : ∀ x ∈ xs, ∀ y ∈ ys, (f x = f y ↔ R x y)) :
    xs.map f = ys.map f ↔ List.Forall₂ R xs ys := by
  induction xs generalizing ys with
  | nil => cases ys <;> simp
  | cons x xs ih =>
    cases ys with
    | nil => simp
    | cons y ys =>
      rw [List.map_cons, List.map_cons, List.cons.injEq,
        List.forall₂_cons, h x (.head _) y (.head _),
        ih fun x' later y' later' => h x' (.tail _ later) y' (.tail _ later')]

theorem map_string_eq_iff {α : Type} {f : α → Text} {xs ys : List α} :
    ((xs.map fun x => JsonValue.string (f x)) =
        ys.map fun y => JsonValue.string (f y)) ↔
      xs.map f = ys.map f := by
  have injective : Function.Injective (List.map JsonValue.string) :=
    List.map_injective_iff.mpr fun _ _ => JsonValue.string.inj
  rw [← injective.eq_iff, List.map_map, List.map_map]
  rfl

/-- The table was made from a sound specification. -/
def Table.Validated (t : Table) : Prop :=
  ∃ s : Spec, s.validate.result = .ok t

/-- The flag does not stand without a getter, so where there is none it is not
set. -/
def Entry.FlagNeedsGetter (e : Entry) : Prop :=
  e.field.directives.getterOwned = true →
    e.field.directives.getter.isSome = true

theorem Table.Validated.flagNeedsGetter {t : Table} (h : t.Validated) :
    ∀ e ∈ t.entries, e.FlagNeedsGetter := by
  obtain ⟨s, validated⟩ := h
  obtain ⟨silent, rfl⟩ := (result_validate s t).mp validated
  intro e inside owned
  obtain ⟨f, field, rfl⟩ := List.mem_map.mp inside
  exact isSome_getter_of_getterOwned ((of_reports_eq_nil silent).2 f field)
    owned

theorem Converter.Kind.name_injective :
    Function.Injective Converter.Kind.name := by
  intro a b same
  cases a <;> cases b <;> first | rfl | exact absurd same (by decide)

theorem Access.name_injective : Function.Injective Access.name := by
  intro a b same
  cases a <;> cases b <;> first | rfl | exact absurd same (by decide)

/-- The flag is told if there is a getter, and else it is not set. -/
theorem getterOwned_eq_of_lookup {e f : Entry}
    (flagE : e.FlagNeedsGetter) (flagF : f.FlagNeedsGetter)
    (same :
      (e.field.directives.getter.map
          fun _ => JsonValue.bool e.field.directives.getterOwned) =
        f.field.directives.getter.map
          fun _ => JsonValue.bool f.field.directives.getterOwned) :
    e.field.directives.getterOwned = f.field.directives.getterOwned := by
  unfold Entry.FlagNeedsGetter at flagE flagF
  cases getterE : e.field.directives.getter <;> cases getterF :
    f.field.directives.getter <;> simp_all

/-! ## Fields -/

section
variable [Support]

/-- The members that every field has. -/
def Entry.requiredMembers (e : Entry) : List (Text × JsonValue) :=
  [ ("name", .source e.field.name)
  , ("location", e.field.location.toJson)
  , ("mirror_type", .source e.field.type.spelling)
  , ("value_type", .source e.field.valueType)
  , ("converter", e.field.converter.toJson)
  , ("access", .string e.access.name)
  , ("reconstructable", .bool e.reconstructable) ]

/-- The members that a field has if its directives say so. -/
def optionalMembers (d : Directive.FieldDirectives) :
    List (Text × JsonValue) :=
  let owned : List (Text × JsonValue) :=
    if d.getter.isSome then [("getter_owned", .bool d.getterOwned)] else []
  optionalMember "from" d.source ++
    (optionalMember "via" d.via ++ (optionalMember "getter" d.getter ++ owned))

theorem Entry.toJson_eq (e : Entry) :
    e.toJson = .sortedObject
        (e.requiredMembers ++ optionalMembers e.field.directives) := by
  simp only [Entry.toJson, Entry.requiredMembers, optionalMembers,
    List.append_assoc]

/-- What is found under the keys of the members that a field need not have. -/
theorem lookup_optionalMembers (d : Directive.FieldDirectives) :
    (optionalMembers d).lookup (Text.ofString "from") =
      d.source.map (JsonValue.source ·.spelling) ∧
    (optionalMembers d).lookup (Text.ofString "via") =
      d.via.map (JsonValue.source ·.spelling) ∧
    (optionalMembers d).lookup (Text.ofString "getter") =
      d.getter.map (JsonValue.source ·.spelling) ∧
    (optionalMembers d).lookup (Text.ofString "getter_owned") =
      d.getter.map fun _ => JsonValue.bool d.getterOwned := by
  unfold optionalMembers
  cases d.source <;> cases d.via <;> cases d.getter <;>
      exact ⟨rfl, rfl, rfl, rfl⟩

/-- A member is there for a reference, and has its spelling. -/
theorem spelled_of_map_source {r s : Option Reference}
    (same : r.map (JsonValue.source ·.spelling) =
      s.map (JsonValue.source ·.spelling)) :
    spelled Support.jsonString r = spelled Support.jsonString s := by
  cases r <;> cases s <;> simp_all [spelled, JsonValue.source]

theorem optionalMember_congr {r s : Option Reference}
    (same : spelled Support.jsonString r = spelled Support.jsonString s)
    (key : Text) : optionalMember key r = optionalMember key s := by
  cases r <;> cases s <;>
    simp_all [spelled, optionalMember, JsonValue.source]

/-- What a field is written as tells all of the field that is to be told. -/
theorem Entry.agrees_of_toJson {e f : Entry} (flagE : e.FlagNeedsGetter)
    (flagF : f.FlagNeedsGetter) (same : e.toJson = f.toJson) :
    e.Agrees Support.jsonString f := by
  rw [toJson_eq, toJson_eq] at same
  have found := JsonValue.lookup_eq_of_sortedObject_eq same
  have converter :=
    JsonValue.lookup_eq_of_sortedObject_eq (Option.some.inj (found "converter"))
  obtain ⟨sourceE, viaE, getterE, ownedE⟩ :=
    lookup_optionalMembers e.field.directives
  obtain ⟨sourceF, viaF, getterF, ownedF⟩ :=
    lookup_optionalMembers f.field.directives
  exact
    { name := JsonValue.string.inj (Option.some.inj (found "name"))
      location :=
        Location.agrees_of_toJson (Option.some.inj (found "location"))
      type := JsonValue.string.inj (Option.some.inj (found "mirror_type"))
      valueType := JsonValue.string.inj (Option.some.inj (found "value_type"))
      converterKind :=
        Converter.Kind.name_injective
          (JsonValue.string.inj (Option.some.inj (converter "kind")))
      converterSpelling :=
        JsonValue.string.inj (Option.some.inj (converter "spelling"))
      access :=
        Access.name_injective
          (JsonValue.string.inj (Option.some.inj (found "access")))
      reconstructable :=
        JsonValue.bool.inj (Option.some.inj (found "reconstructable"))
      source := spelled_of_map_source (sourceE ▸ sourceF ▸ found "from")
      via := spelled_of_map_source (viaE ▸ viaF ▸ found "via")
      getter := spelled_of_map_source (getterE ▸ getterF ▸ found "getter")
      getterOwned :=
        getterOwned_eq_of_lookup flagE flagF
          (ownedE ▸ ownedF ▸ found "getter_owned") }

theorem Entry.Agrees.toJson_eq {e f : Entry}
    (h : e.Agrees Support.jsonString f) : e.toJson = f.toJson := by
  have getter :
      e.field.directives.getter.isSome = f.field.directives.getter.isSome := by
    have same := congrArg Option.isSome h.getter
    rwa [spelled, spelled, Option.isSome_map, Option.isSome_map] at same
  simp only [Entry.toJson, Converter.toJson, JsonValue.source, h.name,
    h.location.toJson_eq, h.type, h.valueType, h.converterKind,
    h.converterSpelling, h.access, h.reconstructable,
    optionalMember_congr h.source, optionalMember_congr h.via,
    optionalMember_congr h.getter, getter, h.getterOwned]

theorem Entry.toJson_eq_iff {e f : Entry}
    (flagE : e.FlagNeedsGetter) (flagF : f.FlagNeedsGetter) :
    e.toJson = f.toJson ↔ e.Agrees Support.jsonString f :=
  ⟨agrees_of_toJson flagE flagF, Agrees.toJson_eq⟩

/-! ## Tables -/

theorem Table.toJson_eq_iff {t u : Table}
    (validT : t.Validated) (validU : u.Validated) :
    t.toJson = u.toJson ↔ t.Agrees Support.jsonString u := by
  have fields : t.entries.map Entry.toJson = u.entries.map Entry.toJson ↔
      List.Forall₂ (Entry.Agrees Support.jsonString) t.entries u.entries :=
    map_eq_map_iff_forall₂ fun e first f second =>
        Entry.toJson_eq_iff (validT.flagNeedsGetter e first)
          (validU.flagNeedsGetter f second)
  constructor
  · intro same
    have found := JsonValue.lookup_eq_of_sortedObject_eq same
    exact
      { name := JsonValue.string.inj (Option.some.inj (found "name"))
        sourceFile :=
          JsonValue.string.inj (Option.some.inj (found "source_file"))
        location :=
          Location.agrees_of_toJson (Option.some.inj (found "location"))
        templateParams :=
          map_string_eq_iff.mp
            (JsonValue.array.inj (Option.some.inj (found "template_params")))
        remoteTypes :=
          map_string_eq_iff.mp
            (JsonValue.array.inj (Option.some.inj (found "remote_types")))
        fullyReconstructable :=
          JsonValue.bool.inj (Option.some.inj (found "fully_reconstructable"))
        entries :=
          fields.mp (JsonValue.array.inj (Option.some.inj (found "fields"))) }
  · intro h
    simp only [Table.toJson, JsonValue.source, h.name, h.sourceFile,
      h.location.toJson_eq, map_string_eq_iff.mpr h.templateParams,
      map_string_eq_iff.mpr h.remoteTypes, h.fullyReconstructable,
      fields.mpr h.entries]

end

/-- The text for tables loses nothing of what it tells: it is the same for two
lists of tables iff they are as long and agree table by table, texts being
told as the library shows them. So where it leaves all texts of the tables as
they are, the tables agree in those texts themselves. -/
theorem renderTables_eq_iff [Support] {ts us : List Table}
    (validTs : ∀ t ∈ ts, t.Validated) (validUs : ∀ u ∈ us, u.Validated) :
    (renderTables ts = renderTables us ↔
      List.Forall₂ (Table.Agrees Support.jsonString) ts us) ∧
    ((∀ s ∈ (ts ++ us).flatMap Table.texts, Support.jsonString s = s) →
      (renderTables ts = renderTables us ↔
        List.Forall₂ (Table.Agrees id) ts us)) := by
  have shown : renderTables ts = renderTables us ↔
      List.Forall₂ (Table.Agrees Support.jsonString) ts us := by
    rw [← map_eq_map_iff_forall₂ fun t first u second =>
      Table.toJson_eq_iff (validTs t first) (validUs u second)]
    constructor
    · intro same
      have value :=
        JsonValue.render_injective 0 (List.append_cancel_right same)
      have mirrors := JsonValue.lookup_eq_of_sortedObject_eq value "mirrors"
      exact JsonValue.array.inj (Option.some.inj mirrors)
    · intro same
      rw [renderTables, renderTables, same]
  refine ⟨shown, fun plain => shown.trans ?_⟩
  have plainTs (t : Table) (inside : t ∈ ts) (s : Text) (told : s ∈ t.texts) :
      Support.jsonString s = s :=
    plain s (List.mem_flatMap.mpr ⟨t, List.mem_append_left _ inside, told⟩)
  have plainUs (u : Table) (inside : u ∈ us) (s : Text) (told : s ∈ u.texts) :
      Support.jsonString s = s :=
    plain s (List.mem_flatMap.mpr ⟨u, List.mem_append_right _ inside, told⟩)
  constructor
  · exact forall₂_of_mem fun t inTs u inUs agree =>
      agree.congr (plainTs t inTs) (plainUs u inUs)
  · exact forall₂_of_mem fun t inTs u inUs agree =>
      agree.congr (fun s told => (plainTs t inTs s told).symm)
        fun s told => (plainUs u inUs s told).symm

/-- A type whose name holds a quote, a backslash, a zero and a character of
two bytes. -/
def awkwardSpec (via : Option Reference) : Spec where
  header := { name := [34, 92, 0, 0xc3, 0xa9], remoteTypes := [⟨"A\n", {}⟩] }
  fields :=
    [{ name := "]", type := ⟨"int", {}⟩, directives := { via := via } }]

theorem validated_awkwardSpec (via : Option Reference) :
    (Table.ofSpec (awkwardSpec via)).Validated :=
  have silent : (awkwardSpec via).reports = [] := by rfl
  ⟨awkwardSpec via, (result_validate _ _).mpr ⟨silent, rfl⟩⟩

section
open Support.Standard

/-- An empty name of a converter is not taken for a missing one. -/
theorem renderTables_eq_iff_awkward :
    let plain : List Table :=
      [.ofSpec (awkwardSpec none), .ofSpec (awkwardSpec none)]
    let converted : List Table :=
      [.ofSpec (awkwardSpec none), .ofSpec (awkwardSpec (some ⟨"", {}⟩))]
    (∀ t ∈ plain, t.Validated) ∧ (∀ t ∈ converted, t.Validated) ∧
    (∀ s ∈ (plain ++ converted).flatMap Table.texts, Support.jsonString s = s) ∧
    renderTables plain ≠ renderTables converted := by
  intro plain converted
  have validPlain : ∀ t ∈ plain, t.Validated := by
    simp [plain, validated_awkwardSpec]
  have validConverted : ∀ t ∈ converted, t.Validated := by
    simp [converted, validated_awkwardSpec]
  have whole :
      ∀ s ∈ (plain ++ converted).flatMap Table.texts, s.isUtf8 = true := by
    decide +kernel
  have shown :
      ∀ s ∈ (plain ++ converted).flatMap Table.texts,
        Support.jsonString s = s :=
    fun s told => Text.repaired_of_isUtf8 (whole s told)
  refine ⟨validPlain, validConverted, shown, fun same => ?_⟩
  have agree :=
    ((renderTables_eq_iff validPlain validConverted).2 shown).mp same
  have second := (List.forall₂_cons.mp (List.forall₂_cons.mp agree).2).1
  cases (List.forall₂_cons.mp second.entries).1.via

end

end Mapping
end MirrorAdapter
