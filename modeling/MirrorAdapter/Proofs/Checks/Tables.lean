import MirrorAdapter.Decl.Parser
import MirrorAdapter.Proofs.Checks.Directives
import MirrorAdapter.Proofs.Compilations
import MirrorAdapter.Support.Standard

/-!
# What tables say

The generators take the entries of a table as they are. They can do so because
nothing gets lost or mixed up on the way from a declaration to its table:
entry `i` is about field `i`, its converter and its access are those that the
attributes of this field ask for, and a getter that an access calls for is
there.
-/
namespace MirrorAdapter
namespace Mapping

open Decl (File Mirror)
open Directive (given inParentheses namedFunction sourceLists)

/-- The entry says of a field what the field and its attributes say. -/
structure Entry.Describes (f : Decl.Field) (e : Entry) : Prop where
  name : e.field.name = f.name
  location : e.field.location = f.location
  type : e.field.type = f.type
  directives : e.field.directives.GivenBy f.attributes
  explicit : ∀ via, given .via f.attributes = some via →
      e.field.converter.kind = .explicit ∧
      e.field.converter.spelling = Token.spell (inParentheses via)
  mirrorSelf : given .via f.attributes = none →
    (given .source f.attributes).isSome = true →
    e.field.converter.kind = .mirrorSelf ∧
    e.field.converter.spelling = f.type.spelling
  identity :
    given .via f.attributes = none → given .source f.attributes = none →
    e.field.converter.kind = .identity ∧ e.field.converter.spelling = []
  direct_iff : e.access = .direct ↔ given .getter f.attributes = none
  getterOwned_iff :
    e.access = .getterOwned ↔ (given .getter f.attributes).isSome = true ∧
      (given .getterOwned f.attributes).isSome = true
  getter_iff :
    e.access = .getter ↔ (given .getter f.attributes).isSome = true ∧
      given .getterOwned f.attributes = none
  /-- The flag never stands alone. -/
  owned : (given .getterOwned f.attributes).isSome = true →
    (given .getter f.attributes).isSome = true
  /-- The function that is called is there wherever one is to be called. -/
  function :
    e.access ≠ .direct → ∃ item, given .getter f.attributes = some item ∧
      e.field.directives.getter = some (namedFunction item)
  reconstructable_iff :
    e.reconstructable = true ↔ given .getter f.attributes = none

/-- The table says of a declaration what is written there. -/
structure Table.Describes (m : Mirror) (t : Table) : Prop where
  entries : List.Forall₂ Entry.Describes m.fields t.entries
  distinct : (t.entries.map (·.field.name)).Nodup
  remoteTypes : t.header.remoteTypes = (sourceLists m.attributes).flatten
  remoteTypes_ne_nil : t.header.remoteTypes ≠ []
  fullyReconstructable_iff :
    t.fullyReconstructable = true ↔ ∀ e ∈ t.entries, e.reconstructable = true

/-! ## One field -/

section
variable {d : Directive.FieldDirectives}

theorem Access.ofDirectives_eq_direct :
    ofDirectives d = .direct ↔ d.getter = none := by
  unfold ofDirectives
  split <;> simp [*]

theorem Access.ofDirectives_eq_getter :
    ofDirectives d = .getter ↔
      d.getter.isSome = true ∧ d.getterOwned = false := by
  unfold ofDirectives
  split <;> simp [*]

theorem Access.ofDirectives_eq_getterOwned :
    ofDirectives d = .getterOwned ↔
      d.getter.isSome = true ∧ d.getterOwned = true := by
  unfold ofDirectives
  split <;> simp [*]

end

/-- A field converts its counterpart itself only if the type of that is
named. -/
theorem isSome_source_of_mirrorSelf {f : Decl.Field}
    {d : Directive.FieldDirectives}
    (h : (Field.ofDecl f d).converter.kind = .mirrorSelf) :
    (Field.ofDecl f d).directives.source.isSome = true := by
  show d.source.isSome = true
  simp only [Field.ofDecl, Converter.infer] at h
  split at h
  · cases h
  · rename_i named
    rw [named]
    rfl
  · cases h

/-- A sound field does not have the flag without a getter. -/
theorem isSome_getter_of_getterOwned {f : Field} (silent : f.faults = [])
    (owned : f.directives.getterOwned = true) :
    f.directives.getter.isSome = true := by
  obtain ⟨alone, -⟩ := List.append_eq_nil_iff.mp silent
  by_contra missing
  simp only [owned,
    Option.isNone_iff_eq_none.mpr (Option.not_isSome_iff_eq_none.mp missing)]
    at alone
  cases alone

theorem Entry.describes_ofField {f : Decl.Field} {d : Directive.FieldDirectives}
    (h : d.GivenBy f.attributes) (silent : (Field.ofDecl f d).faults = []) :
    Entry.Describes f (.ofField (.ofDecl f d)) := by
  have no_getter : given .getter f.attributes = none ↔ d.getter = none := by
    rw [h.getter, Option.map_eq_none_iff]
  have getter : (given .getter f.attributes).isSome = d.getter.isSome := by
    rw [h.getter, Option.isSome_map]
  have no_flag :
      given .getterOwned f.attributes = none ↔ d.getterOwned = false := by
    rw [h.getterOwned, Option.isSome_eq_false_iff, Option.isNone_iff_eq_none]
  exact
    { name := rfl
      location := rfl
      type := rfl
      directives := h
      explicit := by
        intro via written
        simp [ofField, Field.ofDecl, Converter.infer, h.via, written,
          Directive.spelledType]
      mirrorSelf := by
        intro no_via source
        obtain ⟨item, written⟩ := Option.isSome_iff_exists.mp source
        simp [ofField, Field.ofDecl, Converter.infer, h.via, h.source,
          no_via, written]
      identity := by
        intro no_via no_source
        simp [ofField, Field.ofDecl, Converter.infer, h.via, h.source,
          no_via, no_source]
      direct_iff := by
        rw [no_getter]
        exact Access.ofDirectives_eq_direct
      getterOwned_iff := by
        rw [getter, ← h.getterOwned]
        exact Access.ofDirectives_eq_getterOwned
      getter_iff := by
        rw [getter, no_flag]
        exact Access.ofDirectives_eq_getter
      owned := by
        rw [getter, ← h.getterOwned]
        exact isSome_getter_of_getterOwned silent
      function := by
        intro called
        cases written : given .getter f.attributes with
        | none =>
          exact absurd
            (Access.ofDirectives_eq_direct.mpr (no_getter.mp written)) called
        | some item =>
          exact ⟨item, rfl, by simp [ofField, Field.ofDecl, h.getter, written]⟩
      reconstructable_iff := by
        rw [no_getter]
        exact Option.isNone_iff_eq_none }

/-! ## All fields -/

theorem describes_entries {fields : List Decl.Field}
    {directives : List Directive.FieldDirectives}
    (h : List.Forall₂ (fun f d => d.GivenBy f.attributes) fields directives)
    (silent :
      ∀ f ∈ List.zipWith Field.ofDecl fields directives, f.faults = []) :
    List.Forall₂ Entry.Describes fields
      ((List.zipWith Field.ofDecl fields directives).map .ofField) := by
  induction h with
  | nil => exact .nil
  | cons first _ ih =>
    rw [List.zipWith_cons_cons, List.forall_mem_cons] at silent
    exact .cons (Entry.describes_ofField first silent.1) (ih silent.2)

theorem names_entries {fields : List Decl.Field} {entries : List Entry}
    (h : List.Forall₂ Entry.Describes fields entries) :
    fields.map (·.name) = entries.map (·.field.name) := by
  rw [← List.forall₂_eq_eq_eq, List.forall₂_map_left_iff,
    List.forall₂_map_right_iff]
  exact h.imp fun f e describes => describes.name.symm

theorem fullyReconstructable_ofSpec (s : Spec) :
    (Table.ofSpec s).fullyReconstructable = true ↔
      ∀ e ∈ (Table.ofSpec s).entries, e.reconstructable = true := by
  simp [Table.ofSpec, Entry.ofField]

/-- A specification without reports has remote types and sound fields. -/
theorem of_reports_eq_nil {s : Spec} (h : s.reports = []) :
    s.header.remoteTypes ≠ [] ∧ ∀ f ∈ s.fields, f.faults = [] := by
  rw [reports_eq_nil_iff] at h
  refine ⟨fun empty => ?_, h.2⟩
  simp [Header.faults, empty] at h

/-- A field of a specification comes from a declared one. -/
theorem exists_ofDecl_of_mem {fields : List Decl.Field}
    {directives : List Directive.FieldDirectives}
    {f : Field} (h : f ∈ List.zipWith Field.ofDecl fields directives) :
    ∃ g d, f = .ofDecl g d := by
  rw [← List.map_uncurry_zip_eq_zipWith] at h
  obtain ⟨⟨g, d⟩, -, rfl⟩ := List.mem_map.mp h
  exact ⟨g, d, rfl⟩

end Mapping

open Decl (File Mirror)
open Mapping (Spec Table)

theorem Stages.describes {file : File} {m : Mirror} {model : Directive.Model}
    {spec : Spec} {t : Table} (h : Stages file m model spec t) :
    t.Describes m := by
  obtain ⟨type, fields⟩ := (Directive.result_ofMirror m model).mp h.directives
  obtain ⟨remote, silent⟩ := Mapping.of_reports_eq_nil h.reports_eq_nil
  have distinct := h.nodup_names
  obtain rfl := h.table_eq
  obtain rfl := h.spec_eq
  have entries :=
    Mapping.describes_entries
      (fields.imp fun f d => Directive.givenBy_of_ofField) silent
  exact
    { entries
      distinct := Mapping.names_entries entries ▸ distinct
      remoteTypes := Directive.remoteTypes_of_ofType type
      remoteTypes_ne_nil := remote
      fullyReconstructable_iff := Mapping.fullyReconstructable_ofSpec _ }

theorem describes_of_table [Support] {file : File}
    {m : Mirror} {index : Adapter.Index} {t : Table}
    (h : (compileMirror file m index).table = some t) : t.Describes m := by
  obtain ⟨model, spec, t', stages, result⟩ | ⟨log, result, -, -⟩ :=
    compileMirror_cases file m index
  · obtain rfl : t' = t := by simpa [result, Compilation.table] using h
    exact stages.describes
  · simp [result, Compilation.table] at h

/-- The table of a declaration says what is written there. A field whose own
type is its converter names the type of its counterpart, also where the checks
fail that look at this type. -/
theorem table_describes [Support] (file : File)
    (m : Mirror) (index : Adapter.Index) :
    (∀ model spec, (Directive.ofMirror m).result = .ok model →
        (Spec.build file m model).result = .ok spec → ∀ f ∈ spec.fields,
          f.converter.kind = .mirrorSelf → f.directives.source.isSome = true) ∧
    ∀ t, (compileMirror file m index).table = some t → t.Describes m := by
  refine ⟨fun model spec directives build f field kind => ?_,
    fun t => describes_of_table⟩
  have length := Directive.length_fields_of_ofMirror directives
  obtain ⟨-, rfl⟩ := (Mapping.result_build length spec).mp build
  obtain ⟨g, d, rfl⟩ := Mapping.exists_ofDecl_of_mem field
  exact Mapping.isSome_source_of_mirrorSelf kind

/-- A mirror type with a field for each kind of converter. -/
def allConverters : Decl.Module :=
  (Decl.readFiles
    [("f.mirror",
      "struct [[archive_with(from(::A), from(::B))]] M \x7b
         [[archive_with(via(V), getter=\"::g\", getter_owned)]] S a;
         [[archive_with(from(Y))]] X b; int c; \x7d;")]).1

section
open Support.Standard

theorem table_describes_allConverters :
    ∃ (file : File) (m : Mirror) (t : Table),
      (compileMirror file m {}).table = some t ∧ t.Describes m ∧
      t.entries.map (fun e => (e.field.converter.kind, e.access)) =
        [(.explicit, .getterOwned), (.mirrorSelf, .direct),
          (.identity, .direct)] := by
  have found :
      ∃ declaration ∈ declarations allConverters,
        ∃ t ∈ (compileMirror declaration.1 declaration.2 {}).table,
          t.entries.map (fun e => (e.field.converter.kind, e.access)) =
            [(.explicit, .getterOwned), (.mirrorSelf, .direct),
              (.identity, .direct)] := by
    decide +kernel
  obtain ⟨⟨file, m⟩, -, t, table, entries⟩ := found
  exact ⟨file, m, t, table, (table_describes file m {}).2 t table, entries⟩

end

end MirrorAdapter
