import MirrorAdapter.Proofs.Checks.Tables
import MirrorAdapter.Proofs.Headers.Layout
import Mathlib.Data.List.Infix
import MirrorAdapter.Support.Standard

/-!
# Getters, from attributes to headers

A getter stands in an attribute of a field. What becomes of it is decided in
stages that pass it on as an access and two flags, and shows in the end in
generated text: in the statements that read the field, in the header that is
missing because a getter cannot be undone, and in the note that says so.
-/
namespace MirrorAdapter

open Decl (File Mirror)
open Mapping (Entry Table Header)
open Directive (given namedFunction sourceLists)

namespace Adapter

/-! ## Statements that bind a field -/

section
variable (value name function remote : Text)

theorem directBinding_ne_getterBinding :
    directBinding value name ≠ getterBinding value name function := by
  simp +decide [directBinding, getterBinding, Text.ofString]

theorem directBinding_ne_copyBinding :
    directBinding value name ≠ copyBinding value name function remote := by
  simp +decide [directBinding, copyBinding, Text.ofString]

theorem getterBinding_ne_copyBinding (other : Text) :
    getterBinding value name function ≠
      copyBinding value name other remote := by
  simp +decide [getterBinding, copyBinding, Text.ofString]

theorem getterBinding_inj {other : Text} :
    getterBinding value name function = getterBinding value name other ↔
      function = other := by
  simp [getterBinding]

theorem copyBinding_inj {other : Text} :
    copyBinding value name function remote =
      copyBinding value name other remote ↔ function = other := by
  simp [copyBinding]

end

/-- The statement reads a field, into a constant of the given type, in the way
its attributes ask for. -/
structure Reads (remote : Text) (f : Decl.Field) (value statement : Text) :
    Prop where
  direct_iff :
    statement = directBinding value f.name ↔ given .getter f.attributes = none
  getter_iff : ∀ function, statement = getterBinding value f.name function ↔
      (∃ item, given .getter f.attributes = some item ∧
          (namedFunction item).spelling = function) ∧
      given .getterOwned f.attributes = none
  copy_iff :
    ∀ function, statement = copyBinding value f.name function remote ↔
      (∃ item, given .getter f.attributes = some item ∧
          (namedFunction item).spelling = function) ∧
      (given .getterOwned f.attributes).isSome = true

/-- Whether a statement binds a constant. -/
def bindsConstant (statement : Text) : Bool :=
  (Text.ofString "const ").isPrefixOf statement

/-- Among the statements those that bind a constant read the fields, one for
each, in order. -/
def ReadsInOrder (remote : Text) (fields : List Decl.Field)
    (statements : List Text) : Prop :=
  List.Forall₂ (fun f statement => ∃ value, Reads remote f value statement)
    fields (statements.filter bindsConstant)

/-- The header has a function with the given head and statements. -/
def Artifact.HasFunction (a : Artifact) (head : Text)
    (statements : List Text) : Prop :=
  Line.renderAll (blockLines 1 head statements "\x7d") <:+: a.content

/-- The header that archives a remote type reads the fields in both of its
functions. -/
def ReadsFields (a : Artifact) (resolver remote : Text)
    (fields : List Decl.Field) : Prop :=
  (∃ statements, a.HasFunction (buildHead remote) statements ∧
      ReadsInOrder remote fields statements) ∧
    ∃ statements, a.HasFunction (serializeHead resolver remote) statements ∧
      ReadsInOrder remote fields statements

theorem reads_binding {f : Decl.Field} {e : Entry}
    (h : e.Describes f) (header : Header) (remote : Text) :
    Reads remote f (Member.ofEntry header e).value
      ((Member.ofEntry header e).binding remote) := by
  cases access : e.access with
  | direct =>
    have no_getter : given .getter f.attributes = none :=
      h.direct_iff.mp access
    rw [binding_direct access, h.name]
    exact
      { direct_iff := by simp [no_getter]
        getter_iff := by simp [no_getter, directBinding_ne_getterBinding]
        copy_iff := by simp [no_getter, directBinding_ne_copyBinding] }
  | getter =>
    obtain ⟨item, written, function⟩ := h.function (by rw [access]; decide)
    have calls : getterName e = (namedFunction item).spelling := by
      rw [getterName, function]; rfl
    have not_owned : given .getterOwned f.attributes = none :=
      (h.getter_iff.mp access).2
    rw [binding_getter access, h.name, calls]
    exact
      { direct_iff := by
          simp [written, (directBinding_ne_getterBinding _ _ _).symm]
        getter_iff := by simp [written, not_owned, getterBinding_inj]
        copy_iff := by simp [not_owned, getterBinding_ne_copyBinding] }
  | getterOwned =>
    obtain ⟨item, written, function⟩ := h.function (by rw [access]; decide)
    have calls : getterName e = (namedFunction item).spelling := by
      rw [getterName, function]; rfl
    have owned : (given .getterOwned f.attributes).isSome = true :=
      (h.getterOwned_iff.mp access).2
    have some_given : given .getterOwned f.attributes ≠ none :=
      Option.isSome_iff_ne_none.mp owned
    rw [binding_getterOwned access, h.name, calls]
    exact
      { direct_iff := by
          simp [written, (directBinding_ne_copyBinding _ _ _ _).symm]
        getter_iff := by
          simp [some_given, (getterBinding_ne_copyBinding _ _ _ _ _).symm]
        copy_iff := by simp [written, owned, copyBinding_inj] }

/-! ## The functions that read the fields -/

section
variable (remote : Text)

theorem bindsConstant_binding (m : Member) :
    bindsConstant (m.binding remote) = true := by
  rw [bindsConstant, List.isPrefixOf_iff_prefix]
  unfold Member.binding
  cases m.source <;> simp only [List.append_assoc] <;>
      exact List.prefix_append _ _

theorem filter_buildBody (ms : List Member) :
    (buildBody remote ms).filter bindsConstant =
      ms.map (Member.binding remote) := by
  have one (m : Member) :
      (buildStatements remote m).filter bindsConstant = [m.binding remote] := by
    rw [buildStatements,
      List.filter_cons_of_pos (bindsConstant_binding remote m)]
    rfl
  unfold buildBody
  split
  · rename_i empty
    rw [List.isEmpty_iff.mp empty]
    rfl
  · rw [List.filter_flatMap]
    simp only [one, ← List.map_eq_flatMap]

theorem filter_serializeBody (resolver : Text) (ms : List Member) :
    (serializeBody resolver remote ms).filter bindsConstant =
      ms.map (Member.binding remote) := by
  have one (m : Member) :
      (serializeStatements remote m).filter bindsConstant =
        [m.binding remote] := by
    rw [serializeStatements,
      List.filter_cons_of_pos (bindsConstant_binding remote m)]
    rfl
  unfold serializeBody
  split
  · rename_i empty
    rw [List.isEmpty_iff.mp empty]
    rfl
  · have returned : [returnResolver resolver ms].filter bindsConstant = [] :=
      rfl
    rw [List.filter_append, List.filter_flatMap, returned, List.append_nil]
    simp only [one, ← List.map_eq_flatMap]

end

theorem hasFunction_archive [Support] (t : Table) (remote : RemoteName) :
    (archiveHeader t remote).HasFunction (buildHead remote.type)
      (buildBody remote.type (members t)) ∧
    (archiveHeader t remote).HasFunction
      (serializeHead (resolverReference t.header) remote.type)
      (serializeBody (resolverReference t.header) remote.type (members t)) := by
  obtain ⟨front, content⟩ := content_archiveHeader t remote
  rw [archiveBlocks] at content
  constructor
  · rw [Artifact.HasFunction, content]
    exact List.IsInfix.flatMap ⟨front, _, List.append_assoc _ _ _⟩ _
  · rw [← List.append_assoc, ← List.append_assoc] at content
    rw [Artifact.HasFunction, content]
    exact List.IsInfix.flatMap ⟨_, _, List.append_assoc _ _ _⟩ _

theorem readsFields_archive [Support] {m : Mirror}
    {t : Table} (h : t.Describes m) (remote : RemoteName) :
    ReadsFields (archiveHeader t remote) (resolverReference t.header)
      remote.type m.fields := by
  obtain ⟨build, serialize⟩ := hasFunction_archive t remote
  have bindings :
      List.Forall₂
        (fun f statement => ∃ value, Reads remote.type f value statement)
        m.fields ((members t).map (Member.binding remote.type)) := by
    rw [members, List.map_map, List.forall₂_map_right_iff]
    exact h.entries.imp
      fun f e describes => ⟨_, reads_binding describes t.header remote.type⟩
  refine ⟨⟨_, build, ?_⟩, _, serialize, ?_⟩
  · rwa [ReadsInOrder, filter_buildBody]
  · rwa [ReadsInOrder, filter_serializeBody]

/-! ## Which headers there are -/

section
variable {scope : List Text} {name a b : Text}

theorem headerPath_inj :
    headerPath scope name a = headerPath scope name b ↔ a = b :=
  List.append_cancel_left_eq _ _ _ |>.to_iff

theorem isPrefixOf_headerPath :
    (headerPath scope name a).isPrefixOf (headerPath scope name b) =
      a.isPrefixOf b := by
  rw [Bool.eq_iff_iff, List.isPrefixOf_iff_prefix, List.isPrefixOf_iff_prefix]
  exact List.prefix_append_right_inj _

end

end Adapter

open Adapter (Artifact Index)

/-- The headers of remote types, judged by their paths. -/
def archiveUnits (m : Mirror) (headers : List Artifact) : List Artifact :=
  headers.filter
    fun a => (Adapter.headerPath m.scope m.name "archive.").isPrefixOf a.path

/-- The fields that a getter reads. -/
def getterFields (m : Mirror) : List Decl.Field :=
  m.fields.filter fun f => (given .getter f.attributes).isSome

/-- The result for a declaration does with getters what its attributes ask
for. -/
structure Compilation.FollowsGetters (m : Mirror) (t : Table)
    (c : Compilation) : Prop where
  rebuilt_iff :
    Adapter.headerPath m.scope m.name "deserialize.hpp" ∈
      c.headers.map (·.path) ↔
      ∀ f ∈ m.fields, given .getter f.attributes = none
  silent : (∀ f ∈ m.fields, given .getter f.attributes = none) → c.log = []
  noted : ¬(∀ f ∈ m.fields, given .getter f.attributes = none) →
    c.log =
      [{ severity := .note
         location := m.location
         message := (Subject.mirror m.qualifiedName).render ++
           ": deserialization is not derived because field(s) " ++
           Text.join ", " ((getterFields m).map (·.name.quoted)) ++
           " use a getter; provide DeserializeWith<" ++
           t.header.typeReference ++ ", Remote> by hand"
         kind := .notReconstructable }]
  archived : List.Forall₂ (fun remote a => Adapter.ReadsFields a
            (Adapter.resolverReference t.header) remote.spelling m.fields)
      (sourceLists m.attributes).flatten (archiveUnits m c.headers)

theorem names_getterFields {fields : List Decl.Field} {entries : List Entry}
    (h : List.Forall₂ Entry.Describes fields entries) :
    (entries.filter (!·.reconstructable)).map (·.field.name) =
      (fields.filter fun f => (given .getter f.attributes).isSome).map
        (·.name) := by
  induction h with
  | nil => rfl
  | @cons f e fields entries describes _ ih =>
    have same : (!e.reconstructable) = (given .getter f.attributes).isSome := by
      rw [Bool.eq_iff_iff, Bool.not_eq_true', ← Bool.not_eq_true,
        describes.reconstructable_iff, ← ne_eq, ← Option.isSome_iff_ne_none]
    rw [List.filter_cons, List.filter_cons, same]
    split
    · rw [List.map_cons, List.map_cons, ih, describes.name]
    · exact ih

theorem fullyReconstructable_iff_getters {m : Mirror}
    {t : Table} (h : t.Describes m) :
    t.fullyReconstructable = true ↔
      ∀ f ∈ m.fields, given .getter f.attributes = none := by
  rw [h.fullyReconstructable_iff]
  have entries := h.entries
  generalize m.fields = fields, t.entries = found at entries ⊢
  induction entries with
  | nil => simp
  | cons describes _ ih =>
    rw [List.forall_mem_cons, List.forall_mem_cons]
    exact and_congr describes.reconstructable_iff ih

theorem deserialize_mem_iff [Support] (t : Table) (index : Index) :
    Adapter.headerPath t.header.scope t.header.name "deserialize.hpp" ∈
      (render t index).1.map (·.path) ↔ t.fullyReconstructable = true := by
  -- The other endings differ from this one in their first byte.
  have apart {ending : Text} (h : ending.head? ≠ some ('d' : Byte)) :
      Adapter.headerPath t.header.scope t.header.name "deserialize.hpp" ≠
        Adapter.headerPath t.header.scope t.header.name ending := by
    rw [ne_eq, Adapter.headerPath_inj]
    rintro rfl
    exact h rfl
  simp only [headers_render, includedHeaders, Adapter.archiveHeaders,
    List.map_append, List.map_cons, List.map_map,
    List.mem_append, List.mem_cons, List.mem_map, Option.mem_toList]
  unfold Adapter.deserializeHeader
  constructor
  · rintro (((repr | ⟨remote, -, archive⟩) | ⟨a, derived, -⟩) | umbrella |
      ⟨a, nothing, -⟩)
    · exact absurd repr (apart (by decide))
    · exact absurd archive.symm (apart (by simp +decide [Text.ofString]))
    · by_contra partly
      rw [if_neg partly] at derived
      cases derived
    · exact absurd umbrella (apart (by decide))
    · cases nothing
  · intro whole
    rw [if_pos whole]
    exact .inl (.inr ⟨_, rfl, rfl⟩)

theorem archiveUnits_render [Support] {m : Mirror}
    {t : Table} (scope : t.header.scope = m.scope)
    (name : t.header.name = m.name) (index : Index) :
    archiveUnits m (render t index).1 = Adapter.archiveHeaders t := by
  rw [archiveUnits, headers_render, includedHeaders, ← scope, ← name,
    List.filter_append, List.filter_append, List.filter_cons_of_neg,
    List.filter_eq_self.mpr, List.filter_eq_nil_iff.mpr,
    List.filter_eq_nil_iff.mpr, List.append_nil, List.append_nil]
  · intro a umbrella
    rw [List.mem_singleton.mp umbrella, Adapter.umbrellaHeader,
      Adapter.umbrellaPath, Adapter.isPrefixOf_headerPath]
    decide
  · intro a derived
    unfold Adapter.deserializeHeader at derived
    split at derived
    · rw [List.mem_singleton.mp derived, Adapter.isPrefixOf_headerPath]
      decide
    · cases derived
  · intro a archive
    obtain ⟨remote, -, rfl⟩ := List.mem_map.mp archive
    rw [Adapter.archiveHeader, Adapter.isPrefixOf_headerPath,
      List.isPrefixOf_iff_prefix, List.append_assoc]
    exact List.prefix_append _ _
  · rw [Adapter.reprHeader, Adapter.reprPath, Adapter.isPrefixOf_headerPath]
    decide

/-- Where a declaration is compiled, the header that rebuilds remote values is
there iff no field has a getter, and otherwise one note names the fields that
have one; in all headers of remote types a field is read as its attributes ask
for. -/
theorem followsGetters_of_table [Support] {file : File}
    {m : Mirror} {index : Index} {t : Table}
    (h : (compileMirror file m index).table = some t) :
    (compileMirror file m index).FollowsGetters m t := by
  have describes := describes_of_table h
  obtain ⟨model, spec, t', stages, result⟩ | ⟨log, result, -, -⟩ :=
    compileMirror_cases file m index
  case inr => simp [result, Compilation.table] at h
  obtain rfl : t' = t := by simpa [result, Compilation.table] using h
  have header := stages.header_eq
  have scope : t'.header.scope = m.scope := by rw [header]; rfl
  have name : t'.header.name = m.name := by rw [header]; rfl
  have whole := fullyReconstructable_iff_getters describes
  have headers :
      (compileMirror file m index).headers = (render t' index).1 := by
    rw [result]; rfl
  have log : (compileMirror file m index).log = (render t' index).2 := by
    rw [result]
  rw [notes_render] at log
  exact
    { rebuilt_iff := by
        rw [headers, ← scope, ← name, deserialize_mem_iff, whole]
      silent := fun none_given => by rw [log, if_pos (whole.mpr none_given)]
      noted := by
        intro some_given
        have names :
            (t'.entries.filter (!·.reconstructable)).map (·.field.name.quoted) =
              (getterFields m).map (·.name.quoted) := by
          have :=
            congrArg (List.map Text.quoted)
              (names_getterFields describes.entries)
          rwa [List.map_map, List.map_map] at this
        rw [log, if_neg (mt whole.mp some_given), Adapter.notDerived,
          names, header]
        rfl
      archived := by
        rw [headers, archiveUnits_render scope name, ← describes.remoteTypes]
        exact Adapter.forall₂_archiveHeaders (P :=
            fun remote a => Adapter.ReadsFields a
                (Adapter.resolverReference t'.header) remote m.fields)
          t'
          fun _ _ _ => Adapter.readsFields_archive describes _ }

/-- A mirror type with a field for each access. -/
def allAccesses : Decl.Module :=
  (Decl.readFiles
      [("f.mirror",
        "struct [[archive_with(from(::R))]] M \x7b int a; " ++
          "[[archive_with(getter=\"::g\")]] int b; " ++
          "[[archive_with(getter_owned), archive_with(getter=\"::h\")]] int c; " ++
          "\x7d;")]).1

section
open Support.Standard

theorem followsGetters_allAccesses :
    ∃ (file : File) (m : Mirror) (t : Table),
      (compileMirror file m {}).table = some t ∧
      t.entries.map (·.access) = [.direct, .getter, .getterOwned] ∧
      (getterFields m).map (·.name) = [Text.ofString "b", Text.ofString "c"] ∧
      (compileMirror file m {}).FollowsGetters m t := by
  have found :
      ∃ declaration ∈ declarations allAccesses,
        ∃ t ∈ (compileMirror declaration.1 declaration.2 {}).table,
          t.entries.map (·.access) = [.direct, .getter, .getterOwned] ∧
          (getterFields declaration.2).map (·.name) =
            [Text.ofString "b", Text.ofString "c"] := by
    decide +kernel
  obtain ⟨⟨file, m⟩, -, t, table, accesses, names⟩ := found
  exact ⟨file, m, t, table, accesses, names, followsGetters_of_table table⟩

end

end MirrorAdapter
