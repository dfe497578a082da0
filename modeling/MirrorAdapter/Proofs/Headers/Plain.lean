import MirrorAdapter.Proofs.Headers.Layout

/-!
# Headers without stray line ends

If the names and spellings of a table have no line ends, the statements and
declarations made of them have none either, and what is one line where a
header is put together is one line of its text.
-/
namespace MirrorAdapter

/-! ## Tables without line ends -/

namespace Mapping

open Text (OneLine)

def Header.spellings (h : Header) : List Text :=
  h.name :: h.scope ++
    h.templateParams.flatMap (fun p => [p.declaration, p.name]) ++
    h.remoteTypes.map (·.spelling)

def Field.spellings (f : Field) : List Text :=
  [f.name, f.type.spelling, f.converter.spelling] ++
    (f.directives.source.toList ++ f.directives.getter.toList).map (·.spelling)

/-- All names and spellings of a table. -/
def Table.spellings (t : Table) : List Text :=
  t.header.spellings ++ t.entries.flatMap (·.field.spellings)

/-- No name and no spelling has a line end. -/
def Table.Plain (t : Table) : Prop := ∀ s ∈ t.spellings, OneLine s

instance (t : Table) : Decidable t.Plain :=
  inferInstanceAs (Decidable (∀ s ∈ t.spellings, OneLine s))

section
variable {t : Table} (plain : t.Plain)
include plain

theorem Table.Plain.header {s : Text} (h : s ∈ t.header.spellings) :
    OneLine s :=
  plain s (List.mem_append_left _ h)

theorem Table.Plain.field {e : Entry} (entry : e ∈ t.entries) {s : Text}
    (h : s ∈ e.field.spellings) : OneLine s :=
  plain s (List.mem_append_right _ (List.mem_flatMap.mpr ⟨e, entry, h⟩))

theorem Table.Plain.name : OneLine t.header.name :=
  plain.header (by simp [Header.spellings])

theorem Table.Plain.scope : ∀ s ∈ t.header.scope, OneLine s :=
  fun s h => plain.header (by simp [Header.spellings, h])

theorem Table.Plain.remoteType {r : Reference}
    (h : r ∈ t.header.remoteTypes) : OneLine r.spelling :=
  plain.header (by
      simp only [Header.spellings, List.mem_append, List.mem_map]
      exact .inr ⟨r, h, rfl⟩)

theorem Table.Plain.templateParam {p : TemplateParam}
    (h : p ∈ t.header.templateParams) :
    OneLine p.declaration ∧ OneLine p.name := by
  constructor <;> refine plain.header ?_ <;>
    simp only [Header.spellings, List.mem_append, List.mem_flatMap] <;>
    exact .inl (.inr ⟨p, h, by simp⟩)

/-- A type beside the mirror type is written without line ends if its name
is. -/
theorem Table.Plain.sibling {name : Text} (h : OneLine name) :
    OneLine (t.header.sibling name) := by
  have arguments : OneLine t.header.templateArguments := by
    unfold Header.templateArguments
    split
    · exact Text.oneLine_nil
    · have names :
          ∀ s ∈ t.header.templateParams.map TemplateParam.name, OneLine s :=
        List.forall_mem_map.mpr fun p found => (plain.templateParam found).2
      have joined :
          OneLine (Text.join ", "
              (t.header.templateParams.map TemplateParam.name)) :=
        Text.oneLine_join (by decide) names
      simp +decide [joined]
  have scope : OneLine (Text.terminated "::" t.header.scope) :=
    Text.oneLine_terminated (by decide) plain.scope
  simp +decide [Header.sibling, qualifiedName, arguments, scope, h]

theorem Table.Plain.typeReference : OneLine t.header.typeReference :=
  plain.sibling plain.name

end

end Mapping

namespace Adapter

open Mapping (Header Table Entry)
open Text (OneLine)

/-! ## Parts of statements -/

section
variable {t : Table} (plain : t.Plain)
include plain

theorem oneLine_archivedReference : OneLine (archivedReference t.header) :=
  plain.sibling (by simp +decide [archivedName, plain.name])

theorem oneLine_resolverReference : OneLine (resolverReference t.header) :=
  plain.sibling (by simp +decide [resolverName, plain.name])

theorem oneLine_templateHead {head : Text}
    (h : head ∈ templateHead t.header) : OneLine head := by
  unfold templateHead at h
  split at h
  · cases h
  · obtain rfl := Option.some.inj h
    have declarations :
        ∀ s ∈ t.header.templateParams.map (·.declaration), OneLine s :=
      List.forall_mem_map.mpr fun p found => (plain.templateParam found).1
    have joined :
        OneLine
          (Text.join ", " (t.header.templateParams.map (·.declaration))) :=
      Text.oneLine_join (by decide) declarations
    simp +decide [joined]

theorem oneLine_specializationHead : OneLine (specializationHead t.header) := by
  unfold specializationHead
  cases found : templateHead t.header with
  | none => exact show OneLine (Text.ofString "template <>") by decide
  | some head => exact oneLine_templateHead plain found

theorem oneLine_namespacePath : OneLine (namespacePath t.header) :=
  Text.oneLine_join (by decide)
    fun s h => plain.scope s ((List.dropWhile_suffix _).subset h)

/-- The texts a member is made of. -/
theorem oneLine_member {m : Member} (h : m ∈ members t) :
    OneLine m.name ∧ OneLine m.converter ∧ OneLine m.value := by
  obtain ⟨e, entry, rfl⟩ := List.mem_map.mp h
  have name : OneLine e.field.name :=
    plain.field entry (by simp [Mapping.Field.spellings])
  have memberType : OneLine (memberType t.header e.field) := by
    simp +decide [Adapter.memberType, plain.typeReference, name]
  refine ⟨name, ?_, ?_⟩
  · show OneLine (converterName t.header e.field)
    unfold converterName
    split
    · decide
    · exact memberType
    · exact plain.field entry (by simp [Mapping.Field.spellings])
  · show OneLine (valueTypeName t.header e.field)
    unfold valueTypeName
    split
    · rename_i source found
      exact plain.field entry (by simp [Mapping.Field.spellings, found])
    · exact memberType

theorem oneLine_arguments {m : Member} (h : m ∈ members t) :
    OneLine m.arguments := by
  obtain ⟨-, converter, value⟩ := oneLine_member plain h
  simp +decide [Member.arguments, converter, value]

theorem oneLine_binding {m : Member} (h : m ∈ members t) {remote : Text}
    (type : OneLine remote) : OneLine (m.binding remote) := by
  obtain ⟨name, -, value⟩ := oneLine_member plain h
  obtain ⟨e, entry, rfl⟩ := List.mem_map.mp h
  have function : OneLine (getterName e) := by
    unfold getterName
    cases given : e.field.directives.getter with
    | none => exact Text.oneLine_nil
    | some function =>
      exact plain.field entry (by simp [Mapping.Field.spellings, given])
  have fieldName : OneLine e.field.name := name
  cases access : e.access with
  | direct =>
    simp +decide [binding_direct access, directBinding, fieldName, value]
  | getter =>
    simp +decide
      [binding_getter access, getterBinding, fieldName, value, function]
  | getterOwned =>
    simp +decide [binding_getterOwned access, copyBinding, fieldName, value,
      function, type]

end

/-! ## Declarations and statements -/

theorem oneLine_guard (parts : List Text) : OneLine (Name.guard parts) := by
  -- There are only 256 bytes.
  have every : ∀ n < 256, Name.guardByte (UInt8.ofNat n) ≠ '\n' := by
    decide +kernel
  intro found
  obtain ⟨b, -, same⟩ := List.mem_map.mp found
  exact every b.toNat b.toNat_lt (by simpa using same)

theorem plainLines_epilogue (parts : List Text) :
    PlainLines (epilogue (Name.guard parts)) := by
  simp +decide [PlainLines, epilogue, Line.of, Line.blank, oneLine_guard]

section
variable {t : Table} (plain : t.Plain) {remote : Text} (type : OneLine remote)
include plain

theorem oneLine_archivedMember {m : Member} (h : m ∈ members t) :
    OneLine (archivedMember m) := by
  simp +decide
    [archivedMember, oneLine_arguments plain h, (oneLine_member plain h).1]

theorem oneLine_resolverMember {m : Member} (h : m ∈ members t) :
    OneLine (resolverMember m) := by
  simp +decide
    [resolverMember, oneLine_arguments plain h, (oneLine_member plain h).1]

include type

theorem oneLine_buildBody : ∀ s ∈ buildBody remote (members t), OneLine s := by
  unfold buildBody
  split
  · decide
  · intro s found
    obtain ⟨m, member, inside⟩ := List.mem_flatMap.mp found
    have name := (oneLine_member plain member).1
    simp only [buildStatements, List.mem_cons, List.not_mem_nil, or_false]
      at inside
    rcases inside with rfl | rfl
    · exact oneLine_binding plain member type
    · simp +decide [Member.localValue, oneLine_arguments plain member, name]

theorem oneLine_serializeBody :
    ∀ s ∈ serializeBody (resolverReference t.header) remote (members t),
      OneLine s := by
  have resolver := oneLine_resolverReference plain
  unfold serializeBody
  split
  · simp +decide [unused, resolver]
  · rw [List.forall_mem_append]
    constructor
    · intro s found
      obtain ⟨m, member, inside⟩ := List.mem_flatMap.mp found
      have name := (oneLine_member plain member).1
      simp only [serializeStatements, List.mem_cons, List.not_mem_nil, or_false]
        at inside
      rcases inside with rfl | rfl
      · exact oneLine_binding plain member type
      · simp +decide [Member.localValue, Member.localResolver,
          oneLine_arguments plain member, name]
    · have moved (m : Member) (member : m ∈ members t) :
          OneLine ("std::move(" ++ m.localResolver ++ ")") := by
        simp +decide [Member.localResolver, (oneLine_member plain member).1]
      have joined :=
        Text.oneLine_join (show OneLine (Text.ofString ", ") by decide)
          (List.forall_mem_map.mpr moved)
      simp only [List.forall_mem_singleton, returnResolver, Text.oneLine_append]
      exact ⟨⟨⟨⟨by decide, resolver⟩, by decide⟩, joined⟩, by decide⟩

theorem oneLine_deserializeBody :
    ∀ s ∈ deserializeBody remote (members t), OneLine s := by
  unfold deserializeBody
  split
  · simp +decide [unused, type]
  · simp only [List.forall_mem_append, List.forall_mem_map]
    refine ⟨⟨⟨?_, ?_⟩, ?_⟩, by decide⟩
    · intro m member
      obtain ⟨name, -, value⟩ := oneLine_member plain member
      simp +decide [deserializeStatement, Member.localValue,
        oneLine_arguments plain member, name, value]
    · simp +decide [type]
    · intro m member
      simp +decide [assignStatement, Member.localValue,
        (oneLine_member plain member).1]

end

/-! ## Headers -/

section
variable {t : Table} (plain : t.Plain)
include plain

theorem plainLines_repr : PlainLines (reprBlocks t) := by
  simp only [reprBlocks, plainLines_append, beforeResolver]
  refine ⟨plainLines_blockLines ?_ ?_ (by decide), ⟨?_, ?_⟩,
    plainLines_blockLines ?_ ?_ (by decide), ?_, plainLines_epilogue _⟩
  · simp +decide [archivedName, plain.name]
  · exact List.forall_mem_map.mpr fun m => oneLine_archivedMember plain
  · simp +decide [PlainLines, Line.of, Line.blank, plain.name]
  · exact plainLines_of
      fun s found => oneLine_templateHead plain (Option.mem_toList.mp found)
  · simp +decide [resolverName, plain.name]
  · exact List.forall_mem_map.mpr fun m => oneLine_resolverMember plain
  · unfold namespaceEnd
    split
    · exact List.forall_mem_nil _
    · simp +decide
        [PlainLines, Line.of, Line.blank, oneLine_namespacePath plain]

theorem plainLines_archive {remote : RemoteName}
    (type : OneLine remote.type) : PlainLines (archiveBlocks t remote) := by
  have reference := plain.typeReference
  have resolver := oneLine_resolverReference plain
  have head := oneLine_specializationHead plain
  simp only [archiveBlocks, plainLines_append]
  refine ⟨plainLines_blockLines ?_ (oneLine_buildBody plain type) (by decide),
    ?_, plainLines_blockLines ?_ (oneLine_serializeBody plain type) (by decide),
    ?_⟩
  · simp +decide [buildHead, type]
  · simp +decide [PlainLines, beforeSerialize, serializeLines, Line.of,
      Line.blank, type, reference, head]
  · simp +decide [serializeHead, type, resolver]
  · simp only [afterFunctions, plainLines_append]
    exact ⟨by simp +decide [PlainLines], plainLines_epilogue _⟩

theorem plainLines_rebuild {remote : Text} (type : OneLine remote) :
    PlainLines (rebuildLines t remote) := by
  have reference := plain.typeReference
  have archived := oneLine_archivedReference plain
  have head := oneLine_specializationHead plain
  rw [rebuildLines_eq, plainLines_append, plainLines_append]
  refine ⟨?_,
    plainLines_blockLines ?_ (oneLine_deserializeBody plain type) (by decide),
    by simp +decide [PlainLines]⟩
  · simp +decide [PlainLines, rebuildLines, Line.of, type, reference, head]
  · simp +decide [rebuildHead, type, archived]

theorem plainLines_deserialize : PlainLines (rebuildBlocks t) := by
  simp only [rebuildBlocks, plainLines_append]
  refine ⟨?_, by simp +decide [PlainLines], plainLines_epilogue _⟩
  intro l found
  obtain ⟨remote, declared, found⟩ := List.mem_flatMap.mp found
  rcases List.mem_cons.mp found with rfl | found
  · exact Text.oneLine_nil
  · exact plainLines_rebuild plain (plain.remoteType declared) l found

end

end Adapter
end MirrorAdapter
