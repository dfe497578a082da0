import MirrorAdapter.Decl.Parser
import MirrorAdapter.Proofs.Headers.Plain
import MirrorAdapter.Support.Standard

/-!
# Members in all headers

The archived form, its resolver, the functions that build, serialize and
rebuild: each of them is rendered by code of its own, and at run time they
must fit together, the resolver even by position. What ties them is one list
of slots, a name with a converter and a value type each, in the order of the
fields. It can be read off every header of a table that has no line ends in
its names and spellings.
-/
namespace MirrorAdapter
namespace Adapter

open Mapping (Header Table Entry)
open Text (OneLine)

/-! ## Slots -/

/-- What all headers must agree on for one member. -/
structure Slot where
  name : Text
  converter : Text
  value : Text
deriving Repr, DecidableEq

namespace Slot

variable (s : Slot)

/-- The member of the archived form. -/
def archived : Text :=
  "::archwith::rt::ArchivedWith<" ++ s.converter ++ ", " ++ s.value ++
    "> " ++ s.name ++ ";"

/-- The member of the resolver. -/
def resolver : Text :=
  "::archwith::rt::ResolverWith<" ++ s.converter ++ ", " ++ s.value ++
    "> " ++ s.name ++ ";"

/-- The statement builds the member of the archived form from the value and
from the member of the resolver. -/
def build : Text :=
  "ArchiveWith<" ++ s.converter ++ ", " ++ s.value ++ ">::resolveWith(field_" ++
    s.name ++ ", pos + memberOffset(out, &out->" ++ s.name ++
    "), std::move(resolver." ++ s.name ++ "), &out->" ++ s.name ++ ");"

/-- The statement serializes the value and keeps the resolver it gets. -/
def serialize : Text :=
  "auto resolver_" ++ s.name ++ " = SerializeWith<" ++ s.converter ++ ", " ++
    s.value ++ ">::serializeWith(field_" ++ s.name ++ ", serializer);"

/-- The statement reads the value from the member of the archived form. -/
def rebuild : Text :=
  s.value ++ " field_" ++ s.name ++ " = DeserializeWith<" ++ s.converter ++
    ", " ++ s.value ++ ">::deserializeWith(archived." ++ s.name ++
    ", deserializer);"

def assign : Text :=
  "remote." ++ s.name ++ " = std::move(field_" ++ s.name ++ ");"

/-- The statement binds the local variable that holds the value. -/
def BoundBy (statement : Text) : Prop :=
  ∃ source : Text,
    statement =
      "const " ++ s.value ++ "& field_" ++ s.name ++ " = " ++ source ++ ";" ∨
    statement =
      "const " ++ s.value ++ " field_" ++ s.name ++ " = " ++ source ++ ";"

def ofMember (m : Member) : Slot := ⟨m.name, m.converter, m.value⟩

end Slot

/-- What stands in a function that has nothing to do for a member. -/
def idle (slots : List Slot) (names : List Text) : List Text :=
  if slots.isEmpty then unused names else []

/-- A binding and a statement that uses it for each slot. -/
def boundThen (use : Slot → Text) (slots : List Slot)
    (bindings : List Text) : List Text :=
  (List.zipWith (fun s binding => [binding, use s]) slots bindings).flatten

/-- The archived form and the resolver have one member for each slot, in
order. -/
structure DeclaresSlots (a : Artifact) (h : Header) (slots : List Slot) :
    Prop where
  archived :
    a.block 0 ("struct " ++ archivedName h) = some (slots.map Slot.archived)
  resolver :
    a.block 0 ("struct " ++ resolverName h) = some (slots.map Slot.resolver)

/-- The functions that build and serialize bind each slot and hand it on, in
order, and the resolvers are returned in the order of the slots. -/
def ArchivesSlots (a : Artifact) (h : Header) (remote : Text)
    (slots : List Slot) : Prop :=
  ∃ bindings : List Text, List.Forall₂ Slot.BoundBy slots bindings ∧
    a.block 1 (buildHead remote) =
      some (idle slots ["remote", "pos", "resolver", "out"] ++
        boundThen Slot.build slots bindings) ∧
    a.block 1 (serializeHead (resolverReference h) remote) =
      some (idle slots ["remote", "serializer"] ++
        boundThen Slot.serialize slots bindings ++
        ["return " ++ resolverReference h ++ "\x7b" ++ Text.join ", "
            (slots.map fun s => "std::move(resolver_" ++ s.name ++ ")") ++
          "\x7d;"])

/-- The function that rebuilds a remote value reads each slot from the
archived form, in order, and assigns each to its own member. -/
def RebuildsSlots (a : Artifact) (h : Header) (remote : Text)
    (slots : List Slot) : Prop :=
  a.block 1 (rebuildHead (archivedReference h) remote) = some (
    if slots.isEmpty then unused ["archived", "deserializer"] ++
        ["return " ++ remote ++ "\x7b\x7d;"]
    else
      slots.map Slot.rebuild ++ [remote ++ " remote\x7b\x7d;"] ++
        slots.map Slot.assign ++ [Text.ofString "return remote;"])

theorem boundBy_binding (h : Header) (e : Entry) (remote : Text) :
    (Slot.ofMember (.ofEntry h e)).BoundBy
      ((Member.ofEntry h e).binding remote) := by
  cases access : e.access with
  | direct =>
    rw [binding_direct access]
    refine ⟨"remote." ++ e.field.name, .inl ?_⟩
    simp [directBinding, Slot.ofMember, Member.ofEntry, Text.ofString]
  | getter =>
    rw [binding_getter access]
    refine ⟨"std::invoke(&" ++ getterName e ++ ", remote)", .inl ?_⟩
    simp [getterBinding, Slot.ofMember, Member.ofEntry, Text.ofString]
  | getterOwned =>
    rw [binding_getterOwned access]
    refine ⟨"std::invoke(&" ++ getterName e ++ ", " ++ remote ++ "(remote))",
      .inr ?_⟩
    simp [copyBinding, Slot.ofMember, Member.ofEntry, Text.ofString]

theorem map_archived (ms : List Member) :
    (ms.map Slot.ofMember).map Slot.archived = ms.map archivedMember := by
  rw [List.map_map]
  refine List.map_congr_left fun m _ => ?_
  simp [Slot.archived, Slot.ofMember, archivedMember, Member.arguments,
    Text.ofString]

theorem map_resolver (ms : List Member) :
    (ms.map Slot.ofMember).map Slot.resolver = ms.map resolverMember := by
  rw [List.map_map]
  refine List.map_congr_left fun m _ => ?_
  simp [Slot.resolver, Slot.ofMember, resolverMember, Member.arguments,
    Text.ofString]

/-- The slots of a table. -/
def slots (t : Table) : List Slot := (members t).map Slot.ofMember

theorem isEmpty_slots (t : Table) :
    (slots t).isEmpty = (members t).isEmpty :=
  List.isEmpty_map

theorem declaresSlots_repr [Support] {t : Table}
    (plain : t.Plain) (index : Index) :
    DeclaresSlots (reprHeader t index) t.header (slots t) := by
  obtain ⟨front, content⟩ := content_reprHeader t index
  have closes : ClosesBlock "\x7d;" := rfl
  constructor
  · rw [slots, map_archived]
    refine Artifact.block_eq content (plainLines_repr plain) ?_
    refine blockAfter_lines [] (startsBlock_struct _) closes ?_
    have start := startsBlock_struct (archivedName t.header)
    simp only [List.forall_mem_append]
    refine ⟨apart_of_all start ?_,
      blockLines_apart start (startsBlock_struct _) closes ?_,
      apart_of_all start (namespaceEnd_standsApart _), apart_of_all start rfl⟩
    · rw [beforeResolver, List.all_append, templateHead_standsApart]
      rfl
    · rw [ne_eq, List.append_cancel_left_eq]
      exact archivedName_ne_resolverName t.header
  · rw [slots, map_resolver]
    refine Artifact.block_eq content (plainLines_repr plain) ?_
    rw [reprBlocks, ← List.append_assoc]
    refine blockAfter_lines _ (startsBlock_struct _) closes ?_
    have start := startsBlock_struct (resolverName t.header)
    rw [List.forall_mem_append]
    exact ⟨apart_of_all start (namespaceEnd_standsApart _),
      apart_of_all start rfl⟩

theorem boundThen_map {use : Slot → Text} {statements : Member → List Text}
    {binding : Member → Text} (ms : List Member)
    (h : ∀ m, statements m = [binding m, use (.ofMember m)]) :
    ms.flatMap statements =
      boundThen use (ms.map Slot.ofMember) (ms.map binding) := by
  induction ms with
  | nil => rfl
  | cons m ms ih =>
    rw [List.flatMap_cons, h, ih]
    rfl

theorem buildBody_eq (t : Table) (remote : Text) :
    buildBody remote (members t) =
      idle (slots t) ["remote", "pos", "resolver", "out"] ++
        boundThen Slot.build (slots t)
          ((members t).map (Member.binding remote)) := by
  have statements (m : Member) :
      buildStatements remote m =
        [m.binding remote, Slot.build (.ofMember m)] := by
    simp [buildStatements, Slot.build, Slot.ofMember, Member.arguments,
      Member.localValue, Text.ofString]
  rw [buildBody, idle, isEmpty_slots, slots, ← boundThen_map _ statements]
  cases members t <;> simp

theorem serializeBody_eq (t : Table) (resolver remote : Text) :
    serializeBody resolver remote (members t) =
      idle (slots t) ["remote", "serializer"] ++ boundThen Slot.serialize
          (slots t) ((members t).map (Member.binding remote)) ++
        ["return " ++ resolver ++ "\x7b" ++ Text.join ", "
            ((slots t).map fun s => "std::move(resolver_" ++ s.name ++ ")") ++
          "\x7d;"] := by
  have statements (m : Member) :
      serializeStatements remote m =
        [m.binding remote, Slot.serialize (.ofMember m)] := by
    simp [serializeStatements, Slot.serialize, Slot.ofMember, Member.arguments,
      Member.localValue, Member.localResolver, Text.ofString]
  have moved (m : Member) :
      Text.ofString "std::move(" ++ m.localResolver ++ ")" =
        Text.ofString "std::move(resolver_" ++ (Slot.ofMember m).name ++
          ")" := by
    simp [Slot.ofMember, Member.localResolver, Text.ofString]
  rw [serializeBody, idle, isEmpty_slots, slots,
    ← boundThen_map _ statements, returnResolver, List.map_map]
  simp only [moved]
  cases members t <;> simp [Text.join, Text.ofString, Function.comp_def]

theorem deserializeBody_eq (t : Table) (remote : Text) :
    deserializeBody remote (members t) =
      if (slots t).isEmpty then unused ["archived", "deserializer"] ++
          ["return " ++ remote ++ "\x7b\x7d;"]
      else
        (slots t).map Slot.rebuild ++ [remote ++ " remote\x7b\x7d;"] ++
          (slots t).map Slot.assign ++ [Text.ofString "return remote;"] := by
  have rebuild (m : Member) :
      Slot.rebuild (.ofMember m) = deserializeStatement m := by
    simp [deserializeStatement, Slot.rebuild, Slot.ofMember,
      Member.arguments, Member.localValue, Text.ofString]
  have assign (m : Member) : Slot.assign (.ofMember m) = assignStatement m := by
    simp [assignStatement, Slot.assign, Slot.ofMember, Member.localValue,
      Text.ofString]
  rw [deserializeBody, isEmpty_slots, slots, List.map_map, List.map_map]
  simp only [Function.comp_def, rebuild, assign]

theorem forall₂_boundBy (t : Table) (remote : Text) :
    List.Forall₂ Slot.BoundBy (slots t)
      ((members t).map (Member.binding remote)) := by
  rw [slots, members, List.map_map, List.map_map, List.forall₂_map_left_iff,
    List.forall₂_map_right_iff, List.forall₂_same]
  exact fun e _ => boundBy_binding t.header e remote

section
variable {t : Table} (plain : t.Plain)
include plain

theorem archivesSlots_archive [Support]
    {remote : RemoteName} (type : OneLine remote.type) :
    ArchivesSlots (archiveHeader t remote) t.header remote.type (slots t) := by
  obtain ⟨front, content⟩ := content_archiveHeader t remote
  have closes : ClosesBlock "\x7d" := rfl
  refine ⟨_, forall₂_boundBy t remote.type, ?_, ?_⟩
  · rw [← buildBody_eq]
    refine Artifact.block_eq content (plainLines_archive plain type) ?_
    refine blockAfter_lines [] (startsBlock_build _) closes ?_
    have start := startsBlock_build remote.type
    simp only [List.forall_mem_append]
    exact ⟨apart_of_all start (beforeSerialize_standsApart _ _),
      blockLines_apart start (startsBlock_serialize _ _) closes
        (serializeHead_ne_buildHead _ _), apart_of_all start rfl⟩
  · rw [← serializeBody_eq]
    refine Artifact.block_eq content (plainLines_archive plain type) ?_
    rw [archiveBlocks, ← List.append_assoc]
    exact blockAfter_lines _ (startsBlock_serialize _ _) closes
      (apart_of_all (startsBlock_serialize _ _) rfl)

end

theorem rebuildsSlots_deserialize [Support] {t : Table}
    (plain : t.Plain) {a : Artifact} (h : deserializeHeader t = .ok a)
    {remote : Reference} (declared : remote ∈ t.header.remoteTypes) :
    RebuildsSlots a t.header remote.spelling (slots t) := by
  obtain ⟨front, content⟩ := content_deserializeHeader h
  rw [RebuildsSlots, ← deserializeBody_eq]
  refine Artifact.block_eq content (plainLines_deserialize plain) ?_
  have apart :
      ∀ l ∈ closeRuntime ++ epilogue (guardName t.header ["deserialize"]),
        l.Apart 1 (rebuildHead (archivedReference t.header) remote.spelling) :=
    apart_of_all (startsBlock_rebuild _ _) rfl
  have member : remote.spelling ∈ t.header.remoteTypes.map (·.spelling) :=
    List.mem_map_of_mem declared
  have several := blockAfter_rebuild t member apart
  rwa [List.flatMap_map] at several

/-- All headers of a table say the same of each member, in the order of the
fields. -/
theorem headers_agree [Support] (t : Table) (index : Index) (plain : t.Plain) :
    (slots t).map Slot.name = t.entries.map (·.field.name) ∧
    DeclaresSlots (reprHeader t index) t.header (slots t) ∧ List.Forall₂
      (fun remote a => ArchivesSlots a t.header remote.spelling (slots t))
      t.header.remoteTypes (archiveHeaders t) ∧
    ∀ a, deserializeHeader t = .ok a → ∀ remote ∈ t.header.remoteTypes,
        RebuildsSlots a t.header remote.spelling (slots t) := by
  refine ⟨?_, declaresSlots_repr plain index, ?_, ?_⟩
  · rw [slots, members, List.map_map, List.map_map]
    rfl
  · exact forall₂_archiveHeaders
      (P := fun remote a => ArchivesSlots a t.header remote (slots t)) t
      fun remote declared slug =>
        archivesSlots_archive plain (plain.remoteType declared)
  · exact fun a derived remote declared =>
      rebuildsSlots_deserialize plain derived declared

/-- Two remote types, and a field of each kind of converter. -/
def twoRemotes : Decl.Module :=
  (Decl.readFiles
      [("f.mirror",
        "struct [[archive_with(from(::r::A, ::r::B))]] A \x7b int x; " ++
          "[[archive_with(from(::r::C))]] C y; " ++
          "[[archive_with(from(::r::C), via(::c::V))]] C z; \x7d;")]).1

section
open Support.Standard

theorem headers_agree_twoRemotes :
    ∃ c ∈ compileModule twoRemotes,
      ∃ t a, c.table = some t ∧ deserializeHeader t = .ok a ∧
        t.header.remoteTypes.map (·.spelling) =
          [Text.ofString "::r::A", Text.ofString "::r::B"] ∧
      slots t =
        [ ⟨"x", "::archwith::rt::Identity", "decltype(::A::x)"⟩
        , ⟨"y", "decltype(::A::y)", "::r::C"⟩
        , ⟨"z", "::c::V", "::r::C"⟩ ] ∧
      DeclaresSlots (reprHeader t (Index.ofModule twoRemotes))
        t.header (slots t) ∧
      List.Forall₂
        (fun remote a => ArchivesSlots a t.header remote.spelling (slots t))
        t.header.remoteTypes (archiveHeaders t) ∧
      ∀ remote ∈ t.header.remoteTypes,
        RebuildsSlots a t.header remote.spelling (slots t) := by
  have found :
      ∃ c ∈ compileModule twoRemotes,
        ∃ t ∈ c.table, t.Plain ∧ t.fullyReconstructable = true ∧
          t.header.remoteTypes.map (·.spelling) =
            [Text.ofString "::r::A", Text.ofString "::r::B"] ∧
      slots t =
        [ ⟨"x", "::archwith::rt::Identity", "decltype(::A::x)"⟩
        , ⟨"y", "decltype(::A::y)", "::r::C"⟩
        , ⟨"z", "::c::V", "::r::C"⟩ ] := by
    decide +kernel
  obtain ⟨c, result, t, table, plain, whole, types, inOrder⟩ := found
  obtain ⟨-, declared, archived, rebuilt⟩ :=
    headers_agree t (Index.ofModule twoRemotes) plain
  have derived : deserializeHeader t = .ok _ := if_pos whole
  exact ⟨c, result, t, _, table, derived, types, inOrder, declared,
    archived, rebuilt _ derived⟩

end

end Adapter
end MirrorAdapter
