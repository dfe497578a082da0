import MirrorAdapter.Proofs.Compilations
import MirrorAdapter.Proofs.Headers.Guards
import MirrorAdapter.Proofs.Headers.Index
import MirrorAdapter.Support.Standard

/-!
# Includes of other generated headers

The header of the archived form includes the umbrellas of other mirror types
that take part as converters. Which they are is looked up in an index of all
declarations of the module, made before any of them is compiled. So an include
line always leads to a mirror type that the module declares, but whether the
header is there depends on that declaration alone: the line stays where the
declaration fails.
-/
namespace MirrorAdapter

open Decl (File Mirror Module)

namespace Adapter

open Mapping (Table)

/-! ## The index of a module -/

/-- The type that a declaration is of. -/
def TypeName.ofDeclaration (declaration : File × Mirror) : TypeName :=
  ⟨declaration.2.scope, declaration.2.name⟩

/-- The entry for a declaration. -/
def IndexEntry.ofDeclaration (declaration : File × Mirror) : IndexEntry :=
  ⟨declaration.2.qualifiedName,
    umbrellaPath declaration.2.scope declaration.2.name⟩

namespace Index

/-- The index of a module is that of the types it declares. -/
theorem ofModule_eq (m : Module) :
    ofModule m = ofTypes ((declarations m).map TypeName.ofDeclaration) := by
  have mirrors : m.flatMap (·.mirrors) = (declarations m).map (·.2) := by
    simp [declarations, List.map_flatMap, Function.comp_def]
  rw [ofModule, mirrors, ofTypes, List.foldl_map, List.foldl_map]
  rfl

theorem entries_ofModule (m : Module) :
    (ofModule m).entries =
      (Repetition.firsts (·.2.qualifiedName) (declarations m)).map
        IndexEntry.ofDeclaration := by
  rw [ofModule_eq, entries_ofTypes, Repetition.firsts_map, List.map_map]
  rfl

theorem mem_of_find? {index : Index} {name : Text} {e : IndexEntry}
    (h : index.find? name = some e) : e ∈ index.entries :=
  List.mem_of_find?_eq_some h

theorem mem_of_findWithin {index : Index} {scope : List Text}
    {name : Text} {depth : Nat} {e : IndexEntry}
    (h : index.findWithin scope name depth = some e) : e ∈ index.entries := by
  induction depth with
  | zero => exact mem_of_find? h
  | succ depth ih =>
    unfold findWithin at h
    split at h
    · obtain rfl := Option.some.inj h
      exact mem_of_find? (by assumption)
    · exact ih h

/-- What is looked up is an entry. -/
theorem mem_of_lookup {index : Index} {spelling : Text} {scope : List Text}
    {e : IndexEntry} (h : index.lookup spelling scope = some e) :
    e ∈ index.entries := by
  unfold lookup at h
  dsimp only at h
  split at h
  · cases h
  · split at h
    · exact mem_of_find? h
    · exact mem_of_findWithin h

end Index

/-! ## Lines that an index adds -/

theorem mem_converterHeaders {t : Table} {index : Index}
    {path : Text} (h : path ∈ converterHeaders t index) :
    path ≠ umbrellaPath t.header.scope t.header.name ∧
    ∃ e ∈ index.entries, e.umbrella = path := by
  obtain ⟨found, other⟩ := List.mem_filter.mp (Text.mem_sortedSet.mp h)
  obtain ⟨spelling, -, looked⟩ := List.mem_filterMap.mp found
  obtain ⟨e, entry, rfl⟩ := Option.map_eq_some_iff.mp looked
  exact ⟨by simpa using other, e, Index.mem_of_lookup entry, rfl⟩

/-- Without an index there are no headers to include. -/
theorem converterHeaders_empty (t : Table) : converterHeaders t {} = [] := by
  refine List.eq_nil_iff_forall_not_mem.mpr fun path found => ?_
  obtain ⟨-, e, entry, -⟩ := mem_converterHeaders found
  cases entry

/-- An index adds a block of include lines and changes nothing else. -/
theorem reprLines_split [Support] (t : Table) :
    ∃ front back, ∀ index, reprLines t index =
          front ++ (converterHeaders t index).map includeLine ++ back := by
  have regroup (a b c gained d e f : List Line) :
      a ++ b ++ c ++ gained ++ d ++ e ++ f =
        (a ++ b ++ c) ++ gained ++ (d ++ e ++ f) := by
    simp only [List.append_assoc]
  exact ⟨_, _, fun index => regroup _ _ _ _ _ _ _⟩

end Adapter

open Adapter (Artifact Index Line)
open Mapping (Table)

/-! ## Where the lines lead -/

/-- The umbrella of a declaration is among its headers iff the declaration
does not fail. -/
theorem umbrellaPath_mem_iff [Support]
    (file : File) (m : Mirror) (index : Index) :
    Adapter.umbrellaPath m.scope m.name ∈
      (compileMirror file m index).headers.map (·.path) ↔
      (compileMirror file m index).failed = false := by
  obtain ⟨model, spec, t, stages, result⟩ | ⟨log, result, -, -⟩ :=
    compileMirror_cases file m index
  · have own : (Adapter.umbrellaHeader t (includedHeaders t index)).path =
        Adapter.umbrellaPath m.scope m.name := by
      rw [Adapter.umbrellaHeader, stages.header_eq]
      rfl
    simp [result, Compilation.headers, Compilation.failed, headers_render, own]
  · simp [result, Compilation.headers, Compilation.failed]

/-- The path is that of the umbrella of a mirror type which the module
declares, and its header is emitted iff that declaration does not fail. Of
several declarations with one name the first is meant. -/
def DeclaredUmbrella [Support] (m : Module) (path : Text) : Prop :=
  ∃ (i : Nat) (file : File) (mirror : Mirror) (c : Compilation),
    (declarations m)[i]? = some (file, mirror) ∧
    mirror.qualifiedName ∉ ((declarations m).take i).map (·.2.qualifiedName) ∧
    (compileModule m)[i]? = some c ∧
    path = Adapter.umbrellaPath mirror.scope mirror.name ∧
    (path ∈ c.headers.map (·.path) ↔ c.failed = false)

theorem declaredUmbrella_of_mem_entries [Support] {m : Module}
    {e : Adapter.IndexEntry} (h : e ∈ (Index.ofModule m).entries) :
    DeclaredUmbrella m e.umbrella := by
  rw [Index.entries_ofModule] at h
  obtain ⟨⟨file, mirror⟩, first, rfl⟩ := List.mem_map.mp h
  obtain ⟨i, unpaired, declared, new⟩ := Repetition.mem_firsts first
  refine ⟨i, file, mirror, compileMirror file mirror (Index.ofModule m),
    declared, new, ?_, rfl, ?_⟩
  · rw [compileModule_eq, List.getElem?_map, namesakes, unpaired]
    rfl
  · exact umbrellaPath_mem_iff file mirror (Index.ofModule m)

/-- A result with a table begins with the header of the archived form. -/
theorem head?_headers [Support] {m : Module} {c : Compilation}
    {t : Table} (h : c ∈ compileModule m) (table : c.table = some t) :
    c.headers.head? = some (Adapter.reprHeader t (Index.ofModule m)) := by
  obtain failed | ⟨file, mirror, model, spec, t', -, -, rfl⟩ :=
    stages_of_mem_compileModule h
  · simp [Compilation.table, failed] at table
  · obtain rfl : t' = t := by simpa [Compilation.table] using table
    simp [Compilation.headers, headers_render, includedHeaders]

/-- What the index of a module adds to the header of an archived form is a
block of include lines, and each of them leads to the umbrella of another
mirror type that the module declares. -/
theorem includes_of_index [Support] (m : Module) (c : Compilation)
    (t : Table) (result : c ∈ compileModule m) (table : c.table = some t) :
    (∃ front back : List Line,
        c.headers.head? = some ⟨Adapter.reprPath t.header, Line.renderAll
              (front ++ (Adapter.converterHeaders t (Index.ofModule m)).map
                Adapter.includeLine ++ back)⟩ ∧
        Adapter.reprHeader t {} =
          ⟨Adapter.reprPath t.header, Line.renderAll (front ++ back)⟩) ∧
    ∀ path ∈ Adapter.converterHeaders t (Index.ofModule m),
      path ≠ Adapter.umbrellaPath t.header.scope t.header.name ∧
      DeclaredUmbrella m path := by
  constructor
  · obtain ⟨front, back, split⟩ := Adapter.reprLines_split t
    refine ⟨front, back, ?_, ?_⟩
    · rw [head?_headers result table, Adapter.reprHeader, split]
    · rw [Adapter.reprHeader, split, Adapter.converterHeaders_empty]
      simp
  · intro path found
    obtain ⟨other, e, entry, rfl⟩ := Adapter.mem_converterHeaders found
    exact ⟨other, declaredUmbrella_of_mem_entries entry⟩

/-- A mirror type whose field is of another one, which names no remote type
and fails. -/
def failedConverter : Module :=
  (Decl.readFiles
      [("f.mirror",
        "struct [[archive_with(from(::r::A))]] A \x7b B b; \x7d; " ++
          "struct B \x7b int x; \x7d;")]).1

section
open Support.Standard

theorem includes_of_index_failedConverter :
    ∃ c ∈ compileModule failedConverter,
      ∃ t, c.table = some t ∧ Text.ofString "B.hpp" ∈
          Adapter.converterHeaders t (Index.ofModule failedConverter) ∧
        DeclaredUmbrella failedConverter "B.hpp" := by
  have found :
      ∃ c ∈ compileModule failedConverter,
        ∃ t ∈ c.table, Text.ofString "B.hpp" ∈
            Adapter.converterHeaders t (Index.ofModule failedConverter) := by
    decide +kernel
  obtain ⟨c, result, t, table, included⟩ := found
  exact ⟨c, result, t, table, included,
    ((includes_of_index failedConverter c t result table).2 _ included).2⟩

/-- The line stays although the header it includes is not emitted. -/
theorem failedConverter_included :
    (compileModule failedConverter).map (fun c => (c.qualifiedName, c.failed)) =
      [(Text.ofString "A", false), (Text.ofString "B", true)] ∧
    ¬∀ c ∈ compileModule failedConverter, ∀ t ∈ c.table,
          ∀ path ∈ Adapter.converterHeaders t (Index.ofModule failedConverter),
            ∃ d ∈ compileModule failedConverter,
              d.failed = false ∧ path ∈ d.headers.map (·.path) := by
  decide +kernel

end

end MirrorAdapter
