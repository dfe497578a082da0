import MirrorAdapter.Proofs.Compilations
import MirrorAdapter.Proofs.Headers.Layout
import MirrorAdapter.Proofs.Siblings
import MirrorAdapter.Proofs.Vocabulary
import MirrorAdapter.Support.Standard

/-!
# Structs that headers define

The header of an archived form defines three structs in the namespace of the
mirror type: the mirror type, the archived form and the resolver. Their names
are made of the declared one, and only declared names are kept apart; so two
headers of a module define one struct exactly when the name of one mirror
type, with the head or the tail of a derived name, is that of another or of
what is derived from it.
-/
namespace MirrorAdapter

open Decl (Mirror Module)
open Mapping (Header Table)
open Name (IsName)

namespace Adapter

/-! ## Structs of one header -/

/-- The names of the structs that lines open at the outermost level. -/
def structNames (lines : List Line) : List Text :=
  lines.filterMap fun l =>
    if l.level = 0 ∧ (Text.ofString "struct ").isPrefixOf l.text then
      some (l.text.drop 7)
    else none

theorem structNames_append (a b : List Line) :
    structNames (a ++ b) = structNames a ++ structNames b :=
  List.filterMap_append

theorem structNames_structLines (h : Header)
    (name : Text) (memberLines : List Text) :
    structNames (structLines h name memberLines) = [name] := by
  have head : structNames ((templateHead h).toList.map (Line.of 0)) = [] := by
    unfold templateHead
    split <;> rfl
  have members : structNames (memberLines.map (Line.of 1)) = [] :=
    List.filterMap_eq_nil_iff.mpr fun l inside => by
      obtain ⟨text, -, rfl⟩ := List.mem_map.mp inside
      rfl
  rw [structLines, structNames_append, structNames_append,
    structNames_append, head, members]
  rfl

/-- The lines that open the namespace, the members and the guard of a header
do not open structs. -/
theorem structNames_of_outside {lines : List Line}
    (h : ∀ l ∈ lines, l.text.head? ≠ some ('s' : Byte)) :
    structNames lines = [] :=
  List.filterMap_eq_nil_iff.mpr fun l inside => by
    rw [if_neg]
    rintro ⟨-, opens⟩
    obtain ⟨rest, text⟩ := List.isPrefixOf_iff_prefix.mp opens
    exact h l inside (text ▸ rfl)

/-- The names of the structs for a mirror type, within its namespace. -/
def structNamesOf (h : Header) : List Text :=
  [h.name, archivedName h, resolverName h]

/-- The header defines the structs for a mirror type within its namespace, and
none outside. -/
def Artifact.DefinesStructs (a : Artifact) (h : Header) : Prop :=
  ∃ front body back,
    a.content = Line.renderAll (front ++ inNamespace h body ++ back) ∧
    structNames front = [] ∧ structNames body = structNamesOf h ∧
    structNames back = []

theorem definesStructs_reprHeader [Support] (t : Table) (index : Index) :
    (reprHeader t index).DefinesStructs t.header := by
  refine ⟨_, _, _, rfl, ?_, ?_, ?_⟩
  · refine structNames_of_outside ?_
    simp only [List.forall_mem_append, List.forall_mem_map]
    refine ⟨⟨⟨⟨?_, by decide⟩, ?_⟩, ?_⟩, by decide⟩
    · simp +decide [prologue, Line.of, Line.blank, Text.ofString]
    · simp +decide [Line.of, Text.ofString]
    · simp +decide [includeLine, Line.of, Text.ofString]
  · simp only [structNames_append, structNames_structLines, structNamesOf]
    rfl
  · exact structNames_of_outside
      (by simp +decide [epilogue, Line.of, Line.blank, Text.ofString])

/-! ## Structs of two headers -/

/-- The qualified names of the structs for a mirror type. -/
def definedTypes (h : Header) : List Text :=
  (structNamesOf h).map (MirrorAdapter.qualifiedName h.scope)

/-- What is derived from the name of the first mirror type is the second, or
its resolver. -/
def Clashes (h h' : Header) : Prop :=
  h.scope = h'.scope ∧
    (archivedName h = h'.name ∨ resolverName h = h'.name ∨
      archivedName h = resolverName h')

/-- A mirror type with names for itself and its namespaces. -/
def IsNamed (h : Header) : Prop := IsName h.name ∧ ∀ c ∈ h.scope, IsName c

theorem archivedName_inj {h h' : Header} :
    archivedName h = archivedName h' ↔ h.name = h'.name :=
  List.append_cancel_left_eq _ _ _ |>.to_iff

theorem resolverName_inj {h h' : Header} :
    resolverName h = resolverName h' ↔ h.name = h'.name :=
  List.append_cancel_right_eq _ _ _ |>.to_iff

section
variable {h h' : Header}

theorem archivedName_ne_name (h : Header) : archivedName h ≠ h.name := by
  intro same
  have lengths := congrArg List.length same
  simp only [archivedName, List.length_append] at lengths
  exact absurd lengths (by simp +decide)

theorem resolverName_ne_name (h : Header) : resolverName h ≠ h.name := by
  intro same
  simpa [resolverName, Text.ofString] using congrArg List.length same

theorem nodup_definedTypes (h : Header) : (definedTypes h).Nodup := by
  have names : (structNamesOf h).Nodup := by
    simp [structNamesOf, (archivedName_ne_name h).symm,
      (resolverName_ne_name h).symm, (archivedName_ne_resolverName h).symm]
  exact names.map fun a b same => List.append_cancel_left same

theorem not_clashes_self (h : Header) : ¬Clashes h h := by
  rintro ⟨-, archived | resolver | both⟩
  · exact archivedName_ne_name h archived
  · exact resolverName_ne_name h resolver
  · exact archivedName_ne_resolverName h both.symm

theorem IsNamed.noColons (named : IsNamed h) :
    ∀ name ∈ structNamesOf h, NoColons h.scope name := by
  have plain : (':' : Byte) ∉ h.name := named.1.not_mem (by decide)
  have scope : ∀ c ∈ h.scope, (':' : Byte) ∉ c :=
    fun c inside => (named.2 c inside).not_mem (by decide)
  have archived : (':' : Byte) ∉ archivedName h := by
    rw [archivedName, List.mem_append, not_or]
    exact ⟨by decide, plain⟩
  have resolver : (':' : Byte) ∉ resolverName h := by
    rw [resolverName, List.mem_append, not_or]
    exact ⟨plain, by decide⟩
  have all : ∀ name ∈ structNamesOf h, (':' : Byte) ∉ name := by
    simp [structNamesOf, plain, archived, resolver]
  exact fun name inside => List.forall_mem_cons.mpr ⟨all name inside, scope⟩

/-- Of two mirror types with different names all structs are different iff no
derived name is one of the other. -/
theorem disjoint_definedTypes_iff (named : IsNamed h) (named' : IsNamed h')
    (apart : h.qualifiedName ≠ h'.qualifiedName) :
    List.Disjoint (definedTypes h) (definedTypes h') ↔
      ¬Clashes h h' ∧ ¬Clashes h' h := by
  have common :
      ¬List.Disjoint (definedTypes h) (definedTypes h') ↔
        h.scope = h'.scope ∧
        ∃ name ∈ structNamesOf h, name ∈ structNamesOf h' := by
    simp only [List.Disjoint, definedTypes, List.mem_map, not_forall,
      not_false_eq_true, exists_prop]
    constructor
    · rintro ⟨_, ⟨name, inside, rfl⟩, ⟨name', inside', same⟩, -⟩
      obtain ⟨scopes, rfl⟩ :=
        qualifiedName_inj (named'.noColons _ inside')
          (named.noColons _ inside) same
      exact ⟨scopes.symm, name', inside, inside'⟩
    · rintro ⟨scopes, name, inside, inside'⟩
      exact ⟨_, ⟨name, inside, rfl⟩, ⟨name, inside', by rw [scopes]⟩, trivial⟩
  rw [← not_iff_not, common, ← not_or, not_not]
  by_cases scopes : h.scope = h'.scope
  case neg => simp [Clashes, scopes, Ne.symm scopes]
  have names : h.name ≠ h'.name :=
    fun same => apart (by rw [Header.qualifiedName, scopes, same]; rfl)
  -- Names that are derived in the same way differ.
  have archived : archivedName h ≠ archivedName h' :=
    mt archivedName_inj.mp names
  have resolver : resolverName h ≠ resolverName h' :=
    mt resolverName_inj.mp names
  simp only [Clashes, scopes, true_and, structNamesOf,
    List.mem_cons, List.not_mem_nil, or_false, exists_eq_or_imp,
    exists_eq_left, names, archived, resolver, false_or]
  constructor
  · rintro ((own | own) | (declared | both) | (declared | both))
    · exact .inr (.inl own.symm)
    · exact .inr (.inr (.inl own.symm))
    · exact .inl (.inl declared)
    · exact .inl (.inr (.inr both))
    · exact .inl (.inr (.inl declared))
    · exact .inr (.inr (.inr both.symm))
  · rintro ((declared | declared | both) | (declared | declared | both))
    · exact .inr (.inl (.inl declared))
    · exact .inr (.inr (.inl declared))
    · exact .inr (.inl (.inr both))
    · exact .inl (.inl declared.symm)
    · exact .inl (.inr declared.symm)
    · exact .inr (.inr (.inr both.symm))

end

end Adapter

/-! ## All headers of a module -/

open Adapter (definedTypes Clashes)

/-- The tables of the declarations of a module that did not fail. -/
def tablesOf [Support] (m : Module) : List Table :=
  (compileModule m).filterMap (·.table)

theorem exists_declaration_of_table [Support] {m : Module} {c : Compilation}
    {t : Table} (h : c ∈ compileModule m) (table : c.table = some t) :
    c.failed = false ∧ c.qualifiedName = t.header.qualifiedName ∧
    ∃ declaration ∈ declarations m, t.header.scope = declaration.2.scope ∧
      t.header.name = declaration.2.name := by
  obtain none_made | ⟨d, declared, t', renders⟩ :=
    renders_of_mem_compileModule h
  · simp [Compilation.table, none_made] at table
  obtain rfl : t' = t := by
    simpa [Compilation.table, renders.adapters] using table
  refine ⟨renders.failed, ?_, d, declared, renders.scope, renders.name⟩
  rw [renders.qualifiedName, Header.qualifiedName, renders.scope, renders.name]
  rfl

theorem pairwise_tablesOf [Support] (m : Module) :
    (tablesOf m).Pairwise
      fun t t' => t.header.qualifiedName ≠ t'.header.qualifiedName := by
  have names := nodup_names_succeeded m
  rw [List.Nodup, List.pairwise_map, List.pairwise_filter] at names
  rw [tablesOf, List.pairwise_filterMap]
  refine names.imp_of_mem fun result result' apart t table t' table' => ?_
  obtain ⟨succeeded, name, -⟩ := exists_declaration_of_table result table
  obtain ⟨succeeded', name', -⟩ := exists_declaration_of_table result' table'
  rw [← name, ← name']
  exact apart (by simp [succeeded]) (by simp [succeeded'])

theorem isNamed_of_mem_tablesOf [Support] {m : Module} (named : m.Named)
    {t : Table} (h : t ∈ tablesOf m) : Adapter.IsNamed t.header := by
  obtain ⟨c, result, table⟩ := List.mem_filterMap.mp h
  obtain ⟨-, -, d, declared, scope, name⟩ :=
    exists_declaration_of_table result table
  rw [Adapter.IsNamed, scope, name]
  exact named d declared

/-- The first header of each result that did not fail defines the three
structs of its mirror type. All of these structs of a module have different
qualified names exactly if no mirror type is called after the archived form or
the resolver of another, and no archived form is called as the resolver of
another. -/
theorem definedTypes_nodup_iff [Support] (files : List (Text × Text)) :
    let m := (Decl.readFiles files).1
    (∀ c ∈ compileModule m, ∀ t, c.table = some t →
          ∃ a, c.headers.head? = some a ∧ a.DefinesStructs t.header) ∧
    (((tablesOf m).flatMap fun t => definedTypes t.header).Nodup ↔
      ∀ t ∈ tablesOf m, ∀ t' ∈ tablesOf m, ¬Clashes t.header t'.header) := by
  intro m
  have named : m.Named := named_readFiles files
  constructor
  · intro c result t table
    exact ⟨_, head?_headers result table, Adapter.definesStructs_reprHeader t _⟩
  rw [List.nodup_flatMap]
  constructor
  · rintro ⟨-, disjoint⟩
    have pairs :
        (tablesOf m).Pairwise fun t t' =>
            ¬Clashes t.header t'.header ∧ ¬Clashes t'.header t.header :=
      (pairwise_tablesOf m).and disjoint |>.imp_of_mem
        fun known known' ⟨apart, both⟩ =>
          (Adapter.disjoint_definedTypes_iff
              (isNamed_of_mem_tablesOf named known)
              (isNamed_of_mem_tablesOf named known') apart).mp both
    exact List.Pairwise.forall_of_forall_of_flip
      (fun t _ => Adapter.not_clashes_self t.header)
      (pairs.imp And.left) (pairs.imp And.right)
  · intro clear
    refine ⟨fun t _ => Adapter.nodup_definedTypes _,
      (pairwise_tablesOf m).imp_of_mem fun known known' apart => ?_⟩
    exact (Adapter.disjoint_definedTypes_iff
        (isNamed_of_mem_tablesOf named known)
        (isNamed_of_mem_tablesOf named known') apart).mpr
      ⟨clear _ known _ known', clear _ known' _ known⟩

/-- A mirror type, and another with the name of its archived form. -/
def namedAsArchived : Module :=
  (Decl.readFiles
    [("f.mirror", "struct [[archive_with(from(::r::A))]] A \x7b\x7d; " ++
      "struct [[archive_with(from(::r::B))]] ArchivedA \x7b\x7d;")]).1

section
open Support.Standard

/-- Both are compiled, and one struct is defined twice. -/
theorem definedTypes_namedAsArchived :
    (compileModule namedAsArchived).map (fun c => (c.qualifiedName, c.failed)) =
      [(Text.ofString "A", false), (Text.ofString "ArchivedA", false)] ∧
    (tablesOf namedAsArchived).map (fun t => definedTypes t.header) =
      [[Text.ofString "A", Text.ofString "ArchivedA",
          Text.ofString "AResolver"],
        [Text.ofString "ArchivedA", Text.ofString "ArchivedArchivedA",
          Text.ofString "ArchivedAResolver"]] ∧
    ¬((tablesOf namedAsArchived).flatMap
        fun t => definedTypes t.header).Nodup := by
  decide +kernel

end

end MirrorAdapter
