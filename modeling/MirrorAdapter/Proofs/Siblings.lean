import MirrorAdapter.Decl.Parser
import MirrorAdapter.Proofs.Headers.Includes
import MirrorAdapter.Support.Standard

/-!
# Declarations side by side

A declaration is compiled with its whole file and an index of all declarations
at hand. Of the file only the path and the include lines count, and of the
other declarations only which qualified names there are: neither their
contents nor their order, place or failures make a difference.
-/
namespace MirrorAdapter

open Decl (File Mirror Module)

/-! ## What an index answers -/

namespace Adapter

theorem reprHeader_congr [Support] {index index' : Index}
    (h : ∀ name, index.find? name = index'.find? name) (t : Mapping.Table) :
    reprHeader t index = reprHeader t index' := by
  have headers : converterHeaders t index = converterHeaders t index' := by
    simp only [converterHeaders, Index.lookup_congr h]
  rw [reprHeader, reprHeader, reprLines, reprLines, headers]

end Adapter

open Adapter (Index TypeName)

/-- All declarations of a module have names without colons in their
components. -/
def Decl.Module.NoColons (m : Module) : Prop :=
  ∀ declaration ∈ declarations m,
    MirrorAdapter.NoColons declaration.2.scope declaration.2.name

instance (m : Module) : Decidable m.NoColons :=
  inferInstanceAs (Decidable (∀ declaration ∈ declarations m, _))

/-- The qualified names of the declarations of a module. -/
def declaredNames (m : Module) : List Text :=
  (declarations m).map (·.2.qualifiedName)

/-- Modules with the same names have indexes with the same answers. -/
theorem find?_ofModule_congr {m m' : Module} (h : m.NoColons) (h' : m'.NoColons)
    (names : ∀ name, name ∈ declaredNames m ↔ name ∈ declaredNames m')
    (name : Text) :
    (Index.ofModule m).find? name = (Index.ofModule m').find? name := by
  have declared (m : Module) :
      ((declarations m).map TypeName.ofDeclaration).map TypeName.qualifiedName =
        declaredNames m := by
    rw [List.map_map]
    rfl
  have plain {m : Module} (h : m.NoColons) :
      ∀ type ∈ (declarations m).map TypeName.ofDeclaration, type.Plain :=
    List.forall_mem_map.mpr fun d known => h d known
  rw [Index.ofModule_eq, Index.ofModule_eq]
  refine Index.find?_ofTypes_congr (plain h) (plain h') ?_ name
  simpa only [declared] using names

/-! ## What a result depends on -/

theorem tableOf_congr {f f' : File} (path : f.path = f'.path)
    (includes : f.includes.map (·.target) = f'.includes.map (·.target))
    (d : Mirror) : tableOf f d = tableOf f' d := by
  have header (type : Directive.TypeDirectives) :
      Mapping.Header.ofMirror f d type = .ofMirror f' d type := by
    rw [Mapping.Header.ofMirror, Mapping.Header.ofMirror, path, includes]
  simp only [tableOf, Mapping.Spec.build, header]

theorem compileMirror_congr [Support] {f f' : File}
    {index index' : Index} (path : f.path = f'.path)
    (includes : f.includes.map (·.target) = f'.includes.map (·.target))
    (answers : ∀ name, index.find? name = index'.find? name) (d : Mirror) :
    compileMirror f d index = compileMirror f' d index' := by
  simp only [compileMirror, tableOf_congr path includes, render,
    Adapter.reprHeader_congr answers, path]

/-- The first declaration of a name is compiled. -/
theorem compileModule_getElem? [Support] {m : Module} {i : Nat} {f : File}
    {d : Mirror} (declared : (declarations m)[i]? = some (f, d))
    (first :
      d.qualifiedName ∉ ((declarations m).take i).map (·.2.qualifiedName)) :
    (compileModule m)[i]? = some (compileMirror f d (Index.ofModule m)) := by
  have unpaired :
      ((declarations m).take i).find? (·.2.qualifiedName == d.qualifiedName) =
        none :=
    (Repetition.find?_eq_none_iff (fun d : File × Mirror => d.2.qualifiedName)
        _ _).mpr first
  rw [compileModule_eq, List.getElem?_map, namesakes,
    Repetition.withFirst_getElem?, declared]
  simp only [Option.map_some, unpaired]
  rfl

/-- Modules that declare the same names yield the same result for a
declaration that is the first of its name in both, whatever the other
declarations are. -/
theorem siblings_independent [Support] {m m' : Module}
    (plain : m.NoColons) (plain' : m'.NoColons)
    (names : ∀ name, name ∈ declaredNames m ↔ name ∈ declaredNames m')
    {i j : Nat} {f f' : File} {d : Mirror}
    (declared : (declarations m)[i]? = some (f, d))
    (declared' : (declarations m')[j]? = some (f', d)) (path : f.path = f'.path)
    (includes : f.includes.map (·.target) = f'.includes.map (·.target))
    (first :
      d.qualifiedName ∉ ((declarations m).take i).map (·.2.qualifiedName))
    (first' :
      d.qualifiedName ∉ ((declarations m').take j).map (·.2.qualifiedName)) :
    ∃ c, (compileModule m)[i]? = some c ∧ (compileModule m')[j]? = some c := by
  refine ⟨_, compileModule_getElem? declared first, ?_⟩
  rw [compileModule_getElem? declared' first']
  have answers := find?_ofModule_congr plain plain' names
  exact congrArg some (compileMirror_congr path includes answers d).symm

/-- Two mirror types, one with the other as converter. -/
def twoSound : Module :=
  (Decl.readFiles
      [("f.mirror",
        "struct [[archive_with(from(::r::A))]] A \x7b B b; \x7d; " ++
        "struct [[archive_with(from(::r::B))]] B \x7b int x; \x7d;")]).1

/-- The same names, where the other type fails and comes first in a file of
its own. -/
def otherFails : Module :=
  (Decl.readFiles [("g.mirror", "struct B \x7b \x7d;"), ("f.mirror",
        "struct [[archive_with(from(::r::A))]] A \x7b B b; \x7d;")]).1

section
open Support.Standard

theorem siblings_independent_otherFails :
    (compileModule twoSound).map (·.failed) = [false, false] ∧
    (compileModule otherFails).map (·.failed) = [true, false] ∧
    ∃ c, (compileModule twoSound)[0]? = some c ∧
      (compileModule otherFails)[1]? = some c := by
  -- All that has to be computed, at once, for then the texts are read only
  -- once.
  have facts :
      ((compileModule twoSound).map (·.failed) = [false, false] ∧
        (compileModule otherFails).map (·.failed) = [true, false]) ∧
      (twoSound.NoColons ∧ otherFails.NoColons) ∧
      (declaredNames twoSound = [Text.ofString "A", Text.ofString "B"] ∧
        declaredNames otherFails = [Text.ofString "B", Text.ofString "A"]) ∧
      ((declarations twoSound)[0]?).isSome ∧
      (declarations twoSound)[0]?.map
        (fun d => (d.1.path, d.1.includes.map (·.target), d.2)) =
        (declarations otherFails)[1]?.map
          (fun d => (d.1.path, d.1.includes.map (·.target), d.2)) ∧
      ∀ d ∈ (declarations otherFails)[1]?, d.2.qualifiedName ∉
          ((declarations otherFails).take 1).map (·.2.qualifiedName) := by
    decide +kernel
  obtain ⟨⟨sound, fails⟩, ⟨plain, plain'⟩,
        ⟨names, names'⟩, there, same, first'⟩ :=
    facts
  obtain ⟨⟨f, d⟩, declared⟩ := Option.isSome_iff_exists.mp there
  rw [declared, Option.map_some, eq_comm, Option.map_eq_some_iff] at same
  obtain ⟨⟨f', d'⟩, declared', same⟩ := same
  obtain ⟨path, includes, rfl⟩ :
      f'.path = f.path ∧
      f'.includes.map (·.target) = f.includes.map (·.target) ∧ d' = d := by
    simpa using same
  refine ⟨sound, fails, ?_⟩
  refine siblings_independent plain plain' (fun name => ?_) declared
    declared' path.symm includes.symm (by simp) (first' _ declared')
  rw [names, names', List.mem_pair, List.mem_pair, or_comm]

end

end MirrorAdapter
