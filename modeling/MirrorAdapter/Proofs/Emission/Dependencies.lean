import MirrorAdapter.Emission
import MirrorAdapter.Proofs.Headers.Paths
import MirrorAdapter.Support.Standard

/-!
# What generated headers depend on

A dependency file names the mirror file of its header and nothing else. Two
modules that read one mirror file alike make the same headers from a
declaration of it, but for one block of lines: which umbrellas the header of
the archived form includes is looked up among all declarations of the module,
wherever they stand.
-/
namespace MirrorAdapter

open Decl (File Mirror Module)
open Mapping (Table)

/-! ## The lines that depend on other files -/

theorem Path.IsPlace.oneLine {p : Path} (h : Path.IsPlace p) :
    Text.OneLine p := by
  intro inside
  rcases h.bytes _ inside with name | dot | slash
  · exact absurd name (by decide)
  · exact absurd dot (by decide)
  · exact absurd slash (by decide)

namespace Adapter

theorem shown_includeLine (path : Text) :
    (includeLine path).shown =
      Text.ofString "#include \"" ++ path ++ Text.ofString "\"" := by
  simp [includeLine, Line.of, Line.shown, Text.ofString]

/-- Paths of one line can be read off the lines that include them. -/
theorem renderAll_includeLine_inj {paths paths' : List Text}
    (h : ∀ p ∈ paths, Text.OneLine p) (h' : ∀ p ∈ paths', Text.OneLine p)
    (same : Line.renderAll (paths.map includeLine) =
        Line.renderAll (paths'.map includeLine)) :
    paths = paths' := by
  have plain {paths : List Text} (h : ∀ p ∈ paths, Text.OneLine p) :
      ∀ l ∈ paths.map includeLine, Text.OneLine l.text := by
    rintro _ found
    obtain ⟨p, inside, rfl⟩ := List.mem_map.mp found
    have wrap :
        Text.OneLine (Text.ofString "#include \"") ∧
        Text.OneLine (Text.ofString "\"") := by
      decide
    exact Text.oneLine_append.mpr
      ⟨Text.oneLine_append.mpr ⟨wrap.1, h p inside⟩, wrap.2⟩
  have lines := congrArg Text.lines same
  rw [Line.lines_renderAll (plain h),
    Line.lines_renderAll (plain h'), List.map_map, List.map_map]
    at lines
  refine List.map_injective_iff.mpr (fun p q shown => ?_) lines
  simpa [shown_includeLine] using shown

/-- The umbrellas that a module with names has to include have paths of one
line. -/
theorem oneLine_converterHeaders {m : Module} (named : m.Named) {t : Table}
    {path : Text} (h : path ∈ converterHeaders t (Index.ofModule m)) :
    Text.OneLine path := by
  obtain ⟨-, e, entry, rfl⟩ := mem_converterHeaders h
  rw [Index.entries_ofModule] at entry
  obtain ⟨d, first, rfl⟩ := List.mem_map.mp entry
  have declared : d ∈ declarations m := Repetition.map_firsts_subset _ _ first
  have umbrella : IsEnding (Text.ofString "hpp") :=
    ⟨Path.bytes_of_all (by decide), by decide⟩
  exact (isPlace_headerPath (named d declared).2 (named d declared).1
      umbrella).oneLine

end Adapter

open Adapter (Artifact Index Line)

/-! ## One declaration in two modules -/

/-- Of the headers of a table only the first depends on an index; the umbrella
includes the others by their paths. -/
theorem exists_headers_render [Support] (t : Table) :
    ∃ others,
      ∀ index, (render t index).1 = Adapter.reprHeader t index :: others := by
  refine ⟨Adapter.archiveHeaders t ++
    (Adapter.deserializeHeader t).toOption.toList ++
    [Adapter.umbrellaHeader t (includedHeaders t {})], fun index => ?_⟩
  have umbrella : Adapter.umbrellaHeader t (includedHeaders t index) =
      Adapter.umbrellaHeader t (includedHeaders t {}) := by
    simp [Adapter.umbrellaHeader, Adapter.umbrellaLines, includedHeaders,
      Adapter.reprHeader]
  rw [headers_render, umbrella]
  rfl

/-- What did not fail has the headers of a table that the rest of the module
has no part in. -/
theorem adapters_of_getElem? [Support] {m : Module}
    {i : Nat} {f : File} {d : Mirror} {c : Compilation}
    (declared : (declarations m)[i]? = some (f, d))
    (result : (compileModule m)[i]? = some c) (succeeded : c.failed = false) :
    c.sourceFile = f.path ∧ ∃ t, (tableOf f d).1 = some t ∧
      c.adapters = some ⟨t, (render t (Index.ofModule m)).1⟩ := by
  rw [compileModule_eq, List.getElem?_map, Option.map_eq_some_iff] at result
  obtain ⟨pair, paired, rfl⟩ := result
  have own : pair.1 = (f, d) := by
    have place := congrArg (·[i]?) (namesakes_map_fst m)
    simpa [paired, declared] using place
  obtain ⟨first, second⟩ := pair
  obtain rfl : first = (f, d) := own
  obtain rfl : second = none := by simpa using isNone_of_not_failed succeeded
  rw [resultFor, compileMirror] at succeeded ⊢
  split at succeeded <;> rename_i found
  · cases succeeded
  · exact ⟨rfl, _, by rw [found], rfl⟩

/-- Every header of the result gets a dependency file which names the given
source and nothing else. -/
def Compilation.DependsOn (c : Compilation) (source : Path) : Prop :=
  ∀ (fs : FileSystem) (o : Emission.Options), o.writeDepfiles = true →
    ∀ a ∈ c.headers, Emission.headerOutputs fs o c.sourceFile a =
        [⟨o.outDir, a.path, a.content⟩,
          Output.depfile fs ⟨o.outDir, a.path, a.content⟩ [source]]

theorem Compilation.dependsOn_sourceFile (c : Compilation) :
    c.DependsOn c.sourceFile := by
  intro fs o wanted a _
  rw [Emission.headerOutputs, if_pos wanted]

/-- Modules that read one mirror file alike make the same headers from a
declaration of it, all with that file as their only dependency, but for the
header of the archived form: there each module includes the umbrellas that it
finds for the converters, and the header is the same iff these are. -/
theorem headers_of_shared_file [Support] (files files' : List (Text × Text))
    {path text : Text} {d : Mirror} {i j : Nat} {c c' : Compilation}
    (declared : (declarations (Decl.readFiles files).1)[i]? =
        some ((Decl.readText path text).file, d))
    (declared' : (declarations (Decl.readFiles files').1)[j]? =
        some ((Decl.readText path text).file, d))
    (result : (compileModule (Decl.readFiles files).1)[i]? = some c)
    (result' : (compileModule (Decl.readFiles files').1)[j]? = some c')
    (succeeded : c.failed = false) (succeeded' : c'.failed = false) :
    c.DependsOn path ∧ c'.DependsOn path ∧
    ∃ (t : Table) (repr repr' : Artifact)
          (others : List Artifact) (front back : List Line),
      c.table = some t ∧ c'.table = some t ∧ c.headers = repr :: others ∧
      c'.headers = repr' :: others ∧
        let umbrellas :=
          Adapter.converterHeaders t (Index.ofModule (Decl.readFiles files).1)
        let umbrellas' :=
          Adapter.converterHeaders t (Index.ofModule (Decl.readFiles files').1)
        repr =
          ⟨Adapter.reprPath t.header, Line.renderAll
              (front ++ umbrellas.map Adapter.includeLine ++ back)⟩ ∧
        repr' =
          ⟨Adapter.reprPath t.header, Line.renderAll
              (front ++ umbrellas'.map Adapter.includeLine ++ back)⟩ ∧
        (repr = repr' ↔ umbrellas = umbrellas') := by
  obtain ⟨source, t, table, adapters⟩ :=
    adapters_of_getElem? declared result succeeded
  obtain ⟨source', t', table', adapters'⟩ :=
    adapters_of_getElem? declared' result' succeeded'
  obtain rfl : t = t' := Option.some.inj (table.symm.trans table')
  obtain ⟨front, back, split⟩ := Adapter.reprLines_split t
  obtain ⟨others, headers⟩ := exists_headers_render t
  have from_path (c : Compilation)
      (source : c.sourceFile = (Decl.readText path text).file.path) :
      c.DependsOn path := by
    have own := c.dependsOn_sourceFile
    rwa [source] at own
  refine ⟨from_path c source, from_path c' source', t,
    Adapter.reprHeader t (Index.ofModule (Decl.readFiles files).1),
    Adapter.reprHeader t (Index.ofModule (Decl.readFiles files').1), others,
    front, back, ?_⟩
  refine ⟨by simp [Compilation.table, adapters],
    by simp [Compilation.table, adapters'],
    by simp [Compilation.headers, adapters, headers],
    by simp [Compilation.headers, adapters', headers],
    by rw [Adapter.reprHeader, split], by rw [Adapter.reprHeader, split], ?_⟩
  simp only [Adapter.reprHeader, split, true_and, Artifact.mk.injEq]
  refine ⟨fun same => ?_, fun same => by rw [same]⟩
  simp only [Line.renderAll_append,
    List.append_cancel_left_eq, List.append_cancel_right_eq]
    at same
  exact Adapter.renderAll_includeLine_inj
    (fun _ => Adapter.oneLine_converterHeaders (named_readFiles files))
    (fun _ => Adapter.oneLine_converterHeaders (named_readFiles files')) same

/-- A mirror type with a field of a type that its file does not declare. -/
def needingFile : Text × Text :=
  ("f.mirror", "struct [[archive_with(from(::r::A))]] A \x7b B b; \x7d;")

/-- A file that declares that type. -/
def neededFile : Text × Text :=
  ("g.mirror", "struct [[archive_with(from(::r::B))]] B \x7b\x7d;")

theorem declarations_readFiles_cons (file : Text × Text)
    (files : List (Text × Text)) :
    declarations (Decl.readFiles (file :: files)).1 =
      (Decl.readText file.1 file.2).file.mirrors.map
        ((Decl.readText file.1 file.2).file, ·) ++
        declarations (Decl.readFiles files).1 :=
  rfl

/-- The declaration is the same whatever other files are read behind its
own. -/
theorem exists_declared_needingFile :
    ∃ d, ∀ files, (declarations (Decl.readFiles (needingFile :: files)).1)[0]? =
          some ((Decl.readText needingFile.1 needingFile.2).file, d) := by
  have there :
      ((Decl.readText needingFile.1
            needingFile.2).file.mirrors[0]?).isSome := by
    decide +kernel
  obtain ⟨d, declared⟩ := Option.isSome_iff_exists.mp there
  refine ⟨d, fun files => ?_⟩
  rw [declarations_readFiles_cons, List.getElem?_append_left,
    List.getElem?_map, declared]
  · rfl
  · rw [List.length_map]
    exact (List.getElem?_eq_some_iff.mp declared).1

section
open Support.Standard

theorem headers_of_shared_file_needed :
    ∃ d c c',
      (declarations (Decl.readFiles [needingFile]).1)[0]? =
        some ((Decl.readText needingFile.1 needingFile.2).file, d) ∧
      (declarations (Decl.readFiles [needingFile, neededFile]).1)[0]? =
        some ((Decl.readText needingFile.1 needingFile.2).file, d) ∧
      (compileModule (Decl.readFiles [needingFile]).1)[0]? = some c ∧
      (compileModule (Decl.readFiles [needingFile, neededFile]).1)[0]? =
        some c' ∧
      c.failed = false ∧ c'.failed = false ∧ c.DependsOn needingFile.1 ∧
      c'.DependsOn needingFile.1 ∧ c.headers.tail = c'.headers.tail := by
  obtain ⟨d, declared⟩ := exists_declared_needingFile
  have results :
      (∃ c ∈ (compileModule (Decl.readFiles [needingFile]).1)[0]?,
          c.failed = false) ∧
      ∃ c ∈ (compileModule (Decl.readFiles [needingFile, neededFile]).1)[0]?,
        c.failed = false := by
    decide +kernel
  obtain ⟨⟨c, result, succeeded⟩, c', result', succeeded'⟩ := results
  obtain ⟨depends, depends', t, repr, repr', others, front, back, -, -,
        headers, headers', -⟩ :=
    headers_of_shared_file _ _ (declared []) (declared [neededFile]) result
      result' succeeded succeeded'
  exact ⟨d, c, c', declared _, declared _, result, result', succeeded,
    succeeded', depends, depends',
    by rw [headers, headers', List.tail_cons, List.tail_cons]⟩

/-- The umbrella of a type that another file declares is included, and no
dependency file tells of that file. -/
theorem neededFile_changes_header :
    ∃ d c c' a a',
      (declarations (Decl.readFiles [needingFile]).1)[0]? =
        some ((Decl.readText needingFile.1 needingFile.2).file, d) ∧
      (declarations (Decl.readFiles [needingFile, neededFile]).1)[0]? =
        some ((Decl.readText needingFile.1 needingFile.2).file, d) ∧
      (compileModule (Decl.readFiles [needingFile]).1)[0]? = some c ∧
      (compileModule (Decl.readFiles [needingFile, neededFile]).1)[0]? =
        some c' ∧ c.failed = false ∧ c'.failed = false ∧
      c.DependsOn needingFile.1 ∧ c'.DependsOn needingFile.1 ∧ a ∈ c.headers ∧
      a' ∈ c'.headers ∧ a.path = a'.path ∧ a.content ≠ a'.content := by
  obtain ⟨d, declared⟩ := exists_declared_needingFile
  have computed :
      ∃ c ∈ (compileModule (Decl.readFiles [needingFile]).1)[0]?,
        ∃ c' ∈ (compileModule (Decl.readFiles [needingFile, neededFile]).1)[0]?,
          (c.failed = false ∧ c'.failed = false ∧
            c.sourceFile = needingFile.1 ∧ c'.sourceFile = needingFile.1) ∧
          ∃ a ∈ c.headers,
            ∃ a' ∈ c'.headers, a.path = a'.path ∧ a.content ≠ a'.content := by
    decide +kernel
  obtain ⟨c, result, c', result', ⟨succeeded, succeeded', source, source'⟩,
        a, header, a', header', changed⟩ :=
    computed
  exact ⟨d, c, c', a, a', declared _, declared _, result, result',
    succeeded, succeeded', source ▸ c.dependsOn_sourceFile,
    source' ▸ c'.dependsOn_sourceFile, header, header', changed⟩

end

end MirrorAdapter
