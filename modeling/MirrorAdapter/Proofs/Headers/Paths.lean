import MirrorAdapter.Proofs.Compilations
import MirrorAdapter.Proofs.Headers.Getters
import MirrorAdapter.Proofs.Paths
import MirrorAdapter.Proofs.Siblings
import MirrorAdapter.Proofs.Slugs
import MirrorAdapter.Proofs.Vocabulary

/-!
# Paths of generated headers

A header lies in the directory of its namespace, and its file is called after
the mirror type, with an ending for its kind. The endings of one mirror type
differ because its slugs do, and names of mirror types end at the first dot.
So all headers of a module have places of their own, and none is in the way of
another.
-/
namespace MirrorAdapter

open Decl (File Mirror Module)
open Mapping (Header Table)
open Name (IsName isNameByte)

namespace Adapter

/-! ## Endings -/

/-- What can follow the name of a mirror type and a dot in the name of a
header. -/
structure IsEnding (ending : Text) : Prop where
  bytes : ∀ b ∈ ending, isNameByte b = true ∨ b = '.'
  last : ending.getLast? = some ('p' : Byte)

def archiveEnding (remote : RemoteName) : Text :=
  "archive." ++ remote.slug ++ ".hpp"

/-- What follows the name of the mirror type in the paths of its headers. -/
def endings (t : Table) : List Text :=
  Text.ofString "repr.hpp" :: (remoteNames t.header).map archiveEnding ++
    (if t.fullyReconstructable then [Text.ofString "deserialize.hpp"]
      else []) ++
    [Text.ofString "hpp"]

theorem slugs_remoteNames (h : Header) :
    (remoteNames h).map (·.slug) =
      Name.distinctSlugs (h.remoteTypes.map (·.spelling)) := by
  rw [remoteNames, ← List.map_uncurry_zip_eq_zipWith, List.map_map]
  exact List.map_snd_zip (length_distinctSlugsFrom [] _).le

theorem isEnding_archive {remote : RemoteName} (h : IsName remote.slug) :
    IsEnding (archiveEnding remote) := by
  have front :
      ∀ b ∈ Text.ofString "archive.", isNameByte b = true ∨ b = '.' :=
    Path.bytes_of_all (by decide)
  have back : ∀ b ∈ Text.ofString ".hpp", isNameByte b = true ∨ b = '.' :=
    Path.bytes_of_all (by decide)
  refine ⟨?_, ?_⟩
  · rw [archiveEnding, List.forall_mem_append, List.forall_mem_append]
    exact ⟨⟨front, fun b found => .inl (h.bytes b found)⟩, back⟩
  · rw [archiveEnding, List.getLast?_append]
    rfl

theorem isEnding_of_mem_endings {t : Table} {ending : Text}
    (h : ending ∈ endings t) : IsEnding ending := by
  simp only [endings, List.mem_append, List.mem_cons,
    List.mem_map, List.not_mem_nil, or_false]
    at h
  rcases h with ((rfl | ⟨remote, known, rfl⟩) | derived) | rfl
  · exact ⟨Path.bytes_of_all (by decide), by decide⟩
  · have slug : remote.slug ∈ (remoteNames t.header).map (·.slug) :=
      List.mem_map_of_mem known
    rw [slugs_remoteNames] at slug
    exact isEnding_archive (Name.isName_of_mem_distinctSlugs slug)
  · obtain rfl : ending = Text.ofString "deserialize.hpp" := by
      split at derived
      · exact List.mem_singleton.mp derived
      · cases derived
    exact ⟨Path.bytes_of_all (by decide), by decide⟩
  · exact ⟨Path.bytes_of_all (by decide), by decide⟩

theorem nodup_archiveEndings (h : Header) :
    ((remoteNames h).map archiveEnding).Nodup := by
  have slugs : ((remoteNames h).map (·.slug)).Nodup := by
    rw [slugs_remoteNames]
    exact Name.nodup_distinctSlugs _
  have wrap :
      Function.Injective fun slug : Text =>
          Text.ofString "archive." ++ slug ++ Text.ofString ".hpp" := by
    intro a b same
    simpa using same
  have endings := slugs.map wrap
  rwa [List.map_map] at endings

/-- The kinds of headers differ in the first byte of their endings, and those
of remote types in the slugs. -/
theorem nodup_endings (t : Table) : (endings t).Nodup := by
  have archive (remote : RemoteName) (ending : Text)
      (other : ending.head? ≠ some ('a' : Byte)) :
      archiveEnding remote ≠ ending := by
    rintro rfl
    exact other rfl
  have repr :=
    fun remote => archive remote (Text.ofString "repr.hpp") (by decide)
  have derived :=
    fun remote => archive remote (Text.ofString "deserialize.hpp") (by decide)
  have umbrella :=
    fun remote => archive remote (Text.ofString "hpp") (by decide)
  unfold endings
  cases t.fullyReconstructable <;>
    simp +decide
    [List.nodup_append, nodup_archiveEndings, repr, derived, umbrella]

theorem paths_render [Support] (t : Table) (index : Index) :
    (render t index).1.map (·.path) =
      (endings t).map (headerPath t.header.scope t.header.name) := by
  rw [headers_render]
  unfold includedHeaders endings archiveHeaders deserializeHeader
  cases t.fullyReconstructable <;>
    simp [Function.comp_def, reprHeader, reprPath, archiveHeader,
      archiveEnding, umbrellaHeader, umbrellaPath, Except.toOption]

/-! ## Paths with an ending -/

section
variable {scope scope' : List Text} {name name' ending ending' : Text}

theorem parts_directory (names : ∀ c ∈ scope, IsName c) (p : Path) :
    Path.parts (directory scope ++ p) = scope ++ Path.parts p := by
  induction scope with
  | nil => rfl
  | cons c scope ih =>
    rw [List.forall_mem_cons] at names
    have split :
        directory (c :: scope) ++ p =
          c ++ ('/' : Byte) :: (directory scope ++ p) := by
      simp [directory, Text.terminated, Text.ofString]
    rw [split, Path.parts_append_slash,
      Path.parts_of_not_mem (names.1.not_mem (by decide)), ih names.2,
      List.cons_append]
    rfl

theorem isFileName_of_isEnding (named : IsName name) (h : IsEnding ending) :
    Path.IsFileName (name ++ "." ++ ending) where
  bytes := by
    rw [List.forall_mem_append, List.forall_mem_append]
    exact ⟨⟨fun b found => .inl (named.bytes b found), by simp [Text.ofString]⟩,
      h.bytes⟩
  dot := by simp [Text.ofString]
  notDots := by
    -- A name does not begin with a dot.
    obtain ⟨b, rest, rfl⟩ := List.exists_cons_of_ne_nil named.nonempty
    have letter : b ≠ '.' :=
      fun dot => named.not_mem (b := '.') (by decide) (dot ▸ .head _)
    simp [Path.isDots, Text.ofString, letter]

theorem parts_headerPath (names : ∀ c ∈ scope, IsName c)
    (named : IsName name) (h : IsEnding ending) :
    Path.parts (headerPath scope name ending) =
      scope ++ [name ++ "." ++ ending] := by
  have noSlash : ('/' : Byte) ∉ name ++ "." ++ ending := by
    intro slash
    rcases (isFileName_of_isEnding named h).bytes _ slash with inName | dot
    · exact absurd inName (by decide)
    · exact absurd dot (by decide)
  have shape :
      headerPath scope name ending =
        directory scope ++ (name ++ "." ++ ending) := by
    simp [headerPath]
  rw [shape, parts_directory names, Path.parts_of_not_mem noSlash]

theorem isPlace_headerPath (names : ∀ c ∈ scope, IsName c)
    (named : IsName name) (h : IsEnding ending) :
    Path.IsPlace (headerPath scope name ending) :=
  ⟨scope, _, parts_headerPath names named h, names,
    isFileName_of_isEnding named h⟩

/-- The path of a header tells for which mirror type it is. -/
theorem names_of_headerPath (names : ∀ c ∈ scope, IsName c)
    (named : IsName name) (h : IsEnding ending)
    (names' : ∀ c ∈ scope', IsName c)
    (named' : IsName name') (h' : IsEnding ending')
    (same : headerPath scope name ending = headerPath scope' name' ending') :
    scope = scope' ∧ name = name' := by
  have parts := congrArg Path.parts same
  rw [parts_headerPath names named h, parts_headerPath names' named' h']
    at parts
  obtain ⟨scopes, files⟩ := List.append_inj' parts rfl
  have file :
      name ++ ('.' : Byte) :: ending = name' ++ ('.' : Byte) :: ending' := by
    simpa [Text.ofString] using files
  have front := congrArg (List.takeWhile (· != ('.' : Byte))) file
  rw [takeWhile_component (named.not_mem (by decide)),
    takeWhile_component (named'.not_mem (by decide))]
    at front
  exact ⟨scopes, front⟩

end

end Adapter

/-! ## All headers of a module -/

open Adapter (Artifact Index endings headerPath)

theorem Compilation.Renders.paths [Support] {c : Compilation}
    {index : Index} {declaration : File × Mirror} {t : Table}
    (h : c.Renders index declaration t) :
    c.headers.map (·.path) =
      (endings t).map (headerPath declaration.2.scope declaration.2.name) := by
  rw [h.headers, Adapter.paths_render, h.scope, h.name]

theorem Compilation.headers_eq_nil {c : Compilation}
    (h : c.adapters = none) : c.headers = [] := by
  rw [Compilation.headers, h]

section
variable {m : Module} (named : m.Named)
include named

/-- A header has the path that the name of a declaration makes with an
ending. -/
theorem exists_headerPath [Support] {a : Artifact} (h : a ∈ headersOf m) :
    ∃ scope name ending, a.path = headerPath scope name ending ∧
      (∀ c ∈ scope, IsName c) ∧ IsName name ∧ Adapter.IsEnding ending := by
  obtain ⟨c, result, inside⟩ := List.mem_flatMap.mp h
  obtain none_made | ⟨d, declared, t, lies⟩ :=
    renders_of_mem_compileModule result
  · rw [Compilation.headers_eq_nil none_made] at inside
    cases inside
  · have path := List.mem_map_of_mem (f := Artifact.path) inside
    rw [lies.paths] at path
    obtain ⟨ending, known, same⟩ := List.mem_map.mp path
    exact ⟨_, _, ending, same.symm, (named d declared).2,
      (named d declared).1, Adapter.isEnding_of_mem_endings known⟩

theorem isPlace_of_mem_headersOf [Support] {a : Artifact}
    (h : a ∈ headersOf m) : Path.IsPlace a.path := by
  obtain ⟨scope, name, ending, path, names, isName, isEnding⟩ :=
    exists_headerPath named h
  rw [path]
  exact Adapter.isPlace_headerPath names isName isEnding

theorem getLast?_path [Support] {a : Artifact} (h : a ∈ headersOf m) :
    a.path.getLast? = some ('p' : Byte) := by
  obtain ⟨scope, name, ending, path, -, -, isEnding⟩ :=
    exists_headerPath named h
  rw [path, headerPath, List.getLast?_append, isEnding.last]
  rfl

/-- Headers of different results have different paths, since the results have
different names. -/
theorem disjoint_paths [Support] {c c' : Compilation}
    (h : c ∈ compileModule m) (h' : c' ∈ compileModule m)
    (apart : c.failed = false → c'.failed = false →
      c.qualifiedName ≠ c'.qualifiedName) :
    List.Disjoint (c.headers.map (·.path)) (c'.headers.map (·.path)) := by
  obtain none_made | ⟨d, declared, t, lies⟩ := renders_of_mem_compileModule h
  · simp [Compilation.headers_eq_nil none_made]
  obtain none_made | ⟨d', declared', t', lies'⟩ :=
    renders_of_mem_compileModule h'
  · simp [Compilation.headers_eq_nil none_made]
  intro path inside inside'
  rw [lies.paths] at inside
  rw [lies'.paths] at inside'
  obtain ⟨ending, known, rfl⟩ := List.mem_map.mp inside
  obtain ⟨ending', known', same⟩ := List.mem_map.mp inside'
  obtain ⟨scopes, names⟩ :=
    Adapter.names_of_headerPath (named d' declared').2 (named d' declared').1
      (Adapter.isEnding_of_mem_endings known') (named d declared).2
      (named d declared).1 (Adapter.isEnding_of_mem_endings known) same
  refine apart lies.failed lies'.failed ?_
  rw [lies.qualifiedName, lies'.qualifiedName, Mirror.qualifiedName,
    Mirror.qualifiedName, scopes, names]

theorem nodup_paths [Support] : ((headersOf m).map (·.path)).Nodup := by
  rw [headersOf, List.map_flatMap, List.nodup_flatMap]
  constructor
  · intro c result
    obtain none_made | ⟨d, declared, t, lies⟩ :=
      renders_of_mem_compileModule result
    · simp [Compilation.headers_eq_nil none_made]
    · rw [lies.paths]
      exact (Adapter.nodup_endings t).map
        fun a b same => Adapter.headerPath_inj.mp same
  · have names := nodup_names_succeeded m
    rw [List.Nodup, List.pairwise_map, List.pairwise_filter] at names
    refine names.imp_of_mem fun result result' apart => ?_
    exact disjoint_paths named result result' fun succeeded succeeded' =>
      apart (by simp [succeeded]) (by simp [succeeded'])

end

/-- All headers of what texts declare have different paths; these lead down
from the output directory by parts that are neither empty nor `.` or `..`, and
no header is in the place of a directory of another. -/
theorem places_of_headers [Support] (files : List (Text × Text)) :
    let headers := headersOf (Decl.readFiles files).1
    (headers.map (·.path)).Nodup ∧
    (∀ a ∈ headers,
        ∀ part ∈ Path.parts a.path, part ≠ [] ∧ Path.isDots part = false) ∧
    ∀ a ∈ headers, ∀ b ∈ headers, ¬a.path ++ Text.ofString "/" <+: b.path := by
  have named := named_readFiles files
  refine ⟨nodup_paths named, fun a header part inside => ?_,
    fun a header b header' below => ?_⟩
  · exact (isPlace_of_mem_headersOf named header).goesDown inside
  · obtain ⟨rest, whole⟩ := below
    have parts : Path.parts b.path = Path.parts a.path ++ Path.parts rest := by
      rw [← whole, ← Path.parts_append_slash]
      simp [Text.ofString]
    have same :=
      (isPlace_of_mem_headersOf named header).eq_of_goesThrough
        (isPlace_of_mem_headersOf named header') ⟨_, parts.symm⟩
    rw [same, List.self_eq_append_right] at parts
    exact Path.parts_ne_nil rest parts

end MirrorAdapter
