import MirrorAdapter.Emission
import MirrorAdapter.Proofs.FileSystem.Parents
import MirrorAdapter.Proofs.Headers.Paths
import MirrorAdapter.Proofs.Writing
import MirrorAdapter.Support.Standard

/-!
# Emitted adapters

All that an emission writes has a place of its own below the output directory,
but for the header that generated code relies on, which is written first. So
after a successful emission each header is where it belongs and its dependency
file beside it, and no other file has changed.
-/
namespace MirrorAdapter

open Decl (Module)
open Adapter (Artifact)
open FileSystem (Spares routeOf passedBy)

/-! ## Places below one directory -/

/-- Files at different places below a directory are not in each other's
way. -/
theorem spares_join {base : Path} (nonempty : base ≠ [])
    (plain : (0 : Byte) ∉ base) (working : Route) {p q : Path}
    (hp : Path.IsPlace p) (hq : Path.IsPlace q) (other : p ≠ q) :
    Spares working (Path.join base p) (Path.join base q) := by
  obtain ⟨route, front, reached⟩ :=
    FileSystem.exists_routeOf_join nonempty plain working
  refine ⟨?_, ?_⟩
  · rw [(reached p hp).1, (reached q hq).1]
    exact fun same =>
      other (Path.parts_injective (List.append_cancel_left same)).symm
  · rw [(reached p hp).2, (reached q hq).2, (reached q hq).1]
    intro passed
    rcases List.mem_append.mp passed with shared | below
    · exact List.mem_append_left _ shared
    · obtain ⟨parts, short, same⟩ :=
        FileSystem.mem_passed_down (fun part inside => hp.goesDown inside) below
      rw [← List.append_cancel_left same] at short
      exact absurd (hq.eq_of_goesThrough hp short).symm other

/-! ## A directory that cannot be written to -/

theorem dropEnd_eq {drop : Byte → Bool} {b : Byte}
    (stop : drop b = false) (front back : Text) :
    ∃ rest, ((front ++ b :: back).reverse.dropWhile drop).reverse =
        front ++ b :: rest := by
  refine ⟨(back.reverse.dropWhile drop).reverse, ?_⟩
  rw [List.reverse_append, List.reverse_cons, List.append_assoc,
    List.dropWhile_append]
  split
  · rename_i nothing
    rw [List.isEmpty_iff.mp nothing, List.singleton_append,
      List.dropWhile_cons_of_neg (by simp [stop])]
    simp
  · simp

/-- The parent of a path keeps a NUL byte before the last slash. -/
theorem exists_parent_eq (a b c : Text) :
    ∃ rest, Path.parent (a ++ (0 : Byte) :: (b ++ ('/' : Byte) :: c)) =
        a ++ (0 : Byte) :: rest := by
  have regroup (tail : Text) :
      (a ++ (0 : Byte) :: b) ++ ('/' : Byte) :: tail =
        a ++ (0 : Byte) :: (b ++ ('/' : Byte) :: tail) := by
    simp
  obtain ⟨tail, directory⟩ :
      ∃ tail, Path.dropFileName (a ++ (0 : Byte) :: (b ++ ('/' : Byte) :: c)) =
          a ++ (0 : Byte) :: (b ++ ('/' : Byte) :: tail) := by
    simp only [← regroup]
    exact dropEnd_eq (by decide) _ _
  obtain ⟨rest, short⟩ :
      ∃ rest,
        Path.dropSlashes (a ++ (0 : Byte) :: (b ++ ('/' : Byte) :: tail)) =
          a ++ (0 : Byte) :: rest :=
    dropEnd_eq (by decide) _ _
  have named :
      Path.isNameless (a ++ (0 : Byte) :: (b ++ ('/' : Byte) :: c)) =
        false := by
    simp +decide [Path.isNameless]
  refine ⟨rest, ?_⟩
  rw [Path.parent, named, if_neg (by simp)]
  dsimp only
  rw [directory, short, if_neg (by simp)]

namespace Output

variable {policy : Policy} {fs : FileSystem}

/-- Below a directory with a NUL byte in its path at most one output can be
written, for it takes the place of the directory. -/
theorem not_succeeds_of_nul (wet : policy.dryRun = false) {base : Path}
    (nul : (0 : Byte) ∈ base) {o o' : Output} {outputs : List Output}
    {p q : Path} (hp : Path.IsPlace p) (hq : Path.IsPlace q)
    (path : o.path = Path.join base p) (path' : o'.path = Path.join base q) :
    ¬Succeeds policy fs (o :: o' :: outputs) := by
  intro success
  obtain ⟨after, written, later, -, -⟩ := succeeds_cons success
  obtain ⟨last, written', -⟩ := succeeds_cons later
  obtain ⟨trunk, inside, joined⟩ :=
    Path.exists_join_eq (List.ne_nil_of_mem nul)
  obtain ⟨a, b, rfl, first⟩ :
      ∃ a b, trunk = a ++ (0 : Byte) :: b ∧ (0 : Byte) ∉ a :=
    List.eq_append_cons_of_mem (inside.mpr nul)
  rw [joined p hp.isAbsolute, List.append_assoc, List.cons_append] at path
  rw [joined q hq.isAbsolute, List.append_assoc, List.cons_append] at path'
  obtain ⟨rest, parent⟩ := exists_parent_eq a b q
  rw [← path'] at parent
  have same : Text.beforeNul (Path.parent o'.path) = o.path.beforeNul := by
    rw [parent, path, Text.beforeNul_append_of_not_mem first,
      Text.beforeNul_append_of_not_mem first]
    rfl
  have there := (puts_write wet written).status
  rw [← FileSystem.status_congr after same] at there
  exact write_of_file_parent wet (by simp [parent]) there (by rw [written'])

end Output
namespace Emission

/-! ## Places of outputs -/

/-- The places of what is written for a header, below the output directory. -/
def placesOf (o : Options) (a : Artifact) : List Path :=
  if o.writeDepfiles then [a.path, a.path ++ Text.ofString ".d"] else [a.path]

/-- The outputs for all headers of results. -/
def outputsOf (fs : FileSystem) (o : Options)
    (compilations : List Compilation) : List Output :=
  compilations.flatMap
    fun c => c.headers.flatMap (headerOutputs fs o c.sourceFile)

/-- Every header is among the outputs. -/
theorem header_mem_outputsOf [Support] (fs : FileSystem)
    (o : Options) {m : Module} {a : Artifact} (h : a ∈ headersOf m) :
    (⟨o.outDir, a.path, a.content⟩ : Output) ∈
      outputsOf fs o (compileModule m) := by
  obtain ⟨c, result, inside⟩ := List.mem_flatMap.mp h
  refine List.mem_flatMap.mpr ⟨c, result, List.mem_flatMap.mpr ⟨a, inside, ?_⟩⟩
  unfold headerOutputs
  dsimp only
  split <;> simp

section
variable {m : Module} (named : m.Named) (o : Options)
include named

theorem isPlace_of_mem_placesOf [Support] {a : Artifact} (h : a ∈ headersOf m)
    {p : Path} (inside : p ∈ placesOf o a) : Path.IsPlace p := by
  have place := isPlace_of_mem_headersOf named h
  unfold placesOf at inside
  split at inside
  · rcases List.mem_pair.mp inside with rfl | rfl
    · exact place
    · exact place.depfile
  · rw [List.mem_singleton.mp inside]
    exact place

/-- Paths of headers and of dependency files end differently. -/
theorem ne_depfile [Support] {a b : Artifact} (h : a ∈ headersOf m) :
    a.path ≠ b.path ++ Text.ofString ".d" := by
  intro same
  have last := getLast?_path named h
  rw [same, List.getLast?_append] at last
  exact absurd (Option.some.inj last) (by decide)

theorem nodup_places [Support] :
    ((headersOf m).flatMap (placesOf o)).Nodup := by
  rw [List.nodup_flatMap]
  constructor
  · intro a _
    unfold placesOf
    split <;> simp [Text.ofString]
  · have paths := nodup_paths named
    rw [List.Nodup, List.pairwise_map] at paths
    refine paths.imp_of_mem fun {a b} ha hb other => ?_
    have apart := ne_depfile named (b := b) ha
    have apart' := ne_depfile named (b := a) hb
    unfold Function.onFun placesOf
    split <;> simp [other.symm, apart.symm, apart']

theorem map_path_outputsOf [Support]
    (fs : FileSystem) (nonempty : o.outDir ≠ []) :
    (outputsOf fs o (compileModule m)).map Output.path =
      ((headersOf m).flatMap (placesOf o)).map (Path.join o.outDir) := by
  obtain ⟨trunk, -, joined⟩ := Path.exists_join_eq nonempty
  have one (source : Path) {a : Artifact} (h : a ∈ headersOf m) :
      (headerOutputs fs o source a).map Output.path =
        (placesOf o a).map (Path.join o.outDir) := by
    have place := isPlace_of_mem_headersOf named h
    have beside :
        (Output.depfile fs ⟨o.outDir, a.path, a.content⟩ [source]).path =
          Path.join o.outDir (a.path ++ Text.ofString ".d") := by
      rw [joined _ place.depfile.isAbsolute]
      show Path.join [] (Path.join o.outDir a.path ++ Text.ofString ".d") = _
      rw [joined _ place.isAbsolute]
      simp [Path.join]
    unfold headerOutputs placesOf
    dsimp only
    split
    · rw [List.map_cons, List.map_singleton, beside]
      rfl
    · rfl
  rw [outputsOf, headersOf, List.map_flatMap, List.flatMap_assoc,
    List.map_flatMap]
  refine List.flatMap_congr fun c result => ?_
  rw [List.map_flatMap, List.map_flatMap]
  exact List.flatMap_congr
    fun a inside => one c.sourceFile (List.mem_flatMap.mpr ⟨c, result, inside⟩)

/-- Every output has its place for a header. -/
theorem exists_place_of_mem_outputsOf [Support] {o : Options}
    {fs : FileSystem} (nonempty : o.outDir ≠ []) {out : Output}
    (h : out ∈ outputsOf fs o (compileModule m)) :
    ∃ a ∈ headersOf m,
      ∃ p ∈ placesOf o a, Path.IsPlace p ∧ Path.join o.outDir p = out.path := by
  have path := List.mem_map_of_mem (f := Output.path) h
  rw [map_path_outputsOf named o fs nonempty, List.mem_map] at path
  obtain ⟨p, places, same⟩ := path
  obtain ⟨a, ha, hp⟩ := List.mem_flatMap.mp places
  exact ⟨a, ha, p, hp, isPlace_of_mem_placesOf named o ha hp, same⟩

theorem pairwise_spares [Support] (fs : FileSystem) (nonempty : o.outDir ≠ [])
    (plain : (0 : Byte) ∉ o.outDir) (working : Route) :
    (outputsOf fs o (compileModule m)).Pairwise
      fun out out' => Spares working out.path out'.path := by
  rw [← List.pairwise_map (f := Output.path) (R := Spares working),
    map_path_outputsOf named o fs nonempty, List.pairwise_map]
  refine (nodup_places named o).imp_of_mem fun hp hq other => ?_
  obtain ⟨a, ha, hp⟩ := List.mem_flatMap.mp hp
  obtain ⟨b, hb, hq⟩ := List.mem_flatMap.mp hq
  exact spares_join nonempty plain working
    (isPlace_of_mem_placesOf named o ha hp)
    (isPlace_of_mem_placesOf named o hb hq) other

end

/-! ## A whole emission -/

/-- The output for the header that generated code relies on. -/
def runtimeOutput (o : Options) (runtime : Text) : Output :=
  ⟨o.outDir, Adapter.runtimeName, runtime⟩

theorem isPlace_runtimeName : Path.IsPlace Adapter.runtimeName :=
  ⟨[], Adapter.runtimeName, by decide, by simp,
    Path.bytes_of_all (by decide), by decide, by decide⟩

/-- What a successful emission has done. -/
structure Done [Support] (fs : FileSystem) (o : Options) (m : Module)
    (result : Result) (s : Summary) (runtime : Text) : Prop where
  nonempty : o.outDir ≠ []
  succeeds : Output.Succeeds o.policy fs
      (runtimeOutput o runtime :: outputsOf fs o (compileModule m))
  fileSystem : result.fileSystem =
      (Output.writeAll o.policy fs (runtimeOutput o runtime ::
          outputsOf fs o (compileModule m))).fileSystem
  emitted : s.emitted = (compileModule m).countP fun c => !c.failed
  failed : s.failed = (compileModule m).countP fun c => c.failed
  files : s.files = result.recorded.length

theorem done_of_run [Support] {fs : FileSystem} {text : Text} {o : Options}
    {m : Module} {s : Summary} (h : (run fs (some text) o m).summary = .ok s) :
    Done fs o m (run fs (some text) o m) s text := by
  unfold run at h ⊢
  split at h
  · cases h
  rename_i nonempty
  rw [if_neg nonempty]
  dsimp only at h ⊢
  split at h
  · cases h
  rename_i success
  obtain rfl := Except.ok.inj h
  exact
    { nonempty := by simpa using nonempty
      succeeds := success
      fileSystem := rfl
      emitted := rfl
      failed := rfl
      files := (Output.length_recorded success).symm }

theorem exists_done [Support] {fs : FileSystem}
    {runtime : Option Text} {o : Options} {m : Module} {s : Summary}
    (h : (run fs runtime o m).summary = .ok s) :
    ∃ text, Done fs o m (run fs runtime o m) s text := by
  cases runtime with
  | none =>
    unfold run at h
    split at h <;> cases h
  | some text => exact ⟨text, done_of_run h⟩

/-- The paths that an emission writes: that of the header which generated code
relies on, and those of the headers, with their dependency files, of the
results that did not fail. -/
def writtenPaths [Support] (o : Options) (m : Module) : List Path :=
  (Adapter.runtimeName ::
    (((compileModule m).filter fun c => !c.failed).flatMap
        Compilation.headers).flatMap (placesOf o)).map
    (Path.join o.outDir)

theorem headers_not_failed (compilations : List Compilation) :
    (compilations.filter fun c => !c.failed).flatMap Compilation.headers =
      compilations.flatMap Compilation.headers := by
  induction compilations with
  | nil => rfl
  | cons c compilations ih =>
    rw [List.filter_cons, List.flatMap_cons]
    split
    · rw [List.flatMap_cons, ih]
    · rename_i failed
      have none_made : c.adapters = none := by
        simpa [Compilation.failed] using failed
      rw [ih, Compilation.headers_eq_nil none_made, List.nil_append]

section
variable [Support] {fs : FileSystem} {o : Options} {m : Module}
    {result : Result} {s : Summary} {runtime : Text}
variable (named : m.Named) (wet : o.policy.dryRun = false)
    (done : Done fs o m result s runtime)
include named wet done

omit named in
theorem Done.working : result.fileSystem.working = fs.working := by
  rw [done.fileSystem, Output.working_writeAll wet done.succeeds]

/-- With a NUL byte in the path of the output directory there are no
headers. -/
theorem Done.outputsOf_eq_nil (nul : (0 : Byte) ∈ o.outDir) :
    outputsOf fs o (compileModule m) = [] := by
  cases outputs : outputsOf fs o (compileModule m) with
  | nil => rfl
  | cons out others =>
    have paths := map_path_outputsOf named o fs done.nonempty
    rw [outputs, List.map_cons, eq_comm, List.map_eq_cons_iff] at paths
    obtain ⟨p, ps, places, path, -⟩ := paths
    obtain ⟨a, ha, hp⟩ :=
      List.mem_flatMap.mp
        (show p ∈ (headersOf m).flatMap (placesOf o) by simp [places])
    have success := done.succeeds
    rw [outputs] at success
    exact absurd success
      (Output.not_succeeds_of_nul wet nul isPlace_runtimeName
        (isPlace_of_mem_placesOf named o ha hp) rfl path.symm)

theorem Done.nul_not_mem {out : Output}
    (h : out ∈ outputsOf fs o (compileModule m)) : (0 : Byte) ∉ o.outDir := by
  intro nul
  rw [done.outputsOf_eq_nil named wet nul] at h
  cases h

/-- Every output for a header is where it belongs. -/
theorem Done.status {out : Output}
    (h : out ∈ outputsOf fs o (compileModule m)) :
    result.fileSystem.status out.path = .ok (.file (out.stored o.policy)) := by
  have plain := done.nul_not_mem named wet h
  obtain ⟨after, written, later, final, -⟩ :=
    Output.succeeds_cons done.succeeds
  rw [done.fileSystem, final]
  refine Output.status_of_mem wet later ?_ h
  exact pairwise_spares named o fs done.nonempty plain after.working

/-- The header that generated code relies on is where it was put unless
another one has its path. -/
theorem Done.status_runtime
    (free : ∀ out ∈ outputsOf fs o (compileModule m),
        out.path ≠ Path.join o.outDir Adapter.runtimeName) :
    result.fileSystem.status (Path.join o.outDir Adapter.runtimeName) =
      .ok (.file ((runtimeOutput o runtime).stored o.policy)) := by
  obtain ⟨after, written, later, final, -⟩ :=
    Output.succeeds_cons done.succeeds
  have put := Output.puts_write wet written
  rw [done.fileSystem, final]
  refine Output.status_writeAll wet later (fun out header => ?_) put.status
  obtain ⟨a, -, p, -, place, same⟩ :=
    exists_place_of_mem_outputsOf named done.nonempty header
  show Spares after.working (Path.join o.outDir Adapter.runtimeName) out.path
  rw [← same]
  refine spares_join done.nonempty (done.nul_not_mem named wet header)
    _ isPlace_runtimeName place ?_
  rintro rfl
  exact free out header same.symm

/-- The header that generated code relies on, or one that has taken its place,
is where it belongs. -/
theorem Done.exists_locate_runtime :
    ∃ route,
      result.fileSystem.locate (Path.join o.outDir Adapter.runtimeName) =
        .ok route := by
  suffices there :
      ∃ f, result.fileSystem.status (Path.join o.outDir Adapter.runtimeName) =
          .ok (.file f) by
    obtain ⟨f, there⟩ := there
    obtain ⟨route, located, -⟩ := (FileSystem.status_eq_ok_iff _).mp there
    exact ⟨route, located⟩
  by_cases replaced : ∃ out ∈ outputsOf fs o (compileModule m),
      out.path = Path.join o.outDir Adapter.runtimeName
  · obtain ⟨out, header, path⟩ := replaced
    exact ⟨_, path ▸ done.status named wet header⟩
  · exact ⟨_, done.status_runtime named wet
        fun out header same => replaced ⟨out, header, same⟩⟩

/-- All outputs can be found. -/
theorem Done.locate {out : Output}
    (h : out ∈ runtimeOutput o runtime :: outputsOf fs o (compileModule m)) :
    result.fileSystem.locate out.path = .ok (routeOf fs.working out.path) := by
  obtain ⟨route, located⟩ :
      ∃ route, result.fileSystem.locate out.path = .ok route := by
    rcases List.mem_cons.mp h with rfl | header
    · exact done.exists_locate_runtime named wet
    · obtain ⟨route, located, -⟩ :=
        (FileSystem.status_eq_ok_iff _).mp (done.status named wet header)
      exact ⟨route, located⟩
  rw [located, ← done.working wet]
  obtain ⟨-, -, rfl⟩ := (FileSystem.locate_eq_ok_iff _).mp located
  rfl

omit wet in
theorem Done.map_path :
    (runtimeOutput o runtime :: outputsOf fs o (compileModule m)).map
      Output.path = writtenPaths o m := by
  rw [writtenPaths, headers_not_failed, List.map_cons, List.map_cons,
    map_path_outputsOf named o fs done.nonempty]
  rfl

/-- Files that no output is at are as before. -/
theorem Done.file_iff {route : Route}
    (other : ∀ p ∈ writtenPaths o m, result.fileSystem.locate p ≠ .ok route)
    (f : StoredFile) :
    result.fileSystem.get? route = some (.file f) ↔
      fs.get? route = some (.file f) := by
  rw [done.fileSystem]
  refine Output.file_iff_writeAll wet done.succeeds
    (fun out inside same => ?_) f
  refine other out.path ?_ ?_
  · rw [← done.map_path named]
    exact List.mem_map_of_mem inside
  · rw [same]
    exact done.locate named wet inside

end

/-- After a successful emission that is no dry run, each header of a result is
below the output directory, with the permissions asked for, and its dependency
file, if one is asked for, beside it. Results that failed have none. All other
files are as before, save the header that generated code relies on. Each
declaration counts as emitted or as failed, and each recorded output as a
file. -/
theorem emitted_of_run [Support] {files : List (Text × Text)}
    {fs : FileSystem} {runtime : Option Text} {o : Options}
    {s : Summary} (wet : o.policy.dryRun = false)
    (success : (run fs runtime o (Decl.readFiles files).1).summary = .ok s) :
    let m := (Decl.readFiles files).1
    let result := run fs runtime o m
    (∀ c ∈ compileModule m, ∀ a ∈ c.headers,
          result.fileSystem.status (Path.join o.outDir a.path) =
            .ok (.file ⟨FileMode.permissions o.policy.fileMode, a.content⟩) ∧
          (o.writeDepfiles = true →
            result.fileSystem.status (Path.join o.outDir a.path ++ ".d") =
              .ok (.file ⟨FileMode.permissions o.policy.fileMode, Depfile.render
                    (Output.resolved fs ⟨o.outDir, a.path, a.content⟩)
                    [fs.resolved c.sourceFile]⟩))) ∧
    (∀ c ∈ compileModule m, c.failed = true → c.headers = []) ∧
    (∀ route, (∀ p ∈ writtenPaths o m, result.fileSystem.locate p ≠ .ok route) →
        ∀ f, result.fileSystem.get? route = some (.file f) ↔
          fs.get? route = some (.file f)) ∧
    s.emitted + s.failed = (declarations m).length ∧
    s.files = result.recorded.length := by
  intro m result
  have named : m.Named := named_readFiles files
  obtain ⟨text, done⟩ := exists_done success
  have outputs {c : Compilation} (hc : c ∈ compileModule m)
      {a : Artifact} (ha : a ∈ c.headers) {out : Output}
      (h : out ∈ headerOutputs fs o c.sourceFile a) :
      out ∈ outputsOf fs o (compileModule m) :=
    List.mem_flatMap.mpr ⟨c, hc, List.mem_flatMap.mpr ⟨a, ha, h⟩⟩
  refine ⟨fun c hc a ha => ⟨?_, fun depfiles => ?_⟩, fun c _ failed => ?_,
    fun route other => ?_, ?_, done.files⟩
  · have header :
        (⟨o.outDir, a.path, a.content⟩ : Output) ∈
          headerOutputs fs o c.sourceFile a := by
      unfold headerOutputs
      dsimp only
      split <;> simp
    exact done.status named wet (outputs hc ha header)
  · have beside :=
      done.status named wet (outputs hc ha
        (show Output.depfile fs ⟨o.outDir, a.path, a.content⟩
            [c.sourceFile] ∈ _ by
          simp [headerOutputs, depfiles]))
    simpa [Output.depfile, Output.path, Output.stored, Path.join] using beside
  · exact Compilation.headers_eq_nil
      (by simpa [Compilation.failed] using failed)
  · exact done.file_iff named wet other
  · have others :
        (fun c : Compilation => decide ¬c.failed = true) =
          fun c => !c.failed := by
      funext c
      simp
    rw [done.emitted, done.failed, ← length_compileModule, Nat.add_comm,
      List.length_eq_countP_add_countP fun c : Compilation => c.failed, others]

/-- A mirror type, and one that names no remote type. -/
def oneFails : List (Text × Text) :=
  [("f.mirror",
      "struct [[archive_with(from(::r::A))]] A \x7b\x7d; struct B \x7b\x7d;")]

/-- An output directory with an older header in it, and a file beside it. -/
def olderHeader : FileSystem where
  working := [Text.ofString "w"]
  entries :=
    [ ([Text.ofString "w"], .directory)
    , ([Text.ofString "w", Text.ofString "notes"],
        .file ⟨FileMode.writable, "kept"⟩)
    , ([Text.ofString "w", Text.ofString "out"], .directory)
    , ([Text.ofString "w", Text.ofString "out", Text.ofString "A.hpp"],
        .file ⟨FileMode.readOnly, "old"⟩) ]

/-- Both headers are asked for with their dependency files. -/
def withDepfiles : Options := { outDir := "out", writeDepfiles := true }

section
open Support.Standard

theorem emitted_oneFails :
    withDepfiles.policy.dryRun = false ∧ ∃ s : Summary,
      (run olderHeader (some []) withDepfiles
          (Decl.readFiles oneFails).1).summary =
        .ok s ∧ s.emitted = 1 ∧ s.failed = 1 ∧
      ∃ c ∈ compileModule (Decl.readFiles oneFails).1,
        ∃ a ∈ c.headers, a.path = Text.ofString "A.hpp" ∧
          (run olderHeader (some []) withDepfiles
              (Decl.readFiles oneFails).1).fileSystem.status "out/A.hpp" =
            .ok (.file ⟨FileMode.readOnly, a.content⟩) ∧
          (run olderHeader (some []) withDepfiles
              (Decl.readFiles oneFails).1).fileSystem.get?
            [Text.ofString "w", Text.ofString "notes"] =
            some (.file ⟨FileMode.writable, "kept"⟩) := by
  have found :
      ∃ s ∈ (run olderHeader (some []) withDepfiles
                (Decl.readFiles oneFails).1).summary.toOption,
        s.emitted = 1 ∧ s.failed = 1 := by
    decide +kernel
  have header :
      ∃ c ∈ compileModule (Decl.readFiles oneFails).1,
        ∃ a ∈ c.headers, a.path = Text.ofString "A.hpp" := by
    decide +kernel
  have elsewhere :
      ∀ p ∈ writtenPaths withDepfiles (Decl.readFiles oneFails).1,
        ((run olderHeader (some []) withDepfiles
              (Decl.readFiles oneFails).1).fileSystem.locate p).toOption ≠
          some [Text.ofString "w", Text.ofString "notes"] := by
    decide +kernel
  obtain ⟨s, success, emitted, failed⟩ := found
  obtain ⟨c, hc, a, ha, path⟩ := header
  replace success := eq_ok_of_mem_toOption success
  obtain ⟨put, -, frame, -⟩ := emitted_of_run rfl success
  have there := (put c hc a ha).1
  rw [path] at there
  have kept :=
    (frame [Text.ofString "w", Text.ofString "notes"]
        (fun p written located => elsewhere p written (by rw [located]; rfl))
        ⟨FileMode.writable, "kept"⟩).mpr (by decide)
  exact ⟨rfl, s, success, emitted, failed, c, hc, a, ha, path, there, kept⟩

end

end Emission
end MirrorAdapter
