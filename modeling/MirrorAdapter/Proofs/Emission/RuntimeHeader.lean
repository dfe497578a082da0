import MirrorAdapter.Proofs.Emission
import MirrorAdapter.Support.Standard

/-!
# The header that generated code relies on

It is written first, into the directory of the mirror types that are in no
namespace. Its name is also that of the header that includes all others of a
mirror type `archwith_runtime`, and of no other header, so it is replaced
exactly when a mirror type of that name compiles.
-/
namespace MirrorAdapter

open Decl (File Mirror Module)
open Adapter (Artifact headerPath endings)
open Mapping (Table)

/-- The mirror type whose header for all others belongs in the place of the
header that generated code relies on. -/
def runtimeMirror : Text := "archwith_runtime"

/-- What every generated header begins with. -/
def generatedMark : Text := "// Generated by archwithc from "

theorem begins_of_mem_headersOf [Support] {m : Module} {a : Artifact}
    (h : a ∈ headersOf m) : generatedMark <+: a.content := by
  obtain ⟨parts, ⟨header, body, content⟩, -⟩ := guarded_of_mem_headersOf h
  rw [content, generatedMark]
  simp only [Adapter.prologue, List.cons_append, Adapter.Line.renderAll,
    List.flatMap_cons, Adapter.Line.render, Adapter.Line.of]
  simp [Text.ofString]

/-- The header in the place of the one that generated code relies on belongs
to one mirror type. -/
theorem runtimeName_mem_iff [Support] {m : Module}
    (named : m.Named) {c : Compilation} (h : c ∈ compileModule m) :
    (∃ a ∈ c.headers, a.path = Adapter.runtimeName) ↔
      c.failed = false ∧ c.qualifiedName = runtimeMirror := by
  have name : Name.IsName runtimeMirror :=
    ⟨by decide, List.all_eq_true.mp (by decide)⟩
  have umbrella : Adapter.IsEnding (Text.ofString "hpp") :=
    ⟨Path.bytes_of_all (by decide), by decide⟩
  have path : Adapter.runtimeName = headerPath [] runtimeMirror "hpp" := rfl
  obtain none_made | ⟨d, declared, t, lies⟩ := renders_of_mem_compileModule h
  · simp [Compilation.headers_eq_nil none_made, Compilation.failed, none_made]
  have paths :
      (∃ a ∈ c.headers, a.path = Adapter.runtimeName) ↔ Adapter.runtimeName ∈
          (endings t).map (headerPath d.2.scope d.2.name) := by
    rw [← lies.paths, List.mem_map]
  rw [paths, List.mem_map, lies.failed, lies.qualifiedName]
  constructor
  · rintro ⟨ending, known, same⟩
    obtain ⟨scope, own⟩ :=
      Adapter.names_of_headerPath (named d declared).2 (named d declared).1
        (Adapter.isEnding_of_mem_endings known) (by simp) name umbrella
        (same.trans path)
    exact ⟨rfl, by rw [Mirror.qualifiedName, scope, own]; rfl⟩
  · rintro ⟨-, same⟩
    have plain : NoColons d.2.scope d.2.name :=
      List.forall_mem_cons.mpr ⟨(named d declared).1.not_mem (by decide),
        fun c inside => ((named d declared).2 c inside).not_mem (by decide)⟩
    have alone : NoColons [] runtimeMirror := by decide
    have outside : qualifiedName [] runtimeMirror = runtimeMirror := rfl
    obtain ⟨scope, own⟩ :=
      qualifiedName_inj plain alone (same.trans outside.symm)
    exact ⟨Text.ofString "hpp", by simp [endings], by rw [scope, own, path]⟩

namespace Emission

/-- The outputs at the path of the header that generated code relies on are
headers. -/
theorem exists_of_mem_outputsOf [Support] {m : Module} (named : m.Named)
    {fs : FileSystem} {o : Options} (nonempty : o.outDir ≠ [])
    {out : Output} (h : out ∈ outputsOf fs o (compileModule m))
    (path : out.path = Path.join o.outDir Adapter.runtimeName) :
    ∃ a ∈ headersOf m, a.path = Adapter.runtimeName := by
  obtain ⟨a, header, p, inside, place, same⟩ :=
    exists_place_of_mem_outputsOf named nonempty h
  obtain ⟨trunk, -, joined⟩ := Path.exists_join_eq nonempty
  have own : p = Adapter.runtimeName := by
    rw [path, joined p place.isAbsolute,
      joined _ isPlace_runtimeName.isAbsolute]
      at same
    simpa using same
  refine ⟨a, header, ?_⟩
  -- A dependency file ends differently.
  have last : Adapter.runtimeName ≠ a.path ++ Text.ofString ".d" := by
    intro same
    have back : (Text.ofString ".d").getLast? = some ('d' : Byte) := by decide
    have ends := congrArg List.getLast? same
    rw [List.getLast?_append, back, Option.some_or] at ends
    exact absurd ends (by decide)
  unfold placesOf at inside
  split at inside
  · rcases List.mem_pair.mp inside with same | same
    · rw [← same, own]
    · exact absurd (own ▸ same) last
  · rw [← List.mem_singleton.mp inside, own]

/-- The header that generated code relies on has a text. -/
def RuntimeIs (fs : FileSystem) (o : Options) (text : Text) : Prop :=
  ∃ f, fs.status (Path.join o.outDir Adapter.runtimeName) = .ok (.file f) ∧
    f.content = text

/-- Only a mirror type of its name puts another text in the place of the
header that generated code relies on. -/
theorem Done.runtimeIs_iff [Support] {fs : FileSystem} {o : Options}
    {m : Module} {result : Result} {s : Summary} {text : Text} (named : m.Named)
    (wet : o.policy.dryRun = false) (done : Done fs o m result s text) :
    RuntimeIs result.fileSystem o text ↔ ∀ c ∈ compileModule m,
        c.failed = false → c.qualifiedName = runtimeMirror →
        ∃ a ∈ c.headers, a.path = Adapter.runtimeName ∧ a.content = text := by
  have there {a : Artifact} (header : a ∈ headersOf m)
      (path : a.path = Adapter.runtimeName) :
      result.fileSystem.status (Path.join o.outDir Adapter.runtimeName) =
        .ok (.file ⟨FileMode.permissions o.policy.fileMode, a.content⟩) := by
    rw [← path]
    exact done.status named wet (header_mem_outputsOf fs o header)
  constructor
  · rintro ⟨f, found, rfl⟩ c hc succeeded same
    obtain ⟨a, inside, path⟩ :=
      (runtimeName_mem_iff named hc).mpr ⟨succeeded, same⟩
    have replaced := there (List.mem_flatMap.mpr ⟨c, hc, inside⟩) path
    rw [found] at replaced
    cases replaced
    exact ⟨a, inside, path, rfl⟩
  · intro alone
    by_cases replaced : ∃ a ∈ headersOf m, a.path = Adapter.runtimeName
    · obtain ⟨a, header, path⟩ := replaced
      obtain ⟨c, hc, inside⟩ := List.mem_flatMap.mp header
      obtain ⟨succeeded, same⟩ :=
        (runtimeName_mem_iff named hc).mp ⟨a, inside, path⟩
      obtain ⟨b, inside', path', content⟩ := alone c hc succeeded same
      exact ⟨_, there (List.mem_flatMap.mpr ⟨c, hc, inside'⟩) path', content⟩
    · exact ⟨_, done.status_runtime named wet fun out header path =>
        replaced (exists_of_mem_outputsOf named done.nonempty header path), rfl⟩

/-- After a successful emission that is no dry run, the header that generated
code relies on has the text that was given exactly when no mirror type of its
name compiles that has another text in its place. For a text that does not
begin with the notice of all generated headers, this is so exactly when no
mirror type of that name compiles. -/
theorem runtime_stays_iff [Support] {files : List (Text × Text)}
    {fs : FileSystem} {text : Text} {o : Options} {s : Summary}
    (wet : o.policy.dryRun = false)
    (success :
      (run fs (some text) o (Decl.readFiles files).1).summary = .ok s) :
    let m := (Decl.readFiles files).1
    let after := (run fs (some text) o m).fileSystem
    (RuntimeIs after o text ↔ ∀ c ∈ compileModule m,
        c.failed = false → c.qualifiedName = runtimeMirror →
        ∃ a ∈ c.headers, a.path = Adapter.runtimeName ∧ a.content = text) ∧
    (¬ generatedMark <+: text →
      (RuntimeIs after o text ↔ ∀ c ∈ compileModule m,
          c.failed = false → c.qualifiedName ≠ runtimeMirror)) := by
  intro m after
  have whole :=
    (done_of_run success).runtimeIs_iff (named_readFiles files) wet
  refine ⟨whole, fun own => whole.trans ⟨fun stays c hc succeeded same => ?_,
        fun free c hc succeeded same => ?_⟩⟩
  · obtain ⟨a, inside, -, rfl⟩ := stays c hc succeeded same
    exact own (begins_of_mem_headersOf (List.mem_flatMap.mpr ⟨c, hc, inside⟩))
  · exact absurd same (free c hc succeeded)

/-- A header for generated code to rely on. -/
def plainRuntime : Text := "#pragma once"

/-- All choices left open. -/
def intoOut : Options := { outDir := "out" }

section
open Support.Standard

theorem runtime_stays_oneFails :
    intoOut.policy.dryRun = false ∧ ¬ generatedMark <+: plainRuntime ∧
    (∃ s,
        (run {} (some plainRuntime) intoOut
            (Decl.readFiles oneFails).1).summary = .ok s) ∧
    RuntimeIs (run {} (some plainRuntime) intoOut
          (Decl.readFiles oneFails).1).fileSystem intoOut
        plainRuntime := by
  have found :
      ∃ s ∈ (run {} (some plainRuntime) intoOut
                (Decl.readFiles oneFails).1).summary.toOption,
        s.emitted = 1 := by
    decide +kernel
  obtain ⟨s, success, -⟩ := found
  replace success := eq_ok_of_mem_toOption success
  have own : ¬ generatedMark <+: plainRuntime := by decide
  refine ⟨rfl, own, ⟨s, success⟩,
    ((runtime_stays_iff rfl success).2 own).mpr ?_⟩
  decide +kernel

end

/-- A mirror type with the name of the header that generated code relies
on. -/
def namedAsRuntime : List (Text × Text) :=
  [("in.mirror",
      "struct [[archive_with(from(::r::A))]] archwith_runtime \x7b\x7d;")]

section
open Support.Standard

theorem runtime_replaced :
    ∃ s,
      (run {} (some plainRuntime) intoOut
          (Decl.readFiles namedAsRuntime).1).summary = .ok s ∧
      ¬ RuntimeIs (run {} (some plainRuntime) intoOut
            (Decl.readFiles namedAsRuntime).1).fileSystem
        intoOut plainRuntime := by
  have found :
      ∃ s ∈ (run {} (some plainRuntime) intoOut
                (Decl.readFiles namedAsRuntime).1).summary.toOption,
        s.emitted = 1 := by
    decide +kernel
  have replaced :
      ∃ a ∈ headersOf (Decl.readFiles namedAsRuntime).1,
        a.content ≠ plainRuntime ∧ .file ⟨FileMode.readOnly, a.content⟩ ∈
          ((run {} (some plainRuntime) intoOut
                (Decl.readFiles namedAsRuntime).1).fileSystem.status
              "out/archwith_runtime.hpp").toOption := by
    decide +kernel
  obtain ⟨s, success, -⟩ := found
  obtain ⟨a, -, other, there⟩ := replaced
  refine ⟨s, eq_ok_of_mem_toOption success, ?_⟩
  rintro ⟨f, found, same⟩
  have path :
      Path.join intoOut.outDir Adapter.runtimeName =
        Text.ofString "out/archwith_runtime.hpp" := by
    decide
  rw [path, eq_ok_of_mem_toOption there] at found
  cases found
  exact other same

end

end Emission
end MirrorAdapter
