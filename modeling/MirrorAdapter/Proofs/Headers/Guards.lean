import MirrorAdapter.Compile
import MirrorAdapter.Decl.Parser
import MirrorAdapter.Support.Standard

/-!
# Guards of generated headers

Every generated header, of whatever kind, stands between `#ifndef` and
`#endif` of one macro, and that macro is a function of the header's path
alone: its letters in upper case, its digits, and an underscore for any other
byte. Slashes, dots and underscores all become the same, and so do the two
cases of a letter. Two headers of a module therefore share a macro exactly
when their paths agree in this form.
-/
namespace MirrorAdapter

namespace Name

/-- A text as it stands in a macro. -/
def macroForm (s : Text) : Text := s.map guardByte

theorem macroForm_append (a b : Text) :
    macroForm (a ++ b) = macroForm a ++ macroForm b :=
  List.map_append

theorem guardByte_ne_blank (b : Byte) : guardByte b ≠ ' ' := by
  -- There are only 256 bytes.
  have every : ∀ n < 256, guardByte (UInt8.ofNat n) ≠ ' ' := by decide +kernel
  simpa using every b.toNat b.toNat_lt

/-- A macro is one word. -/
theorem blank_not_mem_guard (parts : List Text) :
    (' ' : Byte) ∉ guard parts := by
  intro blank
  obtain ⟨b, -, same⟩ := List.mem_map.mp blank
  exact guardByte_ne_blank b same

end Name

namespace Adapter

open Mapping (Header Table)
open Name (macroForm guardParts macroForm_append)

/-- The word at the end of a text, behind its last blank. -/
def lastWord (s : Text) : Text :=
  (s.reverse.takeWhile fun b : Byte => b != ' ').reverse

theorem lastWord_append (front word : Text) (h : (' ' : Byte) ∉ word) :
    lastWord (front ++ (' ' : Byte) :: word) = word := by
  -- Seen from its end the text starts with the word, and no blank of it stops
  -- the search.
  have all : ∀ b ∈ word.reverse, (b != (' ' : Byte)) = true := by
    intro b found
    have : b ≠ ' ' := fun blank => h (blank ▸ List.mem_reverse.mp found)
    simpa using this
  simp [lastWord, List.takeWhile_append_of_pos all]

/-- The macro that the last line of a header names. -/
def Artifact.guard (a : Artifact) : Text := lastWord a.content.dropLast

/-- The header stands between the lines that open and close the given
guard. -/
def Artifact.WrappedIn [Support] (a : Artifact) (guard : Text) : Prop :=
  ∃ (h : Header) (body : List Line),
    a.content = Line.renderAll (prologue h guard ++ body ++ epilogue guard)

theorem renderAll_epilogue (guard : Text) :
    Line.renderAll (epilogue guard) =
      (Text.ofString "\n#endif  //" ++ (' ' : Byte) :: guard) ++
        [('\n' : Byte)] := by
  simp [epilogue, Line.renderAll, Line.render, Line.blank, Line.of,
    Text.ofString]

theorem Artifact.WrappedIn.guard_eq [Support] {a : Artifact}
    {guard : Text} (h : a.WrappedIn guard) (word : (' ' : Byte) ∉ guard) :
    a.guard = guard := by
  obtain ⟨header, body, content⟩ := h
  have without_end :
      a.content.dropLast =
        (Line.renderAll (prologue header guard ++ body) ++
          Text.ofString "\n#endif  //") ++
          (' ' : Byte) :: guard := by
    rw [content, Line.renderAll_append, renderAll_epilogue,
      ← List.append_assoc, List.dropLast_concat, List.append_assoc]
  rw [Artifact.guard, without_end, lastWord_append _ guard word]

/-- The header is wrapped in a guard that is made of its path. -/
def Artifact.Guarded [Support] (a : Artifact) : Prop :=
  ∃ parts : List Text, a.WrappedIn (Name.guard parts) ∧
    Name.guard parts = "ARCHWITH_GENERATED_" ++ macroForm a.path

theorem Artifact.Guarded.guard_eq [Support] {a : Artifact} (h : a.Guarded) :
    a.guard = "ARCHWITH_GENERATED_" ++ macroForm a.path := by
  obtain ⟨parts, wrapped, form⟩ := h
  rw [wrapped.guard_eq (Name.blank_not_mem_guard parts), form]

theorem Artifact.Guarded.wrappedIn_guard [Support] {a : Artifact}
    (h : a.Guarded) : a.WrappedIn a.guard := by
  obtain ⟨parts, wrapped, -⟩ := h
  rwa [wrapped.guard_eq (Name.blank_not_mem_guard parts)]

/-- The underscores of a guard stand before the parts, the slashes of a path
behind them. -/
theorem macroForm_directory (scope : List Text) :
    "_" ++ macroForm (directory scope) =
      macroForm (guardParts scope) ++ "_" := by
  induction scope with
  | nil => rfl
  | cons part scope ih =>
    have slash : macroForm (Text.ofString "/") = "_" := rfl
    have underscore : macroForm (Text.ofString "_") = "_" := rfl
    simp only [directory, Text.terminated, guardParts, List.flatMap_cons,
      macroForm_append, slash, underscore, List.append_assoc]
      at ih ⊢
    rw [ih]

/-- The guard with `parts` behind the name of the type fits a path with
`ending` there. -/
theorem guardName_eq (h : Header) {parts : List Text} {ending : Text}
    (fit : macroForm ("." ++ ending) = macroForm (guardParts parts ++ "_HPP")) :
    guardName h parts = "ARCHWITH_GENERATED_" ++
        macroForm (headerPath h.scope h.name ending) := by
  have start :
      macroForm (Text.ofString "ARCHWITH_GENERATED") = "ARCHWITH_GENERATED" :=
    rfl
  have underscore : macroForm (Text.ofString "_") = "_" := rfl
  have behind : guardParts (h.scope ++ h.name :: parts) =
      guardParts h.scope ++ "_" ++ h.name ++ guardParts parts := by
    simp [guardParts]
  calc
    guardName h parts = macroForm ("ARCHWITH_GENERATED" ++
        guardParts (h.scope ++ h.name :: parts) ++ "_HPP") :=
      rfl
    _ = "ARCHWITH_GENERATED" ++ (macroForm (guardParts h.scope) ++ "_") ++
          macroForm h.name ++ macroForm (guardParts parts ++ "_HPP") := by
        simp only [behind, macroForm_append, start, underscore,
          List.append_assoc]
    _ = "ARCHWITH_GENERATED" ++ ("_" ++ macroForm (directory h.scope)) ++
          macroForm h.name ++ macroForm ("." ++ ending) := by
        rw [macroForm_directory, fit]
    _ = "ARCHWITH_GENERATED_" ++
          macroForm (headerPath h.scope h.name ending) := by
        simp [headerPath, macroForm_append, Text.ofString]

theorem guarded_of_opened [Support] {a : Artifact} {h : Header}
    {ending : Text} {front : List Line} (parts : List Text)
    (path : a.path = headerPath h.scope h.name ending)
    (fit : macroForm ("." ++ ending) = macroForm (guardParts parts ++ "_HPP"))
    (opened : prologue h (guardName h parts) <+: front)
    (content :
      a.content = Line.renderAll (front ++ epilogue (guardName h parts))) :
    a.Guarded := by
  obtain ⟨body, rfl⟩ := opened
  exact ⟨h.scope ++ h.name :: parts, ⟨h, body, content⟩,
    path ▸ guardName_eq h fit⟩

theorem guarded_reprHeader [Support] (t : Table) (index : Index) :
    (reprHeader t index).Guarded := by
  refine guarded_of_opened ["repr"] rfl (by decide +kernel) ?_ rfl
  simp only [List.append_assoc]
  exact List.prefix_append _ _

theorem guarded_archiveHeader [Support] (t : Table) (remote : RemoteName) :
    (archiveHeader t remote).Guarded := by
  refine guarded_of_opened ["archive", remote.slug] rfl ?_ ?_ rfl
  · have kind :
        macroForm (Text.ofString ".archive.") =
          macroForm (Text.ofString "_archive_") := by
      decide +kernel
    have last :
        macroForm (Text.ofString ".hpp") =
          macroForm (Text.ofString "_HPP") := by
      decide +kernel
    calc
      macroForm ("." ++ ("archive." ++ remote.slug ++ ".hpp")) =
        macroForm (".archive." ++ remote.slug ++ ".hpp") := by
        simp [Text.ofString]
      _ = macroForm ("_archive_" ++ remote.slug ++ "_HPP") := by
        simp only [macroForm_append, kind, last]
      _ = macroForm (guardParts ["archive", remote.slug] ++ "_HPP") := by
        simp [guardParts, Text.ofString]
  · simp only [List.append_assoc]
    exact List.prefix_append _ _

theorem guarded_of_deserializeHeader [Support] {t : Table} {a : Artifact}
    (h : deserializeHeader t = .ok a) :
    a.Guarded := by
  unfold deserializeHeader at h
  split at h
  case isTrue =>
    obtain rfl := Except.ok.inj h
    refine guarded_of_opened ["deserialize"] rfl (by decide +kernel) ?_ rfl
    simp only [List.append_assoc]
    exact List.prefix_append _ _
  case isFalse => cases h

theorem guarded_umbrellaHeader [Support] (t : Table)
    (headers : List Artifact) : (umbrellaHeader t headers).Guarded := by
  refine guarded_of_opened [] rfl (by decide +kernel) ?_ rfl
  exact List.prefix_append _ _

end Adapter

open Adapter (Artifact Index)
open Mapping (Table)

theorem guarded_of_mem_render [Support] {t : Table} {index : Index}
    {a : Artifact} (h : a ∈ (render t index).1) :
    a.Guarded := by
  have first :
      ∀ b ∈ Adapter.reprHeader t index :: Adapter.archiveHeaders t,
        b.Guarded := by
    intro b found
    rcases List.mem_cons.mp found with rfl | found
    · exact Adapter.guarded_reprHeader t index
    · obtain ⟨remote, -, rfl⟩ := List.mem_map.mp found
      exact Adapter.guarded_archiveHeader t remote
  unfold render at h
  cases rebuilt : Adapter.deserializeHeader t with
  | ok header =>
    simp only [rebuilt, List.mem_append, List.mem_singleton] at h
    rcases h with (found | rfl) | rfl
    · exact first a found
    · exact Adapter.guarded_of_deserializeHeader rebuilt
    · exact Adapter.guarded_umbrellaHeader t _
  | error note =>
    simp only [rebuilt, List.mem_append, List.mem_singleton] at h
    rcases h with found | rfl
    · exact first a found
    · exact Adapter.guarded_umbrellaHeader t _

theorem guarded_of_mem_compileMirror [Support] {file : Decl.File}
    {mirror : Decl.Mirror} {index : Index} {a : Artifact}
    (h : a ∈ (compileMirror file mirror index).headers) : a.Guarded := by
  unfold compileMirror at h
  split at h
  · cases h
  · exact guarded_of_mem_render h

/-- All headers that a module has generated, in order. -/
def headersOf [Support] (m : Decl.Module) : List Artifact :=
  (compileModule m).flatMap Compilation.headers

theorem guarded_of_mem_headersOf [Support] {m : Decl.Module} {a : Artifact}
    (h : a ∈ headersOf m) : a.Guarded := by
  obtain ⟨compilation, found, inside⟩ := List.mem_flatMap.mp h
  obtain ⟨⟨⟨file, mirror⟩, repeated⟩, -, rfl⟩ := List.mem_map.mp found
  cases repeated with
  | none => exact guarded_of_mem_compileMirror inside
  | some first => cases inside

/-- The guards are functions of the paths. -/
theorem map_guard_headersOf [Support] (m : Decl.Module) :
    (headersOf m).map Artifact.guard =
      ((headersOf m).map (Name.macroForm ·.path)).map
        (Text.ofString "ARCHWITH_GENERATED_" ++ ·) := by
  rw [List.map_map]
  exact List.map_congr_left fun a h => (guarded_of_mem_headersOf h).guard_eq

/-- Each header that a module has generated stands within the guard that its
path makes, and the guards of any two differ exactly when their paths differ
in macro form. -/
theorem guards_nodup_iff [Support] (m : Decl.Module) :
    (∀ a ∈ headersOf m, a.WrappedIn a.guard ∧
        a.guard = "ARCHWITH_GENERATED_" ++ Name.macroForm a.path) ∧
    (((headersOf m).map Artifact.guard).Nodup ↔
      ((headersOf m).map (Name.macroForm ·.path)).Nodup) := by
  constructor
  · intro a h
    have guarded := guarded_of_mem_headersOf h
    exact ⟨guarded.wrappedIn_guard, guarded.guard_eq⟩
  · rw [map_guard_headersOf]
    simp only [List.nodup_iff_pairwise_ne, List.pairwise_map, ne_eq,
      List.append_cancel_left_eq]

/-- One mirror type with two remote types whose slugs differ in the case of
their letters only. -/
def twoCases : Decl.Module :=
  (Decl.readFiles
      [("f.mirror",
        "struct [[archive_with(from(::a::b, ::A::B))]] Foo \x7b\x7d;")]).1

section
open Support.Standard

/-- The headers of one mirror type can share a guard: its umbrella includes
both, and the second is empty. -/
theorem guards_twoCases :
    (headersOf twoCases).map (·.path) =
      [Text.ofString "Foo.repr.hpp", Text.ofString "Foo.archive.a_b.hpp",
        Text.ofString "Foo.archive.A_B.hpp",
        Text.ofString "Foo.deserialize.hpp", Text.ofString "Foo.hpp"] ∧
    ((headersOf twoCases).map (·.path)).Nodup ∧
    ¬((headersOf twoCases).map Artifact.guard).Nodup := by
  have paths :
      (headersOf twoCases).map (·.path) =
        [Text.ofString "Foo.repr.hpp", Text.ofString "Foo.archive.a_b.hpp",
          Text.ofString "Foo.archive.A_B.hpp",
          Text.ofString "Foo.deserialize.hpp", Text.ofString "Foo.hpp"] := by
    decide +kernel
  have forms : (headersOf twoCases).map (Name.macroForm ·.path) =
      ((headersOf twoCases).map (·.path)).map Name.macroForm := by
    rw [List.map_map]
    rfl
  refine ⟨paths, ?_, ?_⟩
  · rw [paths]
    decide +kernel
  · rw [map_guard_headersOf, forms, paths]
    decide +kernel

end

end MirrorAdapter
