import MirrorAdapter.Proofs.Relocation.Headers
import MirrorAdapter.Proofs.Relocation.Reading
import MirrorAdapter.Support.Standard

/-!
# Texts with the same words

Blanks, comments, line breaks and directories leave no trace in what is
generated: texts that have the same tokens, in files whose paths have the same
last component, yield the same headers. Texts with `#` are left out, for such
a line ends with its line break.
-/
namespace MirrorAdapter
namespace Decl

/-- The kinds and texts of the tokens of a file, given by its path and text.
They do not tell where a token stands. -/
def words (file : Text × Text) : List (Token.Kind × Text) :=
  (Token.scan file.1 file.2).map fun t => (t.kind, t.text)

/-- Two files have the same words, among them no `#`, and the same name under
a way of naming paths. -/
structure SameWords (nameOf : Path → Text) (file file' : Text × Text) :
    Prop where
  name : nameOf file.1 = nameOf file'.1
  words : words file = words file'
  marks : ∀ word ∈ Decl.words file, word.1 ≠ .hash

/-- All places are one. -/
def nowhere (_ : Location) : Location := {}

/-- What ends the tokens of a file, wherever it stands. -/
theorem endOf_nowhere (path : Text) (tokens : List Token) :
    (endOf path tokens).relocate nowhere =
      ((tokens.map (Token.relocate nowhere)).find? (·.kind == .eof)).getD
        ⟨.eof, [], {}⟩ := by
  rw [endOf, List.find?_map]
  show _ = ((tokens.find? (·.kind == .eof)).map _).getD _
  cases tokens.find? (·.kind == .eof) <;> rfl

theorem beforeEnd_nowhere (tokens : List Token) :
    (beforeEnd tokens).map (Token.relocate nowhere) =
      beforeEnd (tokens.map (Token.relocate nowhere)) := by
  rw [beforeEnd, beforeEnd, List.takeWhile_map]
  rfl

/-- A file without `#` is what its moved tokens read as. -/
theorem file_readTokens [Support] (path : Text) {tokens : List Token}
    (marks : ∀ t ∈ tokens, t.kind ≠ .hash) :
    (readTokens path tokens).file.relocate nowhere =
      { path := representative path
        mirrors := (readItems ((endOf path tokens).relocate nowhere) []
          ((beforeEnd tokens).map (Token.relocate nowhere))).mirrors } := by
  have inside : ∀ t ∈ beforeEnd tokens, t.kind ≠ .hash :=
    fun t found => marks t ((List.takeWhile_prefix _).subset found)
  have items := readItems_relocate nowhere (endOf path tokens) [] inside
  rw [List.map_nil] at items
  rw [items, readTokens, File.relocate]
  simp only [includes_readItems (endOf path tokens) [] inside, List.map_nil]
  rfl

theorem file_readText [Support] {file file' : Text × Text}
    (h : SameWords Support.fileName file file') :
    (readText file.1 file.2).file.relocate nowhere =
      (readText file'.1 file'.2).file.relocate nowhere := by
  have marks : ∀ t ∈ Token.scan file.1 file.2, t.kind ≠ .hash :=
    fun t found => h.marks (t.kind, t.text) (List.mem_map.mpr ⟨t, found, rfl⟩)
  have marks' : ∀ t ∈ Token.scan file'.1 file'.2, t.kind ≠ .hash := by
    refine fun t found => h.marks (t.kind, t.text) ?_
    rw [h.words]
    exact List.mem_map.mpr ⟨t, found, rfl⟩
  have tokens :
      (Token.scan file.1 file.2).map (Token.relocate nowhere) =
        (Token.scan file'.1 file'.2).map (Token.relocate nowhere) :=
    Token.map_relocate_eq {} h.words
  rw [readText, readText, file_readTokens _ marks, file_readTokens _ marks',
    endOf_nowhere, endOf_nowhere, beforeEnd_nowhere, beforeEnd_nowhere,
    tokens, representative, representative, h.name]

/-- Names are the same if the library finds them where they are looked for. -/
theorem forall₂_sameWords_of_named [Support] {files files' : List (Text × Text)}
    (named :
      ∀ file ∈ files ++ files', Support.fileName file.1 = Path.fileName file.1)
    (h : List.Forall₂ (SameWords Path.fileName) files files') :
    List.Forall₂ (SameWords Support.fileName) files files' := by
  induction h with
  | nil => exact .nil
  | @cons file file' files files' same _ ih =>
    refine .cons ⟨?_, same.words, same.marks⟩ (ih fun other inside => ?_)
    · rw [named file (by simp), named file' (by simp), same.name]
    · refine named other ?_
      rcases List.mem_append.mp inside with first | second <;> simp [*]

/-- Files with the same words in the same order yield the same headers, equal
byte by byte, if the library gives their paths the same last components. So
they do if it takes what follows the last slash for it and that is the
same. -/
theorem outcomes_of_words [Support] (files files' : List (Text × Text)) :
    (List.Forall₂ (SameWords Support.fileName) files files' →
      (compileModule (readFiles files).1).map Compilation.outcome =
        (compileModule (readFiles files').1).map Compilation.outcome) ∧
    ((∀ file ∈ files ++ files',
        Support.fileName file.1 = Path.fileName file.1) →
      List.Forall₂ (SameWords Path.fileName) files files' →
      (compileModule (readFiles files).1).map Compilation.outcome =
        (compileModule (readFiles files').1).map Compilation.outcome) := by
  have alike (h : List.Forall₂ (SameWords Support.fileName) files files') :
      (compileModule (readFiles files).1).map Compilation.outcome =
        (compileModule (readFiles files').1).map Compilation.outcome := by
    have moved : (readFiles files).1.map (File.relocate nowhere) =
        (readFiles files').1.map (File.relocate nowhere) := by
      simp only [readFiles, List.map_map]
      rw [← List.forall₂_eq_eq_eq, List.forall₂_map_left_iff,
        List.forall₂_map_right_iff]
      exact h.imp fun file file' same => file_readText same
    rw [← outcomes_relocate nowhere, moved, outcomes_relocate]
  exact ⟨alike, fun named h => alike (forall₂_sameWords_of_named named h)⟩

/-- Texts that differ in blanks, comments, line breaks and directories. -/
def tidy : List (Text × Text) :=
  [("src/f.mirror",
      "struct [[archive_with(from(::r::A))]] A \x7b int x; \x7d;")]

def untidy : List (Text × Text) :=
  [("f.mirror",
      "struct // a type\n[[archive_with ( from(::r::A) )]]A" ++
        "\x7bint x;/* its end */\x7d;")]

section
open Support.Standard

theorem outcomes_of_words_untidy :
    (∀ file ∈ tidy ++ untidy,
        Support.fileName file.1 = Path.fileName file.1) ∧
      List.Forall₂ (SameWords Path.fileName) tidy untidy ∧ tidy ≠ untidy ∧
      (compileModule (readFiles tidy).1).map Compilation.outcome =
        (compileModule (readFiles untidy).1).map Compilation.outcome := by
  have plain : ∀ file ∈ tidy ++ untidy,
      Path.fileName file.1 ≠ [] ∧ Path.isNetworkRoot file.1 = false := by
    decide +kernel
  have named : ∀ file ∈ tidy ++ untidy,
      Support.fileName file.1 = Path.fileName file.1 := fun file inside =>
    Path.lastComponent_eq_fileName (plain file inside).1 (plain file inside).2
  have same : List.Forall₂ (SameWords Path.fileName) tidy untidy :=
    .cons ⟨by decide +kernel, by decide +kernel, by decide +kernel⟩ .nil
  exact ⟨named, same, by decide +kernel,
    (outcomes_of_words tidy untidy).2 named same⟩

/-- A name behind two slashes is no file in a directory: it is the root of a
network, named by the whole path, and so it stands in what is generated. -/
example :
    let read (path : Text) := (readFiles (tidy.map fun file => (path, file.2))).1
    (compileModule (read "f.mirror")).map Compilation.outcome ≠
      (compileModule (read "//f.mirror")).map Compilation.outcome := by
  decide +kernel

end

end Decl
end MirrorAdapter
