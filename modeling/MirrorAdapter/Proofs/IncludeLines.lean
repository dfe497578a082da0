import MirrorAdapter.Proofs.Headers.Blocks
import MirrorAdapter.Proofs.Headers.Includes
import MirrorAdapter.Proofs.Targets
import MirrorAdapter.Proofs.Vocabulary
import MirrorAdapter.Support.Standard

/-!
# Include lines in generated headers

The include lines of a file are handed on to the header of every archived form
that the file declares, one line for each and in their order. Which bytes a
line has there is decided where its target is read; it is the line that was
written exactly if nothing in the target is lost (`IncludeTarget.Plain`).
-/
namespace MirrorAdapter

open Decl (ErrorFree readTarget beforeEnd)

/-! ## Tokens of an include line -/

namespace Token

theorem behind_append (a b : Text) :
    Position.behind (a ++ b) = (Position.behind a).after b := by
  rw [← Position.after_eq_behind, Position.after_append,
    Position.after_eq_behind]

/-- The mark and the word of an include line are tokens of their own. -/
theorem locate_include (path before rest : Text) :
    locate path (Position.behind before) (pieces ("#include " ++ rest)) =
      ⟨.hash, "#", ⟨path, Position.behind before⟩⟩ ::
        ⟨.identifier, "include", ⟨path, Position.behind (before ++ "#")⟩⟩ ::
        locate path (Position.behind (before ++ "#include "))
          (pieces rest) := by
  have words :
      pieces "#include " =
        [⟨"#", some (.hash, "#")⟩,
          ⟨"include", some (.identifier, "include")⟩, ⟨" ", none⟩] := by
    decide +kernel
  have blank : EndsBlank "#include " := by decide +kernel
  rw [pieces_append blank, words, behind_append, behind_append]
  simp only [List.cons_append, List.nil_append, locate, ← Position.after_append]
  rfl

theorem locate_angle (path before s after : Text) :
    locate path (Position.behind before)
      (pieces ((IncludeTarget.angle s).text ++ after)) =
      ⟨.less, "<", ⟨path, Position.behind before⟩⟩ ::
        locate path (Position.behind (before ++ "<"))
          (pieces (s ++ ('>' : Byte) :: after)) := by
  have next (rest : Text) :
      Piece.next '<' rest = (⟨"<", some (.less, "<")⟩, rest) := by
    cases rest <;> rfl
  have starts :
      (IncludeTarget.angle s).text ++ after =
        ('<' : Byte) :: (s ++ ('>' : Byte) :: after) := by
    simp [IncludeTarget.text, Text.ofString]
  rw [starts, pieces, next, behind_append]
  rfl

theorem exists_locate_quoted (path before s after : Text) :
    ∃ more,
      locate path (Position.behind before)
        (pieces ((IncludeTarget.quoted s).text ++ after)) =
        ⟨.string, (Piece.stringBody (s ++ ('"' : Byte) :: after)).2.1,
          ⟨path, Position.behind before⟩⟩ :: more := by
  have starts :
      (IncludeTarget.quoted s).text ++ after =
        ('"' : Byte) :: (s ++ ('"' : Byte) :: after) := by
    simp [IncludeTarget.text, Text.ofString]
  rw [starts, pieces]
  exact ⟨_, rfl⟩

end Token

/-! ## What is read of a target -/

namespace Decl

/-- What is read of a target in front of a text, on the line where the target
starts. -/
def readTargetText (path before : Text) (hash : Location)
    (target : IncludeTarget) (after : Text) : Parsed Include :=
  readTarget hash (Position.behind before).line (beforeEnd (Token.locate path
        (Position.behind before) (pieces (target.text ++ after))))

section
variable (path before after : Text) (hash : Location) {s : Text}

theorem readTargetText_quoted :
    (readTargetText path before hash (.quoted s) after).value =
      some ⟨(IncludeTarget.quoted
            (Piece.stringBody (s ++ ('"' : Byte) :: after)).2.1).text,
        hash⟩ := by
  obtain ⟨more, tokens⟩ := Token.exists_locate_quoted path before s after
  rw [readTargetText, tokens]
  simp [beforeEnd, readTarget, Token.line, Location.line, Parsed.done,
    IncludeTarget.text]

theorem readTargetText_angle :
    readTargetText path before hash (.angle s) after =
      readTarget hash (Position.behind before).line
        (⟨.less, "<", ⟨path, Position.behind before⟩⟩ ::
          beforeEnd (Token.locate path (Position.behind (before ++ "<"))
            (pieces (s ++ ('>' : Byte) :: after)))) := by
  rw [readTargetText, Token.locate_angle]
  rfl

end

/-- A target of which nothing is lost is read as it is written. -/
theorem value_readTargetText (path before after : Text)
    (hash : Location) {target : IncludeTarget}
    (single : target.WellFormed) (plain : target.Plain) :
    (readTargetText path before hash target after).value =
      some ⟨target.text, hash⟩ := by
  cases target with
  | quoted s =>
    rw [readTargetText_quoted,
      (Piece.value_stringBody_eq_iff single after).mpr plain]
  | angle s =>
    have covers :=
      Token.covers_locate path (before ++ "<") (s ++ ('>' : Byte) :: after)
    obtain ⟨inside, closing, more, tokens,
          texts, between, closes, text, same⟩ :=
      covers.plain rfl single plain
    rw [Token.line_behind_append _ (by decide)] at between same
    have free : EofFree inside := fun t within => (between t within).1
    have opened : beforeEnd (closing :: more) = closing :: beforeEnd more := by
      simp [beforeEnd, closes]
    have whole :=
      readTarget_closed hash
        (l := ⟨.less, "<", ⟨path, Position.behind before⟩⟩) rfl rfl
        (fun t within => (between t within).2) closes same (beforeEnd more)
    rw [texts, text] at whole
    rw [readTargetText_angle, tokens, beforeEnd_append_of_eofFree free, opened]
    exact congrArg Parsed.value whole

/-- A target that is read as it is written has lost nothing, where nothing
else stands on its line. -/
theorem plain_of_readTargetText {path before after : Text} {hash : Location}
    {target : IncludeTarget} {found : Include} (single : target.WellFormed)
    (blank : BlankToEnd after) (few : after.count ('\n' : Byte) < UInt32.size)
    (h : (readTargetText path before hash target after).value = some found)
    (same : found.target = target.text) :
    target.Plain := by
  cases target with
  | quoted s =>
    rw [readTargetText_quoted] at h
    obtain rfl := Option.some.inj h
    refine (Piece.value_stringBody_eq_iff single after).mp ?_
    simpa [IncludeTarget.text] using same
  | angle s =>
    have covers :=
      Token.covers_locate path (before ++ "<") (s ++ ('>' : Byte) :: after)
    rw [readTargetText_angle] at h
    generalize Token.locate path (Position.behind (before ++ "<"))
      (pieces (s ++ ('>' : Byte) :: after)) = tokens
      at covers h
    -- What was read ends with the closing bracket, so what was kept are the
    -- texts of the tokens in front of it.
    obtain ⟨eaten, whole, shape⟩ := consumes_readTarget hash _ _ found h
    generalize (readTarget hash _ _).rest = rest at whole
    cases shape with
    | string kind =>
      obtain ⟨rfl, -⟩ := List.cons.inj whole
      cases kind
    | @angle l closing inside opens here good closes there =>
      rw [List.append_assoc, List.cons_append, List.singleton_append] at whole
      rw [whole, readTarget_closed hash opens here good closes there] at h
      obtain ⟨rfl, left⟩ := List.cons.inj whole
      obtain rfl := Option.some.inj h
      obtain ⟨behind, all⟩ : beforeEnd tokens <+: tokens :=
        List.takeWhile_prefix _
      rw [← all, left, List.append_assoc, List.cons_append] at covers
      have place : closing.line = (Position.behind (before ++ "<")).line := by
        rw [there, Token.line_behind_append _ (by decide)]
      refine covers.plain_of_texts single blank few closes place ?_
      simpa [IncludeTarget.text] using same

/-! ## Include lines of a text -/

theorem includes_includeContent (blocks : List Block) (line : Parsed Include) :
    (includeContent blocks line).includes = line.value.toList := by
  unfold includeContent
  split <;> rename_i found <;> rw [found] <;> rfl

/-- A file that starts with an include line has its target first, if that is
read without an error. -/
theorem includes_readTokens (path : Text) (hash word : Token)
    (tokens : List Token) (mark : hash.kind = .hash)
    (named : word.isWord "include" = true) :
    let target := readTarget hash.location word.line (beforeEnd tokens)
    (∃ more, (readTokens path (hash :: word :: tokens)).file.includes =
          target.value.toList ++ more) ∧
    (ErrorFree path (hash :: word :: tokens) →
      ∃ found, target.value = some found) := by
  have before :
      beforeEnd (hash :: word :: tokens) =
        hash :: word :: beforeEnd tokens := by
    simp [beforeEnd, mark, Token.kind_of_isWord named]
  have step (stop : Token) :
      readInclude stop hash.location (word :: beforeEnd tokens) =
        readTarget hash.location word.line (beforeEnd tokens) := by
    simp [readInclude, named]
  simp only [ErrorFree, readTokens, before, readItems_cons,
    readItem_of_hash _ _ _ mark, step]
  constructor
  · exact ⟨_, by rw [Content.includes_append, includes_includeContent]⟩
  · intro clean
    rw [Content.log_append, Log.hasErrors_append, Bool.or_eq_false_iff]
      at clean
    exact (honest_readTarget _ _ _).clean_iff.mp (clean_includeContent clean.1)

/-- The targets of all includes of a text. -/
def includesOf (path text : Text) : List Text :=
  (readText path text).file.includes.map (·.target)

/-- The text has an include line with the given target behind the given text:
outside of all that is declared there, and with nothing but white space behind
it. -/
structure IncludeLine (path text before : Text) (target : IncludeTarget) :
    Prop where
  single : target.WellFormed
  starts : EndsBlank before
  clean : ErrorFree path (Token.scan path before)
  line : ∃ after, text = before ++ ("#include " ++ (target.text ++ after)) ∧
      BlankToEnd after

section
variable {path text before : Text} {target : IncludeTarget}

/-- The includes of the text are those in front of the line, what is read of
the target, and the rest. -/
theorem IncludeLine.includes_eq (h : IncludeLine path text before target) :
    ∃ after hash more,
      text = before ++ ("#include " ++ (target.text ++ after)) ∧
      BlankToEnd after ∧
        let line :=
          readTargetText path (before ++ "#include ") hash target after
        includesOf path text =
          includesOf path before ++ (line.value.toList ++ more).map (·.target) ∧
        (ErrorFree path (Token.scan path text) →
          ∃ found, line.value = some found) := by
  obtain ⟨after, rfl, blank⟩ := h.line
  have whole :=
    readText_append h.starts h.clean ("#include " ++ (target.text ++ after))
  simp only [Token.locate_include] at whole
  have sameLine :
      (Position.behind (before ++ "#include ")).line =
        (Position.behind (before ++ "#")).line := by
    rw [Token.line_behind_append _ (by decide),
      Token.line_behind_append _ (by decide)]
  obtain ⟨⟨more, first⟩, found⟩ :=
    includes_readTokens path ⟨.hash, "#", ⟨path, Position.behind before⟩⟩
      ⟨.identifier, "include", ⟨path, Position.behind (before ++ "#")⟩⟩
      (Token.locate path (Position.behind (before ++ "#include "))
          (pieces (target.text ++ after))) rfl (by simp [Token.isWord])
  have line :
      readTargetText path (before ++ "#include ")
        ⟨path, Position.behind before⟩ target after =
        readTarget ⟨path, Position.behind before⟩
          (Position.behind (before ++ "#")).line (beforeEnd
            (Token.locate path (Position.behind (before ++ "#include "))
              (pieces (target.text ++ after)))) := by
    rw [readTargetText, sameLine]
  refine ⟨after, ⟨path, Position.behind before⟩, more, rfl, blank, ?_,
    fun clean => ?_⟩
  · rw [includesOf, whole, List.map_append, first, line]
    rfl
  · rw [ErrorFree, ← readText, whole,
      Log.hasErrors_append, Bool.or_eq_false_iff]
      at clean
    rw [line]
    exact found clean.2

theorem IncludeLine.isPrefix_includesOf
    (h : IncludeLine path text before target) :
    includesOf path before <+: includesOf path text := by
  obtain ⟨after, hash, more, -, -, whole, -⟩ := h.includes_eq
  exact ⟨_, whole.symm⟩

/-- A target of which nothing is lost comes next, as it is written. -/
theorem IncludeLine.exists_includesOf_of_plain
    (h : IncludeLine path text before target) (plain : target.Plain) :
    ∃ more,
      includesOf path text = includesOf path before ++ target.text :: more := by
  obtain ⟨after, hash, more, -, -, whole, -⟩ := h.includes_eq
  rw [value_readTargetText path _ after hash h.single plain] at whole
  exact ⟨_, whole⟩

/-- The include that the line makes in a text without errors has the target as
it is written iff nothing is lost. -/
theorem IncludeLine.exists_getElem?_eq (h : IncludeLine path text before target)
    (clean : ErrorFree path (Token.scan path text))
    (few : text.count ('\n' : Byte) < UInt32.size) :
    ∃ found,
      (includesOf path text)[(includesOf path before).length]? = some found ∧
      (found = target.text ↔ target.Plain) := by
  obtain ⟨after, hash, more, split, blank, whole, read⟩ := h.includes_eq
  obtain ⟨found, value⟩ := read clean
  have fewer : after.count ('\n' : Byte) < UInt32.size := by
    rw [split] at few
    simp only [List.count_append] at few
    omega
  refine ⟨found.target, by simp [whole, value],
    plain_of_readTargetText h.single blank fewer value, fun plain => ?_⟩
  rw [value_readTargetText path _ after hash h.single plain] at value
  rw [← Option.some.inj value]

end

/-- The text has include lines with the given targets, in this order. -/
inductive IncludeLines (path : Text) : Text → List IncludeTarget → Prop
  | none (text : Text) : IncludeLines path text []
  | line {text before : Text} {targets : List IncludeTarget}
      {target : IncludeTarget} :
      IncludeLines path before targets → IncludeLine path text before target →
      IncludeLines path text (targets ++ [target])

theorem IncludeLines.wellFormed {path text : Text}
    {targets : List IncludeTarget} (h : IncludeLines path text targets) :
    ∀ target ∈ targets, target.WellFormed := by
  induction h with
  | none => simp
  | line _ here ih => simpa [or_imp, forall_and] using ⟨ih, here.single⟩

/-- The targets of which nothing is lost are among the includes of the text,
in their order. -/
theorem IncludeLines.sublist {path text : Text}
    {targets : List IncludeTarget} (h : IncludeLines path text targets) :
    ((targets.filter (·.Plain)).map IncludeTarget.text).Sublist
      (includesOf path text) := by
  induction h with
  | none => simp
  | @line _ _ _ target _ here ih =>
    rw [List.filter_append, List.map_append]
    by_cases plain : target.Plain
    · obtain ⟨more, whole⟩ := here.exists_includesOf_of_plain plain
      rw [whole]
      refine ih.append ?_
      simp [plain]
    · simpa [plain] using ih.trans here.isPrefix_includesOf.sublist

end Decl

/-! ## Lines of the header -/

namespace Adapter

open Mapping (Table)

/-- An include of the file as a line of text. -/
def copiedLine (target : Text) : Text := "#include " ++ target

theorem lines_copied (targets : List Text) :
    Text.lines (Line.renderAll
        (targets.map fun target => Line.of 0 (copiedLine target))) =
      targets.flatMap fun target => Text.lines (copiedLine target ++ "\n") := by
  induction targets with
  | nil => rfl
  | cons target targets ih =>
    have single :
        Line.renderAll [Line.of 0 (copiedLine target)] =
          copiedLine target ++ "\n" := by
      simp [Line.renderAll, Line.render, Line.of]
    rw [List.map_cons, ← List.singleton_append, Line.lines_renderAll_append,
      single, ih, List.flatMap_cons]

/-- The header has the lines of all includes of the file, in their order. A
target with a line feed makes more than one line. -/
theorem lines_reprHeader [Support] (t : Table) (index : Index) :
    ∃ front back, Text.lines (reprHeader t index).content =
        front ++ t.header.includes.flatMap
            (fun target => Text.lines (copiedLine target ++ "\n")) ++ back := by
  obtain ⟨front, back, split⟩ :
      ∃ front back, reprLines t index = front ++ t.header.includes.map
              (fun target => Line.of 0 (copiedLine target)) ++ back := by
    have regroup (a b copied c d e f : List Line) :
        a ++ b ++ copied ++ c ++ d ++ e ++ f =
          (a ++ b) ++ copied ++ (c ++ d ++ e ++ f) := by
      simp only [List.append_assoc]
    exact ⟨_, _, regroup _ _ _ _ _ _ _⟩
  refine ⟨Text.lines (Line.renderAll front),
    Text.lines (Line.renderAll back), ?_⟩
  rw [reprHeader, split, Line.lines_renderAll_append,
    Line.lines_renderAll_append, lines_copied]

/-- Targets of one line each are copied as lines of their own. -/
theorem sublist_copied {targets all : List Text} (h : targets.Sublist all)
    (single : ∀ target ∈ targets, Text.OneLine target) :
    (targets.map copiedLine).Sublist
      (all.flatMap fun target => Text.lines (copiedLine target ++ "\n")) := by
  induction h with
  | slnil => simp
  | cons target _ ih =>
    exact (ih single).trans (List.sublist_append_right _ _)
  | @cons_cons _ _ target _ ih =>
    rw [List.forall_mem_cons] at single
    have line : Text.OneLine (copiedLine target) :=
      Text.oneLine_append.mpr ⟨by decide, single.1⟩
    have alone :
        Text.lines (copiedLine target ++ "\n") = [copiedLine target] :=
      Text.lines_line_append line []
    rw [List.map_cons, List.flatMap_cons, alone]
    exact (ih single.2).cons_cons _

end Adapter

open Adapter (copiedLine)
open Decl (IncludeLine IncludeLines includesOf)

theorem IncludeTarget.WellFormed.oneLine {target : IncludeTarget}
    (h : target.WellFormed) : Text.OneLine target.text := by
  cases target with
  | angle s =>
    exact Text.oneLine_append.mpr
      ⟨Text.oneLine_append.mpr ⟨by decide, h.2⟩, by decide⟩
  | quoted s =>
    exact Text.oneLine_append.mpr
      ⟨Text.oneLine_append.mpr ⟨by decide, h.2.1⟩, by decide⟩

/-- The header of an archived form has a copy of each include line of the file
of which nothing is lost, and they come in the order of the file. Of every
other include line something is lost: where the file has no errors, the
include it makes has another target. -/
theorem copied_iff_plain [Support] (files : List (Text × Text))
    (c : Compilation) (t : Mapping.Table)
    (result : c ∈ compileModule (Decl.readFiles files).1)
    (table : c.table = some t) :
    ∃ path text a front back, (path, text) ∈ files ∧ c.sourceFile = path ∧
      c.headers.head? = some a ∧ t.header.includes = includesOf path text ∧
      Text.lines a.content = front ++ t.header.includes.flatMap
            (fun target => Text.lines (copiedLine target ++ "\n")) ++ back ∧
      (∀ targets, IncludeLines path text targets →
          ((targets.filter (·.Plain)).map fun target =>
                copiedLine target.text).Sublist (Text.lines a.content)) ∧
      (ErrorFree path (Token.scan path text) →
        text.count ('\n' : Byte) < UInt32.size →
        ∀ before target, IncludeLine path text before target → ∃ found,
            t.header.includes[(includesOf path before).length]? = some found ∧
            (found = target.text ↔ target.Plain)) := by
  obtain ⟨file, m, declared, source, model, spec, stages⟩ :=
    stages_of_table result table
  obtain ⟨path, text, given, rfl, member⟩ := exists_text_of_declared declared
  have includes : t.header.includes = includesOf path text := by
    rw [stages.header_eq]
    rfl
  obtain ⟨front, back, lines⟩ :=
    Adapter.lines_reprHeader t (Adapter.Index.ofModule (Decl.readFiles files).1)
  refine ⟨path, text, _, front, back, given, source,
    head?_headers result table, includes, lines,
    fun targets written => ?_, fun clean few before target here => ?_⟩
  · have single :
        ∀ line ∈ (targets.filter (·.Plain)).map IncludeTarget.text,
          Text.OneLine line := by
      intro line kept
      obtain ⟨target, inside, rfl⟩ := List.mem_map.mp kept
      exact (written.wellFormed target (List.mem_filter.mp inside).1).oneLine
    have copied := Adapter.sublist_copied written.sublist single
    rw [List.map_map] at copied
    rw [lines, includes]
    exact copied.trans
      ((List.sublist_append_right _ _).trans (List.sublist_append_left _ _))
  · rw [includes]
    exact here.exists_getElem?_eq clean few

/-- Two include lines, and a mirror type behind them. -/
def twoIncludes : Text :=
  "#include <a/b.h>\n  #include \"c d.h\"\n" ++
    "struct [[archive_with(from(::r::A))]] A \x7b\x7d;"

section
open Support.Standard

theorem copied_iff_plain_twoIncludes :
    ∃ c ∈ compileModule (Decl.readFiles [("f.mirror", twoIncludes)]).1,
      ∃ a ∈ c.headers.head?, [Text.ofString "#include <a/b.h>",
          Text.ofString "#include \"c d.h\""].Sublist
          (Text.lines a.content) := by
  obtain ⟨c, result, t, table⟩ :
      ∃ c ∈ compileModule (Decl.readFiles [("f.mirror", twoIncludes)]).1,
        ∃ t, t ∈ c.table := by
    obtain ⟨c, result, made⟩ :
        ∃ c ∈ compileModule (Decl.readFiles [("f.mirror", twoIncludes)]).1,
          c.table.isSome = true := by
      decide +kernel
    exact ⟨c, result, Option.isSome_iff_exists.mp made⟩
  obtain ⟨path, text, a, front, back, given, -, header, -, -, copied, -⟩ :=
    copied_iff_plain _ c t result table
  obtain ⟨rfl, rfl⟩ := Prod.mk.inj (List.mem_singleton.mp given)
  have first :
      IncludeLine "f.mirror" "#include <a/b.h>\n  " [] (.angle "a/b.h") :=
    ⟨by decide +kernel, by decide +kernel, by decide +kernel, "\n  ",
      by decide +kernel, by decide +kernel⟩
  have second :
      IncludeLine "f.mirror" twoIncludes "#include <a/b.h>\n  "
        (.quoted "c d.h") :=
    ⟨by decide +kernel, by decide +kernel, by decide +kernel,
      "\nstruct [[archive_with(from(::r::A))]] A \x7b\x7d;",
      by decide +kernel, by decide +kernel⟩
  have both :
      IncludeLines "f.mirror" twoIncludes [.angle "a/b.h", .quoted "c d.h"] :=
    .line (.line (.none []) first) second
  have kept :
      (([.angle "a/b.h", .quoted "c d.h"] : List IncludeTarget).filter
          (·.Plain)).map (fun target => copiedLine target.text) =
        [Text.ofString "#include <a/b.h>",
          Text.ofString "#include \"c d.h\""] := by
    decide +kernel
  exact ⟨c, result, a, header, kept ▸ copied _ both⟩

end

/-- An include line with a backslash in its target, and a mirror type behind
it. -/
def backslashInTarget : Text :=
  "#include \"dir\\name.h\"\nstruct [[archive_with(from(::r::A))]] A \x7b\x7d;"

section
open Support.Standard

/-- Nothing is reported. The backslash and the letter behind it become a line
feed, and no header has the line. -/
theorem backslashInTarget_lost :
    IncludeLine "f.mirror" backslashInTarget [] (.quoted "dir\\name.h") ∧
    (Decl.readText "f.mirror" backslashInTarget).log = [] ∧
    ∃ c ∈ compileModule (Decl.readFiles [("f.mirror", backslashInTarget)]).1,
      c.failed = false ∧ c.log = [] ∧ (∃ a ∈ c.headers,
          [Text.ofString "#include \"dir", Text.ofString "ame.h\""] <:+:
            Text.lines a.content) ∧
      ∀ a ∈ c.headers, copiedLine (IncludeTarget.quoted "dir\\name.h").text ∉
          Text.lines a.content := by
  refine ⟨⟨by decide +kernel, by decide +kernel, by decide +kernel,
      "\nstruct [[archive_with(from(::r::A))]] A \x7b\x7d;",
      by decide +kernel, by decide +kernel⟩,
    ?_⟩
  decide +kernel

end

end MirrorAdapter
