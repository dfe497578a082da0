import Mathlib.Data.List.Induction
import MirrorAdapter.Proofs.Lexemes

/-!
# Tokens in their text

Every token of a text but the mark of the end has a span of its own, and the
spans follow one another in the order of the tokens (`Token.Covers`). Before,
between and behind them stand white space and comments only. A token says what
its span says: the span itself or, for a string literal, the value that it
writes; and it stands where counting the lines and bytes before the span
leads.
-/
namespace MirrorAdapter

/-! ## Counting -/

namespace Position

/-- The position behind a text: its line feeds and the bytes behind the last
one, each counted from one and modulo 2³². -/
def behind (s : Text) : Position where
  line := UInt32.ofNat (s.count ('\n' : Byte) + 1)
  column :=
    UInt32.ofNat ((s.reverse.takeWhile fun b : Byte => b != '\n').length + 1)

theorem after_eq_behind (s : Text) : ({} : Position).after s = behind s := by
  induction s using List.reverseRecOn with
  | nil => rfl
  | append_singleton s b ih =>
    rw [after_append, ih]
    show (behind s).advance b = _
    by_cases feed : b = '\n'
    · simp [advance, behind, feed, UInt32.ofNat_add]
    · simp [advance, behind, feed, UInt32.ofNat_add]

end Position

/-! ## Gaps -/

/-- The text is over, or goes on with a line feed. -/
def EndsLine (s : Text) : Prop := ∀ b ∈ s.head?, b = '\n'

/-- What may stand between two tokens, or at an end of the text, in front of
what follows it: white space, comments up to the end of their line, and
comments up to their first `*/`. Where nothing follows, the last one may lack
it. -/
inductive Skipped (behind : Text) : Text → Prop
  | nil : Skipped behind []
  | space {b : Byte} {gap : Text} :
      b.isSpace = true → Skipped behind gap → Skipped behind (b :: gap)
  | line {comment gap : Text} :
      ('\n' : Byte) ∉ comment → EndsLine (gap ++ behind) →
      Skipped behind gap → Skipped behind ('/' :: '/' :: (comment ++ gap))
  | block {comment gap : Text} :
      ¬("*/" : Text) <:+: comment ++ "*" → Skipped behind gap →
        Skipped behind ('/' :: '*' :: (comment ++ "*/" ++ gap))
  | unclosed {comment : Text} :
      ¬("*/" : Text) <:+: comment → behind = [] →
      Skipped behind ('/' :: '*' :: comment)

/-! ## String literals -/

/-- What stands between the quotes of a string literal, and the value it
writes. -/
inductive Inside : Text → Text → Prop
  | nil : Inside [] []
  | byte {b : Byte} {inside value : Text} :
      b ≠ '"' → b ≠ '\\' → b ≠ '\n' → b ≠ '\r' → Inside inside value →
      Inside (b :: inside) (b :: value)
  | lineFeed {inside value : Text} :
      Inside inside value → Inside ('\\' :: 'n' :: inside) ('\n' :: value)
  | tab {inside value : Text} :
      Inside inside value → Inside ('\\' :: 't' :: inside) ('\t' :: value)
  | escaped {b : Byte} {inside value : Text} :
      b ≠ 'n' → b ≠ 't' → Inside inside value →
      Inside ('\\' :: b :: inside) (b :: value)

/-- A string literal in front of what follows it, and the value it writes. Its
closing quote is missing only at a line feed, at a carriage return and at the
end of the text; at the latter a backslash may stand alone. -/
inductive Literal (behind : Text) : Text → Text → Prop
  | closed {inside value : Text} :
      Inside inside value → Literal behind ('"' :: (inside ++ "\"")) value
  | unclosed {inside value : Text} :
      Inside inside value → (∀ b ∈ behind.head?, b = '\n' ∨ b = '\r') →
      Literal behind ('"' :: inside) value
  | backslash {inside value : Text} :
      Inside inside value → behind = [] →
      Literal behind ('"' :: (inside ++ "\\")) (value ++ "\\")

theorem Inside.pair (b : Byte) {inside value : Text} (h : Inside inside value) :
    Inside ('\\' :: b :: inside) (Piece.unescape b :: value) := by
  by_cases feed : b = 'n'
  · subst feed
    exact .lineFeed h
  by_cases tab : b = 't'
  · subst tab
    exact .tab h
  have same : Piece.unescape b = b := by
    refine Byte.forall_of_lt
      (P := fun b => b ≠ 'n' → b ≠ 't' → Piece.unescape b = b) ?_ b feed tab
    decide +kernel
  rw [same]
  exact .escaped feed tab h

/-- More of the inside may stand in front. -/
theorem Literal.prepend {behind inside value : Text}
    (h : Literal behind ('"' :: inside) value) (front frontValue : Text)
    (extend : ∀ inside value,
        Inside inside value → Inside (front ++ inside) (frontValue ++ value)) :
    Literal behind ('"' :: (front ++ inside)) (frontValue ++ value) := by
  cases h with
  | closed good =>
    rw [← List.append_assoc]
    exact .closed (extend _ _ good)
  | unclosed good ends => exact .unclosed (extend _ _ good) ends
  | backslash good ends =>
    rw [← List.append_assoc, ← List.append_assoc]
    exact .backslash (extend _ _ good) ends

/-- The value of a literal is shorter than the literal. -/
theorem Literal.length_lt {behind span value : Text}
    (h : Literal behind span value) : value.length < span.length := by
  have inside {inside value : Text} (good : Inside inside value) :
      value.length ≤ inside.length := by
    induction good <;> simp only [List.length_cons, List.length_nil] <;> omega
  cases h with
  | closed good | unclosed good | backslash good =>
    have := inside good
    simp only [List.length_cons, List.length_append]
    omega

/-! ## Pieces of a text -/

namespace Piece

theorem literal_stringBody (s : Text) :
    Literal (stringBody s).2.2 ('"' :: (stringBody s).1)
      (stringBody s).2.1 := by
  fun_induction stringBody s with
  | case1 => exact .unclosed .nil (by simp)
  | case2 => exact .closed .nil
  | case3 b _ ends => exact .unclosed .nil (by simpa using ends)
  | case4 b quote ends =>
    simp only [not_or] at ends
    by_cases lone : b = '\\'
    · exact lone ▸ .backslash .nil rfl
    · exact .unclosed (.byte quote lone ends.1 ends.2 .nil) (by simp)
  | case5 => exact .closed .nil
  | case6 a b rest _ ends => exact .unclosed .nil (by simpa using ends)
  | case7 b rest raw value after h quote ends ih =>
    rw [h] at ih
    exact ih.prepend ['\\', b] [unescape b] fun _ _ => .pair b
  | case8 a b rest quote ends other raw value after h ih =>
    rw [h] at ih
    simp only [not_or] at ends
    exact ih.prepend [a] [a] fun _ _ => .byte quote other ends.1 ends.2

theorem not_closing_cons {a : Byte} {s : Text}
    (first : a = '*' → s.head? ≠ some ('/' : Byte))
    (inner : ¬("*/" : Text) <:+: s) : ¬("*/" : Text) <:+: a :: s := by
  rw [List.infix_cons_iff]
  rintro (⟨rest, whole⟩ | later)
  · obtain ⟨star, rfl⟩ := List.cons.inj whole
    exact first star.symm rfl
  · exact inner later

/-- A block comment ends with the first `*/`, or takes everything. -/
theorem blockComment_cases (s : Text) :
    (∃ comment, (blockComment s).1 = comment ++ "*/" ∧
        ¬("*/" : Text) <:+: comment ++ "*") ∨
    (blockComment s).2 = [] ∧ ¬("*/" : Text) <:+: (blockComment s).1 := by
  fun_induction blockComment s with
  | case1 => exact .inr ⟨rfl, by decide⟩
  | case2 b => exact .inr ⟨rfl, not_closing_cons (by simp) (by decide)⟩
  | case3 a b rest closes =>
    obtain ⟨rfl, rfl⟩ := closes
    exact .inl ⟨[], rfl, by decide⟩
  | case4 a b rest other inside after h ih =>
    -- What the comment takes next is `b`, and that does not close it behind
    -- `a`.
    have whole := blockComment_append (b :: rest)
    rw [h] at ih whole
    have apart (taken : a = '*') : b ≠ '/' :=
      fun slash => other ⟨taken, slash⟩
    rcases ih with ⟨comment, rfl, none_before⟩ | ⟨rfl, none_inside⟩
    · refine .inl
        ⟨a :: comment, rfl, not_closing_cons (fun star => ?_) none_before⟩
      cases comment with
      | nil => decide
      | cons c comment =>
        obtain ⟨rfl, -⟩ := List.cons.inj whole
        simpa using apart star
    · simp only [List.append_nil] at whole
      subst whole
      exact .inr ⟨rfl,
        not_closing_cons (fun star => by simpa using apart star) none_inside⟩

end Piece

/-! ## Tokens and their spans -/

namespace Token

/-- A token of the kind may end in front of the text: no further byte belongs
to a word, no comment starts at a slash, and a colon is not the first half of
`::`. -/
def Kind.EndsBefore (kind : Kind) (behind : Text) : Prop :=
  ∀ b ∈ behind.head?,
    match kind with
    | .identifier => Piece.isNameByte b = false
    | .integer => Piece.isNumberByte b = false
    | .slash => b ≠ '/' ∧ b ≠ '*'
    | .colon => b ≠ ':'
    | _ => True

/-- The span, in front of the text behind it, is that of the token. -/
structure Spans (t : Token) (span behind : Text) : Prop where
  nonempty : span ≠ []
  notEnd : t.kind ≠ .eof
  plain : t.kind ≠ .string → t.text = span
  literal : t.kind = .string → Literal behind span t.text
  fits : t.kind.Spells t.text
  longest : t.kind.EndsBefore behind

/-- The tokens are those of the last text of a file, which stands behind the
first: they have spans one behind the other, with nothing but white space and
comments around, and each stands where its span starts. The last token marks
the end. -/
inductive Covers (file : Text) : Text → Text → List Token → Prop
  | done {before gap : Text} :
      Skipped [] gap → Covers file before gap
        [⟨.eof, [], ⟨file, Position.behind (before ++ gap)⟩⟩]
  | token {before gap span rest : Text} {t : Token} {ts : List Token} :
      Skipped (span ++ rest) gap → t.Spans span rest →
      t.location = ⟨file, Position.behind (before ++ gap)⟩ →
      Covers file (before ++ gap ++ span) rest ts →
      Covers file before (gap ++ span ++ rest) (t :: ts)

end Token

namespace Piece

theorem head?_dropWhile {p : Byte → Bool} {s : Text} :
    ∀ b ∈ (s.dropWhile p).head?, p b = false := by
  intro b first
  have stops := List.head?_dropWhile_not p s
  rw [Option.mem_def.mp first] at stops
  simpa using stops

/-- A piece without a token may stand in front of a gap. -/
theorem skipped_next {b : Byte} {rest gap behind : Text}
    (h : (next b rest).1.token = none)
    (split : (next b rest).2 = gap ++ behind) (more : Skipped behind gap) :
    Skipped behind ((next b rest).1.raw ++ gap) := by
  have cut := cut_next b rest
  generalize next b rest = next at h split cut ⊢
  cases cut with
  | name | number | string | scope | mark => cases h
  | space blank => exact .space blank more
  | line body =>
    refine .line (fun inside => ?_) ?_ more
    · simpa using List.mem_takeWhile_imp inside
    · rw [← split]
      exact fun b first => by simpa using head?_dropWhile b first
  | block body =>
    rcases blockComment_cases body
        with ⟨comment, closed, none_before⟩ | ⟨all, none_inside⟩
    · simp only [closed]
      exact .block none_before more
    · rw [all] at split
      obtain ⟨rfl, rfl⟩ := List.append_eq_nil_iff.mp split.symm
      rw [List.append_nil]
      exact .unclosed none_inside rfl

/-- The token of a single byte has this byte as its span. -/
theorem spans_mark {b : Byte} {rest : Text} (isMark : Token.IsMark b)
    (slash : b = '/' → ∀ c ∈ rest.head?, c ≠ '/' ∧ c ≠ '*')
    (colon : b = ':' → ∀ c ∈ rest.head?, c ≠ ':') (location : Location) :
    Token.Spans ⟨Token.Kind.ofByte b, [b], location⟩ [b] rest := by
  have short := Token.Kind.isLong_ofByte b
  have isSlash : Token.Kind.ofByte b = .slash → b = '/' :=
    Byte.forall_of_lt (P := fun b => Token.Kind.ofByte b = .slash → b = '/')
      (by decide +kernel) b
  have isColon : Token.Kind.ofByte b = .colon → b = ':' :=
    Byte.forall_of_lt (P := fun b => Token.Kind.ofByte b = .colon → b = ':')
      (by decide +kernel) b
  have fits := Token.Kind.Spells.mark isMark rfl
  generalize Token.Kind.ofByte b = kind at short isSlash isColon fits
  refine ⟨by simp, fun ends => ?_, fun _ => rfl, fun string => ?_, fits,
    fun c first => ?_⟩
  · subst ends
    cases short
  · subst string
    cases short
  · cases kind with
    | slash => exact slash (isSlash rfl) c first
    | colon => exact colon (isColon rfl) c first
    | identifier | integer => cases short
    | _ => trivial

/-- The token of a piece has the piece as its span. -/
theorem spans_next {b : Byte} {rest : Text} {kind : Token.Kind} {text : Text}
    (h : (next b rest).1.token = some (kind, text)) (location : Location) :
    Token.Spans ⟨kind, text, location⟩ (next b rest).1.raw (next b rest).2 := by
  have fits := Token.spells_next h
  have cut := cut_next b rest
  generalize next b rest = next at h cut ⊢
  cases cut with
  | space | line | block => cases h
  | name | number =>
    obtain ⟨rfl, rfl⟩ := Prod.mk.inj (Option.some.inj h)
    exact ⟨by simp [word], by simp, fun _ => rfl, by simp, fits,
      head?_dropWhile⟩
  | string =>
    obtain ⟨rfl, rfl⟩ := Prod.mk.inj (Option.some.inj h)
    exact ⟨by simp, by simp, by simp, fun _ => literal_stringBody rest,
      fits, fun _ _ => trivial⟩
  | scope =>
    obtain ⟨rfl, rfl⟩ := Prod.mk.inj (Option.some.inj h)
    exact ⟨by simp, by simp, fun _ => rfl, by simp, fits, fun _ _ => trivial⟩
  | mark isMark slash colon =>
    obtain ⟨rfl, rfl⟩ := Prod.mk.inj (Option.some.inj h)
    exact spans_mark isMark slash colon location

end Piece

namespace Token

theorem Covers.skip {file before text raw : Text}
    {ts : List Token} (h : Covers file (before ++ raw) text ts)
    (skipped : ∀ gap behind, text = gap ++ behind →
        Skipped behind gap → Skipped behind (raw ++ gap)) :
    Covers file before (raw ++ text) ts := by
  cases h with
  | done gap =>
    rw [List.append_assoc]
    exact .done (skipped _ _ (by simp) gap)
  | token gap spans place rest =>
    rw [List.append_assoc] at place rest
    rw [← List.append_assoc, ← List.append_assoc]
    refine .token (skipped _ _ (by simp) gap) spans place ?_
    simpa using rest

/-- The tokens of what stands behind a text cover it. -/
theorem covers_locate (file before text : Text) :
    Covers file before text
      (locate file (Position.behind before) (pieces text)) := by
  fun_induction pieces text generalizing before with
  | case1 => simpa [locate] using @Covers.done file before [] .nil
  | case2 b rest _ ih =>
    have later := ih (before ++ (Piece.next b rest).1.raw)
    rw [← Position.after_eq_behind,
      Position.after_append, Position.after_eq_behind]
      at later
    rw [← Piece.next_append b rest, locate]
    split
    · rename_i none_here
      exact later.skip fun gap behind => Piece.skipped_next none_here
    · rename_i kind text here
      have spans := Piece.spans_next here ⟨file, Position.behind before⟩
      simpa using @Covers.token file before [] _ _ _ _ .nil spans (by simp)
          (by simpa using later)

/-- The tokens of a text cover it: but for the mark of the end they have
disjoint spans of it in their order, around which stand white space and
comments only. -/
theorem covers_scan (file text : Text) :
    Covers file [] text (scan file text) :=
  covers_locate file [] text

end Token
end MirrorAdapter
