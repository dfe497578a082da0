import Mathlib.Data.List.Chain
import MirrorAdapter.Proofs.Concatenation

/-!
# Targets of include lines

A target is read as tokens and kept as their texts, so it comes out as it was
written only if no byte of it is lost on the way: between angle brackets white
space, comments and quotes of literals are, between quotes backslashes. Each
of these makes the result shorter than what was written, or carries it across
the mark that closes the target.
-/
namespace MirrorAdapter

/-! ## Targets as they are written -/

/-- The byte is that of a token in angle brackets. -/
def Byte.Solid (b : Byte) : Prop := b.isSpace = false ∧ b ≠ '"'

instance (b : Byte) : Decidable b.Solid := inferInstanceAs (Decidable (_ ∧ _))

/-- The bytes do not open a comment. -/
def Byte.OpensNone (a b : Byte) : Prop := a = '/' → b ≠ '/' ∧ b ≠ '*'

instance : DecidableRel Byte.OpensNone :=
  fun _ _ => inferInstanceAs (Decidable (_ → _))

/-- The target of an include line. -/
inductive IncludeTarget where
  /-- In angle brackets. -/
  | angle (s : Text)
  /-- In quotes. -/
  | quoted (s : Text)
deriving Repr, DecidableEq

namespace IncludeTarget

def text : IncludeTarget → Text
  | angle s => "<" ++ s ++ ">"
  | quoted s => "\"" ++ s ++ "\""

/-- The target is closed by the first mark that can close it, and stands in
one line. -/
def WellFormed : IncludeTarget → Prop
  | angle s => ('>' : Byte) ∉ s ∧ ('\n' : Byte) ∉ s
  | quoted s => ('"' : Byte) ∉ s ∧ ('\n' : Byte) ∉ s ∧ ('\r' : Byte) ∉ s

/-- No byte of the target is lost: it has no white space, no quotes and no
comment between angle brackets, and no backslash between quotes. -/
def Plain : IncludeTarget → Prop
  | angle s => (∀ b ∈ s, b.Solid) ∧ s.IsChain Byte.OpensNone
  | quoted s => ('\\' : Byte) ∉ s

instance : DecidablePred Plain
  | angle _ => inferInstanceAs (Decidable (_ ∧ _))
  | quoted _ => inferInstanceAs (Decidable (_ ∉ _))

instance : DecidablePred WellFormed
  | angle _ => inferInstanceAs (Decidable (_ ∧ _))
  | quoted _ => inferInstanceAs (Decidable (_ ∧ _ ∧ _))

end IncludeTarget

/-- Up to the first line feed there is nothing but white space. -/
def BlankToEnd (s : Text) : Prop :=
  ∀ b ∈ s.takeWhile fun b : Byte => b != '\n', Byte.isSpace b = true

instance (s : Text) : Decidable (BlankToEnd s) :=
  inferInstanceAs (Decidable (∀ b ∈ s.takeWhile _, _))

/-! ## String literals -/

theorem Literal.head? {behind span value : Text}
    (h : Literal behind span value) : span.head? = some ('"' : Byte) := by
  cases h <;> rfl

namespace Piece

theorem value_stringBody_byte {a : Byte} {rest : Text} (more : rest ≠ [])
    (quote : a ≠ '"') (ends : ¬(a = '\n' ∨ a = '\r')) (other : a ≠ '\\') :
    (stringBody (a :: rest)).2.1 = a :: (stringBody rest).2.1 := by
  cases rest with
  | nil => exact absurd rfl more
  | cons b rest => rw [stringBody, if_neg quote, if_neg ends, if_neg other]

theorem value_stringBody_escape (b : Byte) (rest : Text) :
    (stringBody ('\\' :: b :: rest)).2.1 =
      unescape b :: (stringBody rest).2.1 := by
  rw [stringBody, if_neg (by decide), if_neg (by decide), if_pos rfl]

/-- A text between quotes is its own value, unless it has a backslash: then
the value is shorter, or takes in the closing quote. -/
theorem value_stringBody_cases (after : Text) :
    ∀ s : Text, IncludeTarget.WellFormed (.quoted s) →
    let value := (stringBody (s ++ ('"' : Byte) :: after)).2.1
    value = s ∧ ('\\' : Byte) ∉ s ∨
      ('\\' : Byte) ∈ s ∧ (value.length < s.length ∨ ('"' : Byte) ∈ value)
  | [], _ => by cases after <;> simp [stringBody]
  | a :: s, ⟨quote, feed, ret⟩ => by
    simp only [List.mem_cons, not_or] at quote feed ret
    by_cases escapes : a = '\\'
    · subst escapes
      refine .inr ⟨List.mem_cons_self, ?_⟩
      cases s with
      | nil =>
        rw [List.singleton_append, value_stringBody_escape]
        exact .inr List.mem_cons_self
      | cons b s =>
        simp only [List.mem_cons, not_or] at quote feed ret
        have later :=
          value_stringBody_cases after s ⟨quote.2.2, feed.2.2, ret.2.2⟩
        rw [List.cons_append, List.cons_append, value_stringBody_escape]
        rcases later with ⟨same, -⟩ | ⟨-, shorter | reaches⟩
        · exact .inl (by simp [same])
        · exact .inl (by simp only [List.length_cons]; omega)
        · exact .inr (List.mem_cons_of_mem _ reaches)
    · have later := value_stringBody_cases after s ⟨quote.2, feed.2, ret.2⟩
      have ends : ¬(a = '\n' ∨ a = '\r') :=
        not_or.mpr ⟨Ne.symm feed.1, Ne.symm ret.1⟩
      rw [List.cons_append,
        value_stringBody_byte (by simp) (Ne.symm quote.1) ends escapes]
      rcases later with ⟨same, none_escapes⟩ | ⟨inside, shorter | reaches⟩
      · exact .inl ⟨by rw [same], by simp [none_escapes, Ne.symm escapes]⟩
      · exact .inr
          ⟨List.mem_cons_of_mem _ inside, .inl (by simpa using shorter)⟩
      · exact .inr ⟨List.mem_cons_of_mem _ inside,
          .inr (List.mem_cons_of_mem _ reaches)⟩

/-- A text between quotes is its own value iff it has no backslash. -/
theorem value_stringBody_eq_iff {s : Text}
    (h : IncludeTarget.WellFormed (.quoted s)) (after : Text) :
    (stringBody (s ++ ('"' : Byte) :: after)).2.1 = s ↔
      IncludeTarget.Plain (.quoted s) := by
  rcases value_stringBody_cases after s h with ⟨same, plain⟩ | ⟨inside, other⟩
  · exact iff_of_true same plain
  · refine iff_of_false (fun same => ?_) (fun plain => plain inside)
    rw [same] at other
    exact other.elim (Nat.lt_irrefl _) h.1

end Piece

/-! ## Tokens without gaps -/

namespace Token

variable {kind : Kind} {s : Text}

/-- A token but a string literal has neither white space nor quotes. -/
theorem Kind.Spells.solid (h : kind.Spells s) (plain : kind ≠ .string) :
    ∀ b ∈ s, Byte.Solid b := by
  have ofNumber : ∀ b : Byte, Piece.isNumberByte b = true → b.Solid :=
    Byte.forall_of_lt (P := fun b => Piece.isNumberByte b = true → b.Solid)
      (by decide +kernel)
  have ofName : ∀ b : Byte, Piece.isNameByte b = true → b.Solid :=
    Byte.forall_of_lt (P := fun b => Piece.isNameByte b = true → b.Solid)
      (by decide +kernel)
  cases h with
  | eof => simp
  | identifier _ bytes => exact fun b inside => ofName b (bytes b inside)
  | integer _ bytes => exact fun b inside => ofNumber b (bytes b inside)
  | string => exact absurd rfl plain
  | scope => decide +kernel
  | mark single =>
    intro b inside
    obtain rfl := List.mem_singleton.mp inside
    exact ⟨single.notSpace, single.notQuote⟩

/-- A mark that stands alone stands alone in each token that has it. -/
theorem Kind.Spells.eq_of_mem (h : kind.Spells s)
    (plain : kind ≠ .string) {b : Byte}
    (alone :
      Piece.isNumberByte b = false ∧ Piece.isNameByte b = false ∧ b ≠ ':')
    (inside : b ∈ s) : s = [b] ∧ Kind.ofByte b = kind := by
  cases h with
  | eof => cases inside
  | identifier _ bytes => exact absurd (bytes b inside) (by simp [alone])
  | integer _ bytes => exact absurd (bytes b inside) (by simp [alone])
  | string => exact absurd rfl plain
  | scope => exact absurd inside (by simpa [Text.ofString] using alone.2.2)
  | mark single same =>
    obtain rfl := List.mem_singleton.mp inside
    exact ⟨rfl, same⟩

theorem Kind.Spells.eq_greater {s : Text} (h : Kind.greater.Spells s) :
    s = ">" := by
  cases h with
  | @mark b _ _ same =>
    have isGreater : Kind.ofByte b = .greater → b = '>' :=
      Byte.forall_of_lt (P := fun b => Kind.ofByte b = .greater → b = '>')
        (by decide +kernel) b
    exact congrArg (fun b => [b]) (isGreater same)

theorem isChain_opensNone {s : Text} (none_inside : ('/' : Byte) ∉ s)
    (behind : Text) : (s ++ behind.take 1).IsChain Byte.OpensNone := by
  induction s with
  | nil => cases behind <;> simp
  | cons a s ih =>
    simp only [List.mem_cons, not_or] at none_inside
    rw [List.cons_append, List.isChain_cons]
    exact ⟨fun _ _ slash => absurd slash.symm none_inside.1, ih none_inside.2⟩

/-- No comment starts in a token or at its end. -/
theorem Spans.isChain {t : Token} {span behind : Text}
    (h : t.Spans span behind) (plain : t.kind ≠ .string) :
    (span ++ behind.take 1).IsChain Byte.OpensNone := by
  have fits := h.plain plain ▸ h.fits
  by_cases slash : ('/' : Byte) ∈ span
  · obtain ⟨rfl, kind⟩ := fits.eq_of_mem plain (by decide) slash
    have ends := h.longest
    rw [← kind] at ends
    cases behind with
    | nil => simp
    | cons b behind =>
      have apart : Byte.OpensNone '/' b := fun _ => ends b rfl
      simpa using apart
  · exact isChain_opensNone slash behind

/-- The text of a token is no longer than its span, and shorter only for a
string literal. -/
theorem Spans.length_text_le {t : Token}
    {span behind : Text} (h : t.Spans span behind) :
    t.text.length ≤ span.length ∧
    (t.text.length = span.length → t.kind ≠ .string) := by
  by_cases string : t.kind = .string
  · have shorter := (h.literal string).length_lt
    exact ⟨by omega, fun same => by omega⟩
  · exact ⟨by rw [h.plain string], fun _ => string⟩

theorem isChain_append_take {R : Byte → Byte → Prop}
    {s t behind : Text} (h : (s ++ (t ++ behind).take 1).IsChain R)
    (h' : (t ++ behind.take 1).IsChain R) :
    (s ++ t ++ behind.take 1).IsChain R := by
  cases t with
  | nil => simpa using h
  | cons b t =>
    have overlap : (s ++ [b] ++ (t ++ behind.take 1)).IsChain R :=
      List.IsChain.append_overlap h h' (by simp)
    simpa using overlap

/-- The stretch in front of a token is no shorter than the texts of the tokens
in it. If it is as long, it has no white space and no quotes, and no comment
starts in it. -/
theorem Covers.split {file before text : Text} {inside more : List Token}
    {closing : Token} (h : Covers file before text (inside ++ closing :: more))
    (notEnd : closing.kind ≠ .eof) :
    ∃ taken span rest,
      text = taken ++ (span ++ rest) ∧ closing.Spans span rest ∧
      closing.location = ⟨file, Position.behind (before ++ taken)⟩ ∧
      (inside.flatMap Token.text).length ≤ taken.length ∧
      ((inside.flatMap Token.text).length = taken.length →
        (∀ b ∈ taken, b.Solid) ∧
        (taken ++ (span ++ rest).take 1).IsChain Byte.OpensNone) := by
  induction inside generalizing before text with
  | nil =>
    cases h with
    | done => exact absurd rfl notEnd
    | @token _ gap span rest _ _ _ spans place _ =>
      refine ⟨gap, span, rest, by simp, spans, place, Nat.zero_le _,
        fun same => ?_⟩
      obtain rfl : gap = [] := List.length_eq_zero_iff.mp same.symm
      exact ⟨by simp, isChain_opensNone (by simp) _⟩
  | cons t inside ih =>
    generalize whole : t :: inside ++ closing :: more = tokens at h
    cases h with
    | done => simp at whole
    | @token _ gap span rest _ _ _ spans place later =>
      obtain ⟨rfl, rfl⟩ := List.cons.inj whole
      obtain ⟨taken, closingSpan, last, rfl, closes, there, shorter, tight⟩ :=
        ih later
      obtain ⟨own, ownTight⟩ := spans.length_text_le
      refine ⟨gap ++ span ++ taken, closingSpan, last, by simp, closes,
        by simpa using there, ?_, fun same => ?_⟩
      · simp only [List.flatMap_cons, List.length_append]
        omega
      · simp only [List.flatMap_cons, List.length_append] at same
        obtain rfl : gap = [] := List.length_eq_zero_iff.mp (by omega)
        rw [List.length_nil] at same
        have plain := ownTight (by omega)
        obtain ⟨solid, chain⟩ := tight (by omega)
        have fits := spans.plain plain ▸ spans.fits
        exact ⟨List.forall_mem_append.mpr ⟨fits.solid plain, solid⟩,
          isChain_append_take (spans.isChain plain) chain⟩

/-- In front of a text without white space and comments nothing is skipped. -/
theorem eq_nil_of_skipped {s gap behind after : Text}
    (skipped : Skipped behind gap)
    (whole : gap ++ behind = s ++ ('>' : Byte) :: after)
    (plain : IncludeTarget.Plain (.angle s)) : gap = [] := by
  obtain ⟨solid, chain⟩ := plain
  have first {b : Byte} {rest : Text}
      (starts : s ++ ('>' : Byte) :: after = b :: rest) : b.Solid := by
    cases s with
    | nil =>
      obtain ⟨rfl, -⟩ := List.cons.inj starts
      decide
    | cons c s =>
      obtain ⟨rfl, -⟩ := List.cons.inj starts
      exact solid _ List.mem_cons_self
  have second {b : Byte} {rest : Text}
      (starts : s ++ ('>' : Byte) :: after = ('/' : Byte) :: b :: rest) :
      b ≠ '/' ∧ b ≠ '*' := by
    match s, starts with
    | [c], starts =>
      obtain ⟨-, same⟩ := List.cons.inj starts
      obtain ⟨rfl, -⟩ := List.cons.inj same
      decide
    | c :: d :: s, starts =>
      obtain ⟨slash, same⟩ := List.cons.inj starts
      obtain ⟨rfl, -⟩ := List.cons.inj same
      exact (List.isChain_cons_cons.mp chain).1 slash
  cases skipped with
  | nil => rfl
  | space blank =>
    have := (first whole.symm).1
    simp [blank] at this
  | line => exact absurd rfl (second whole.symm).1
  | block => exact absurd rfl (second whole.symm).2
  | unclosed => exact absurd rfl (second whole.symm).2

/-- A token that starts in front of the first `>` ends in front of it, or is
that mark. -/
theorem Spans.before_greater {t : Token} {span rest s after : Text}
    (h : t.Spans span rest) (whole : span ++ rest = s ++ ('>' : Byte) :: after)
    (plain : t.kind ≠ .string) (first : ('>' : Byte) ∉ s) :
    s = [] ∧ span = ">" ∧ t.kind = .greater ∨ ∃ s', s = span ++ s' ∧
      rest = s' ++ ('>' : Byte) :: after ∧ t.kind ≠ .greater := by
  have fits := h.plain plain ▸ h.fits
  by_cases mark : ('>' : Byte) ∈ span
  · obtain ⟨rfl, kind⟩ := fits.eq_of_mem plain (by decide) mark
    left
    cases s with
    | nil => exact ⟨rfl, rfl, kind.symm⟩
    | cons b s =>
      obtain ⟨rfl, -⟩ := List.cons.inj whole
      exact absurd List.mem_cons_self first
  · right
    have kind : t.kind ≠ .greater := by
      intro greater
      rw [greater] at fits
      exact mark (fits.eq_greater ▸ by decide)
    obtain ⟨s', same, left⟩ | ⟨past, same, left⟩ :=
      List.append_eq_append_iff.mp whole
    · exact ⟨s', same, left, kind⟩
    · cases past with
      | nil => exact ⟨[], by simp [same], left.symm, kind⟩
      | cons b past =>
        obtain ⟨rfl, -⟩ := List.cons.inj left
        exact absurd (by simp [same]) mark

theorem line_behind_append (before : Text) {s : Text} (h : ('\n' : Byte) ∉ s) :
    (Position.behind (before ++ s)).line = (Position.behind before).line := by
  simp [Position.behind, List.count_append, List.count_eq_zero.mpr h]

/-- A text without white space, quotes and comments is taken as it is by the
tokens up to the first `>`. -/
theorem Covers.plain {file before text : Text}
    {tokens : List Token} (h : Covers file before text tokens)
    {s after : Text} (whole : text = s ++ ('>' : Byte) :: after)
    (single : IncludeTarget.WellFormed (.angle s))
    (plain : IncludeTarget.Plain (.angle s)) :
    ∃ (inside : List Token) (closing : Token) (more : List Token),
      tokens = inside ++ closing :: more ∧ inside.flatMap Token.text = s ∧
      (∀ t ∈ inside, t.kind ≠ .eof ∧
          t.line = (Position.behind before).line ∧ t.kind ≠ .greater) ∧
      closing.kind = .greater ∧ closing.text = ">" ∧
      closing.line = (Position.behind before).line := by
  induction h generalizing s with
  | done gap =>
    obtain rfl := eq_nil_of_skipped gap (by simpa using whole) plain
    simp at whole
  | @token before gap span rest t ts skipped spans place _ ih =>
    obtain rfl := eq_nil_of_skipped skipped (by simpa using whole) plain
    rw [List.append_nil] at place
    have noString : t.kind ≠ .string := by
      intro string
      have quote := (spans.literal string).head?
      have first := congrArg List.head? whole
      rw [List.nil_append, List.head?_append, quote] at first
      cases s with
      | nil => exact absurd (Option.some.inj first) (by decide)
      | cons b s =>
        exact (plain.1 b List.mem_cons_self).2 (Option.some.inj first).symm
    obtain ⟨rfl, rfl, kind⟩ | ⟨s', rfl, rfl, kind⟩ :=
      spans.before_greater whole noString single.1
    · exact ⟨[], t, ts, rfl, rfl, by simp, kind, spans.plain noString,
        by rw [line, place]; rfl⟩
    · have single' : IncludeTarget.WellFormed (.angle s') := by
        simpa [IncludeTarget.WellFormed]
          using ⟨mt (List.mem_append_right span) single.1,
            mt (List.mem_append_right span) single.2⟩
      have plain' : IncludeTarget.Plain (.angle s') :=
        ⟨fun b inside => plain.1 b (List.mem_append_right span inside),
          plain.2.right_of_append⟩
      obtain ⟨inside, closing, more, rfl, texts, between, closes, text, same⟩ :=
        ih rfl single' plain'
      rw [List.append_nil,
        line_behind_append _ (mt (List.mem_append_left s') single.2)]
        at between same
      refine ⟨t :: inside, closing, more, rfl,
        by simp [texts, spans.plain noString], ?_, closes, text, same⟩
      exact List.forall_mem_cons.mpr
        ⟨⟨spans.notEnd, by rw [line, place]; rfl, kind⟩, between⟩

/-- On a line on which nothing but white space follows, the first `>` is the
only one that can close a target there. -/
theorem eq_of_closed {s after taken rest : Text}
    (whole : s ++ ('>' : Byte) :: after = taken ++ ('>' : Byte) :: rest)
    (single : IncludeTarget.WellFormed (.angle s)) (blank : BlankToEnd after)
    (oneLine : ('\n' : Byte) ∉ taken) : taken = s := by
  obtain ⟨between, rfl, same⟩ | ⟨between, rfl, same⟩ :=
    List.append_eq_append_iff.mp whole
  · cases between with
    | nil => simp
    | cons b between =>
      obtain ⟨rfl, rfl⟩ := List.cons.inj same
      have inLine :
          ('>' : Byte) ∈ (between ++ ('>' : Byte) :: rest).takeWhile
              fun b : Byte => b != '\n' := by
        have all : ∀ b ∈ between, (b != ('\n' : Byte)) = true := by
          intro b inside
          simpa using fun feed : b = '\n' => oneLine (by simp [← feed, inside])
        rw [List.takeWhile_append_of_pos all]
        exact List.mem_append_right _ List.mem_cons_self
      exact absurd (blank _ inLine) (by decide)
  · cases between with
    | nil => simp
    | cons b between =>
      obtain ⟨rfl, -⟩ := List.cons.inj same
      exact absurd (by simp) single.1

/-- If the tokens up to a `>` on the line say what is written in front of the
first one there, then it is that one, and nothing in front of it is lost. -/
theorem Covers.plain_of_texts {file before s after : Text}
    {inside more : List Token} {closing : Token}
    (h : Covers file before (s ++ ('>' : Byte) :: after)
        (inside ++ closing :: more))
    (single : IncludeTarget.WellFormed (.angle s)) (blank : BlankToEnd after)
    (few : after.count ('\n' : Byte) < UInt32.size)
    (closes : closing.kind = .greater)
    (same : closing.line = (Position.behind before).line)
    (texts : inside.flatMap Token.text ++ closing.text = s ++ ">") :
    IncludeTarget.Plain (.angle s) := by
  obtain ⟨taken, span, rest, whole, spans, place, -, tight⟩ :=
    h.split (by simp [closes])
  have text : closing.text = ">" := (closes ▸ spans.fits).eq_greater
  obtain rfl : span = ">" := by rw [← spans.plain (by simp [closes]), text]
  have oneLine : ('\n' : Byte) ∉ taken := by
    have feeds := congrArg (List.count ('\n' : Byte)) whole
    have lines := congrArg UInt32.toNat same
    rw [Token.line, place] at lines
    simp only [Location.line, Position.behind,
      List.count_append, UInt32.toNat_ofNat']
      at lines
    rw [UInt32.size] at few
    simp only [List.count_append, List.count_cons,
      List.count_eq_zero.mpr single.2]
      at feeds
    rw [if_neg (by decide)] at feeds
    rw [← List.count_eq_zero]
    omega
  obtain rfl := eq_of_closed whole single blank oneLine
  rw [text, List.append_cancel_right_eq] at texts
  obtain ⟨solid, chain⟩ := tight (congrArg List.length texts)
  exact ⟨solid, chain.left_of_append⟩

end Token

end MirrorAdapter
