import Mathlib.Data.List.Chain
import MirrorAdapter.Proofs.Relocation.Tokens
import MirrorAdapter.Proofs.Spans
import MirrorAdapter.Token.Spelling

/-!
# Scanning spellings

A spelling has few blanks in it: only words are kept apart. Where no two
tokens in it run together, the text has the tokens again that were spelled,
and nothing else.
-/
namespace MirrorAdapter
namespace Token

/-- What a token is, wherever it stands. -/
def lexeme (t : Token) : Kind × Text := (t.kind, t.text)

/-- Some text has such a token. -/
def Scanned (t : Token) : Prop :=
  ∃ file text, ∃ u ∈ scan file text, u.lexeme = t.lexeme

/-- The second token can be written directly behind the first: two colons
would become `::`, a slash would start a comment, and a quote would belong to
the number before it. -/
def Apart (t u : Token) : Prop :=
  (t.kind = .colon → u.kind ≠ .colon ∧ u.kind ≠ .scope) ∧
    (t.kind = .slash → u.kind ≠ .slash ∧ u.kind ≠ .star) ∧
    (t.kind = .integer → ¬(u.kind = .unknown ∧ u.text = "'"))

instance (t u : Token) : Decidable (Apart t u) :=
  inferInstanceAs
    (Decidable ((t.kind = .colon → u.kind ≠ .colon ∧ u.kind ≠ .scope) ∧
      (t.kind = .slash → u.kind ≠ .slash ∧ u.kind ≠ .star) ∧
      (t.kind = .integer → ¬(u.kind = .unknown ∧ u.text = "'"))))

/-- A token of a text that is neither a string literal nor the end of a
file. -/
structure Plain (t : Token) : Prop where
  scanned : t.Scanned
  noString : t.kind ≠ .string
  noEnd : t.kind ≠ .eof

/-- Tokens that are known by what is written for them, of which none runs
together with the next. -/
structure Respellable (ts : List Token) : Prop where
  plain : ∀ t ∈ ts, t.Plain
  apart : ts.IsChain Apart

theorem lexical_of_lexeme_eq {t u : Token} (h : t.Lexical)
    (same : t.lexeme = u.lexeme) : u.Lexical := by
  obtain ⟨kind, text⟩ := Prod.mk.inj same
  unfold Lexical at h ⊢
  rwa [← kind, ← text]

theorem Plain.lexical {t : Token} (h : t.Plain) : t.Lexical := by
  obtain ⟨file, text, u, inside, same⟩ := h.scanned
  exact lexical_of_lexeme_eq (lexical_of_mem_scan inside) same

theorem Respellable.tail {t : Token} {ts : List Token}
    (h : Respellable (t :: ts)) : Respellable ts where
  plain u inside := h.plain u (.tail _ inside)
  apart := h.apart.of_cons

/-! ## One token -/

/-- The lexemes of a text. -/
def lexemes (s : Text) : List (Kind × Text) :=
  (pieces s).filterMap Piece.token

theorem map_lexeme_scan (file text : Text) :
    (scan file text).map lexeme = lexemes text ++ [(.eof, [])] := by
  suffices h :
      ∀ p ps, (locate file p ps).map lexeme =
          ps.filterMap Piece.token ++ [(.eof, [])] from h _ _
  intro p ps
  induction ps generalizing p with
  | nil => rfl
  | cons piece ps ih =>
    rw [locate, List.filterMap_cons]
    split
    · rename_i skipped
      rw [skipped]
      exact ih _
    · rename_i kind text token
      rw [token, List.map_cons, ih]
      rfl

theorem lexemes_nil : lexemes [] = [] := by
  rw [lexemes, pieces, List.filterMap_nil]

theorem lexemes_blank (rest : Text) : lexemes (' ' :: rest) = lexemes rest := by
  have cut : Piece.Cut ' ' rest (⟨[' '], none⟩, rest) := .space rfl
  rw [lexemes, pieces, cut.next_eq]
  rfl

theorem takeWhile_dropWhile_word {inside : Byte → Bool}
    {s rest : Text} (all : ∀ b ∈ s, inside b = true)
    (ends : ∀ b ∈ rest.head?, inside b = false) :
    (s ++ rest).takeWhile inside = s ∧ (s ++ rest).dropWhile inside = rest := by
  rw [List.takeWhile_append_of_pos all, List.dropWhile_append_of_pos all]
  cases rest with
  | nil => simp
  | cons b rest => simp [ends b rfl]

/-- A token is read off what it is written as, where it may end in front of
the rest. -/
theorem lexemes_text_append {t : Token} (plain : t.Plain)
    {rest : Text} (ends : t.kind.EndsBefore rest) :
    lexemes (t.text ++ rest) = t.lexeme :: lexemes rest := by
  have lexical : t.kind.Spells t.text := plain.lexical
  obtain ⟨-, noString, noEnd⟩ := plain
  obtain ⟨kind, text, location⟩ := t
  dsimp only at lexical
  suffices h :
      ∃ b more, text ++ rest = b :: more ∧
        Piece.next b more = (⟨text, some (kind, text)⟩, rest) by
    obtain ⟨b, more, whole, next⟩ := h
    show lexemes (text ++ rest) = (kind, text) :: lexemes rest
    rw [lexemes, whole, pieces, next]
    rfl
  cases lexical with
  | eof => exact absurd rfl noEnd
  | string => exact absurd rfl noString
  | @identifier b s letter bytes =>
    obtain ⟨first, others⟩ := List.forall_mem_cons.mp bytes
    have alpha : b.isAlpha = true ∨ b = '_' := by
      by_contra other
      have := (isNameByte_eq_false_iff b).mpr ⟨other, by simp [letter]⟩
      simp [this] at first
    have blank : b.isSpace = false :=
      Byte.forall_of_lt
        (P := fun b => Piece.isNameByte b = true → b.isSpace = false)
        (by decide +kernel) b first
    obtain ⟨taken, left⟩ := takeWhile_dropWhile_word others ends
    refine ⟨b, s ++ rest, rfl, ?_⟩
    rw [(Piece.Cut.name blank alpha).next_eq, Piece.word, taken, left]
  | @integer b s digit bytes =>
    obtain ⟨-, others⟩ := List.forall_mem_cons.mp bytes
    have noLetter : b.isSpace = false ∧ ¬(b.isAlpha = true ∨ b = '_') :=
      Byte.forall_of_lt (P := fun b => b.isDigit = true →
            b.isSpace = false ∧ ¬(b.isAlpha = true ∨ b = '_'))
        (by decide +kernel) b digit
    obtain ⟨taken, left⟩ := takeWhile_dropWhile_word others ends
    refine ⟨b, s ++ rest, rfl, ?_⟩
    rw [(Piece.Cut.number noLetter.1 noLetter.2 digit).next_eq, Piece.word,
      taken, left]
  | scope => exact ⟨':', ':' :: rest, rfl, (Piece.Cut.scope rest).next_eq⟩
  | @mark b _ isMark kind =>
    subst kind
    refine ⟨b, rest, rfl, (Piece.Cut.mark isMark ?_ ?_).next_eq⟩
    · rintro rfl
      exact ends
    · rintro rfl
      exact ends

theorem lexemes_written_append {t : Token} (plain : t.Plain)
    {rest : Text} (ends : t.kind.EndsBefore rest) :
    lexemes (t.written ++ rest) = t.lexeme :: lexemes rest := by
  by_cases comma : t.kind = .comma
  · have blank : t.written ++ rest = t.text ++ ((' ' : Byte) :: rest) := by
      simp only [written, comma]
      exact List.append_assoc t.text [(' ' : Byte)] rest
    rw [blank, lexemes_text_append plain (by simp [comma, Kind.EndsBefore]),
      lexemes_blank]
  · have same : t.written = t.text := by
      unfold written
      split
      · exact absurd ‹_› plain.noString
      · exact absurd ‹_› comma
      · rfl
    rw [same]
    exact lexemes_text_append plain ends

/-! ## Neighbours -/

theorem endsBefore_blank (kind : Kind) (rest : Text) :
    kind.EndsBefore (' ' :: rest) := by
  rintro b ⟨⟩
  cases kind <;> decide

/-- What the first byte of a token says of it. -/
theorem first_text {t : Token} (plain : t.Plain) {rest : Text}
    {b : Byte} (first : b ∈ (t.text ++ rest).head?) :
    (t.kind.isWordLike = true ∧ Piece.isNameByte b = true) ∨
    (t.kind = .scope ∧ b = ':') ∨
    (t.kind = Kind.ofByte b ∧ t.text = [b] ∧ Piece.isNameByte b = false) := by
  have lexical : t.kind.Spells t.text := plain.lexical
  obtain ⟨-, noString, noEnd⟩ := plain
  obtain ⟨kind, text, location⟩ := t
  dsimp only at lexical
  cases lexical with
  | eof => exact absurd rfl noEnd
  | string => exact absurd rfl noString
  | identifier _ bytes =>
    obtain rfl := Option.some.inj first
    exact .inl ⟨rfl, bytes _ (.head _)⟩
  | integer digit =>
    obtain rfl := Option.some.inj first
    exact .inl ⟨rfl, by simp [Piece.isNameByte, Byte.isAlphanumeric, digit]⟩
  | scope =>
    obtain rfl := Option.some.inj first
    exact .inr (.inl ⟨rfl, rfl⟩)
  | mark isMark kind =>
    obtain rfl := Option.some.inj first
    exact .inr (.inr ⟨kind.symm, rfl, isMark.notWord⟩)

/-- Where no blank is put between tokens, the first can end in front of the
second. -/
theorem endsBefore_of_apart {t u : Token} (apart : Apart t u)
    (noBlank : ¬(t.kind.isWordLike && u.kind.isWordLike)) (plain : u.Plain)
    (rest : Text) : t.kind.EndsBefore (u.text ++ rest) := by
  intro b first
  have begins := first_text plain first
  obtain ⟨colon, slash, number⟩ := apart
  have notWord (word : t.kind.isWordLike = true) :
      Piece.isNameByte b = false := by
    rcases begins with ⟨other, -⟩ | ⟨-, rfl⟩ | ⟨-, -, notWord⟩
    · simp [word, other] at noBlank
    · rfl
    · exact notWord
  -- A mark by itself is of the kind that belongs to its byte.
  have mark (foreign : Piece.isNameByte b = false) (notColon : b ≠ ':') :
      u.kind = Kind.ofByte b ∧ u.text = [b] := by
    rcases begins with ⟨-, word⟩ | ⟨-, same⟩ | ⟨kind, text, -⟩
    · simp [foreign] at word
    · exact absurd same notColon
    · exact ⟨kind, text⟩
  cases kind : t.kind with
  | identifier => exact notWord (by rw [kind]; rfl)
  | integer =>
    have foreign := notWord (by rw [kind]; rfl)
    have notQuote : b ≠ '\'' := by
      rintro rfl
      exact number kind (mark foreign (by decide))
    simp only [Piece.isNameByte, Bool.or_eq_false_iff] at foreign
    simp [Piece.isNumberByte, foreign.1, notQuote]
  | slash =>
    constructor
    · rintro rfl
      exact (slash kind).1 (mark rfl (by decide)).1
    · rintro rfl
      exact (slash kind).2 (mark rfl (by decide)).1
  | colon =>
    rintro rfl
    rcases begins with ⟨-, word⟩ | ⟨scope, -⟩ | ⟨same, -⟩
    · cases word
    · exact (colon kind).2 scope
    · exact (colon kind).1 same
  | _ => trivial

/-! ## Token lists -/

theorem endsBefore_nil (kind : Kind) : kind.EndsBefore [] :=
  fun _ first => nomatch first

/-- The spelling of tokens begins with the text of the first one. -/
theorem spell_cons_eq {t : Token} (noString : t.kind ≠ .string)
    (ts : List Token) : ∃ rest, spell (t :: ts) = t.text ++ rest := by
  have written : ∃ rest, t.written = t.text ++ rest := by
    unfold written
    split
    · exact absurd ‹_› noString
    · exact ⟨_, rfl⟩
    · exact ⟨[], (List.append_nil _).symm⟩
  obtain ⟨blank, written⟩ := written
  cases ts with
  | nil => exact ⟨blank, written⟩
  | cons u ts =>
    refine ⟨blank ++ separator t u ++ spell (u :: ts), ?_⟩
    rw [spell, written, List.append_assoc, List.append_assoc, List.append_assoc]

theorem lexemes_spell {ts : List Token} (h : Respellable ts) :
    lexemes (spell ts) = ts.map lexeme := by
  fun_induction spell ts with
  | case1 => exact lexemes_nil
  | case2 t =>
    have whole :=
      lexemes_written_append (h.plain t (.head _)) (endsBefore_nil t.kind)
    rw [List.append_nil, lexemes_nil] at whole
    exact whole
  | case3 t u rest ih =>
    have later := ih h.tail
    have second : u.Plain := h.plain u (.tail _ (.head _))
    suffices split :
        t.kind.EndsBefore (separator t u ++ spell (u :: rest)) ∧
        lexemes (separator t u ++ spell (u :: rest)) =
          lexemes (spell (u :: rest)) by
      rw [List.append_assoc,
        lexemes_written_append (h.plain t (.head _)) split.1, split.2, later]
      rfl
    unfold separator
    split
    · exact ⟨endsBefore_blank _ _, lexemes_blank _⟩
    · rename_i noBlank
      obtain ⟨more, begins⟩ := spell_cons_eq second.noString rest
      refine ⟨?_, rfl⟩
      show t.kind.EndsBefore (spell (u :: rest))
      rw [begins]
      exact endsBefore_of_apart (List.isChain_cons_cons.mp h.apart).1
        noBlank second more

/-- Tokens are spelled by what they are. -/
theorem spell_eq_of_lexemes {ts us : List Token}
    (same : ts.map lexeme = us.map lexeme) : spell ts = spell us := by
  have moved := congrArg spell (map_relocate_eq default same)
  rwa [spell_relocate, spell_relocate] at moved

/-- The end of a file has no spelling. -/
theorem spell_append_end (ts : List Token) {e : Token} (ends : e.kind = .eof)
    (noText : e.text = []) : spell (ts ++ [e]) = spell ts := by
  have written : e.written = [] := by simp [written, ends, noText]
  have separator (t : Token) : separator t e = [] := by
    simp [separator, ends, Kind.isWordLike]
  fun_induction spell ts with
  | case1 => exact written
  | case2 t => simp [spell, separator, written]
  | case3 t u rest ih =>
    rw [← ih]
    rfl

/-- Scanning undoes spelling: the tokens of a spelling are those that were
spelled, and the end of the file. So tokens with the same spelling are the
same but for their places, and what was scanned is spelled as before. -/
theorem scan_spell {ts : List Token} (h : Respellable ts) (file : Text) :
    (scan file (spell ts)).map lexeme = ts.map lexeme ++ [(.eof, [])] ∧
    spell (scan file (spell ts)) = spell ts ∧ ∀ us,
      Respellable us → spell us = spell ts → us.map lexeme = ts.map lexeme := by
  have scanned :
      (scan file (spell ts)).map lexeme = ts.map lexeme ++ [(.eof, [])] := by
    rw [map_lexeme_scan, lexemes_spell h]
  refine ⟨scanned, ?_, ?_⟩
  · have same :
        (scan file (spell ts)).map lexeme =
          (ts ++ [(⟨.eof, [], default⟩ : Token)]).map lexeme := by
      rw [scanned, List.map_append]
      rfl
    rw [spell_eq_of_lexemes same]
    exact spell_append_end ts rfl rfl
  · intro us respellable same
    rw [← lexemes_spell respellable, ← lexemes_spell h, same]

/-- The tokens of a type, which stand side by side but for its words. -/
def arrayType : List Token :=
  scanBody "a.mirror"
    "const ::std :: array < unsigned long, 1'024 > * [ 2 ] /* names */ &"

theorem scan_spell_arrayType :
    Respellable arrayType ∧
    spell arrayType = "const::std::array<unsigned long, 1'024>*[2]&" ∧
    (scan "type" (spell arrayType)).map lexeme =
      arrayType.map lexeme ++ [(.eof, [])] ∧
    spell (scan "type" (spell arrayType)) = spell arrayType := by
  have kinds : ∀ t ∈ arrayType, t.kind ≠ .string ∧ t.kind ≠ .eof := by
    decide +kernel
  have plain : ∀ t ∈ arrayType, t.Plain := by
    intro t inside
    exact ⟨⟨_, _, t, List.dropLast_subset _ inside, rfl⟩,
      (kinds t inside).1, (kinds t inside).2⟩
  have respellable : Respellable arrayType := ⟨plain, by decide +kernel⟩
  obtain ⟨scanned, spelled, -⟩ := scan_spell respellable "type"
  exact ⟨respellable, by decide +kernel, scanned, spelled⟩

end Token
end MirrorAdapter
