import MirrorAdapter.Name.Identifier
import MirrorAdapter.Token.Lexer
import Mathlib.Data.List.TakeWhile

/-!
# Lexemes

What the text of a token can be, kind by kind, when the token comes from a
text: a word consists of name bytes, a mark is a single byte that starts no
word, and `::` is the only mark of two bytes. Names that files declare are
words, so nothing in them has a meaning in paths or qualified names.
-/
namespace MirrorAdapter

/-- What holds of the bytes with these numbers holds of every byte. -/
theorem Byte.forall_of_lt {P : Byte → Prop}
    (h : ∀ n < 256, P (UInt8.ofNat n)) (b : Byte) : P b := by
  have here := h b.toNat b.toNat_lt
  rwa [UInt8.ofNat_toNat] at here

theorem Byte.isDigit_eq_false_of_isAlpha {b : Byte} :
    Byte.isAlpha b = true → Byte.isDigit b = false :=
  Byte.forall_of_lt
    (P := fun b => Byte.isAlpha b = true → Byte.isDigit b = false)
    (by decide +kernel) b

namespace Name

/-- The text can be a name: it has a byte, and each of its bytes can stand in
a name. -/
structure IsName (s : Text) : Prop where
  nonempty : s ≠ []
  bytes : ∀ b ∈ s, isNameByte b = true

instance (s : Text) : Decidable (IsName s) :=
  decidable_of_iff (s ≠ [] ∧ s.all isNameByte = true)
    ⟨fun h => ⟨h.1, List.all_eq_true.mp h.2⟩,
      fun h => ⟨h.nonempty, List.all_eq_true.mpr h.bytes⟩⟩

theorem IsName.not_mem {s : Text} (h : IsName s) {b : Byte}
    (foreign : isNameByte b = false) : b ∉ s := by
  intro inside
  rw [h.bytes b inside] at foreign
  cases foreign

end Name

namespace Token

/-- A byte that is a token of its own wherever it does not go with the byte
behind it. -/
structure IsMark (b : Byte) : Prop where
  notSpace : b.isSpace = false
  notWord : Piece.isNameByte b = false
  notQuote : b ≠ '"'

/-- The text can be that of a token of the kind. -/
inductive Kind.Spells : Kind → Text → Prop
  | eof : Spells .eof []
  | identifier {b : Byte} {rest : Text} :
      b.isDigit = false → (∀ c ∈ b :: rest, Piece.isNameByte c = true) →
      Spells .identifier (b :: rest)
  | integer {b : Byte} {rest : Text} :
      b.isDigit = true → (∀ c ∈ b :: rest, Piece.isNumberByte c = true) →
      Spells .integer (b :: rest)
  | string (s : Text) : Spells .string s
  | scope : Spells .scope "::"
  | mark {b : Byte} {k : Kind} : IsMark b → Kind.ofByte b = k → Spells k [b]

/-- The kinds of tokens that are no single byte. -/
def Kind.isLong : Kind → Bool
  | .eof | .identifier | .integer | .string | .scope => true
  | _ => false

theorem Kind.isLong_ofByte (b : Byte) : (Kind.ofByte b).isLong = false :=
  Byte.forall_of_lt (P := fun b => (Kind.ofByte b).isLong = false)
    (by decide +kernel) b

theorem isNumberByte_of_isDigit {b : Byte} (h : b.isDigit = true) :
    Piece.isNumberByte b = true := by
  simp [Piece.isNumberByte, Byte.isAlphanumeric, h]

theorem isNameByte_eq_false_iff (b : Byte) :
    Piece.isNameByte b = false ↔
      ¬(b.isAlpha = true ∨ b = '_') ∧ ¬b.isDigit = true := by
  simp only [Piece.isNameByte, Byte.isAlphanumeric, Bool.or_eq_false_iff,
    beq_eq_false_iff_ne, not_or, Bool.not_eq_true]
  exact and_right_comm

end Token

namespace Piece

/-- The ways to cut the first piece off a text, one for each kind of piece:
what the text begins with, and the piece with what follows it. -/
inductive Cut : Byte → Text → Piece × Text → Prop
  | space {b : Byte} {rest : Text} :
      b.isSpace = true → Cut b rest (⟨[b], none⟩, rest)
  | name {b : Byte} {rest : Text} :
      b.isSpace = false → b.isAlpha = true ∨ b = '_' →
      Cut b rest (word .identifier isNameByte b rest)
  | number {b : Byte} {rest : Text} :
      b.isSpace = false → ¬(b.isAlpha = true ∨ b = '_') → b.isDigit = true →
      Cut b rest (word .integer isNumberByte b rest)
  | string (rest : Text) :
      Cut '"' rest
        (⟨'"' :: (stringBody rest).1, some (.string, (stringBody rest).2.1)⟩,
          (stringBody rest).2.2)
  | line (body : Text) :
      Cut '/' ('/' :: body) (⟨'/' :: '/' :: body.takeWhile (· != '\n'), none⟩,
        body.dropWhile (· != '\n'))
  | block (body : Text) :
      Cut '/' ('*' :: body)
        (⟨'/' :: '*' :: (blockComment body).1, none⟩, (blockComment body).2)
  | scope (body : Text) :
      Cut ':' (':' :: body) (⟨[':', ':'], some (.scope, [':', ':'])⟩, body)
  | mark {b : Byte} {rest : Text} :
      Token.IsMark b → (b = '/' → ∀ c ∈ rest.head?, c ≠ '/' ∧ c ≠ '*') →
      (b = ':' → ∀ c ∈ rest.head?, c ≠ ':') → Cut b rest (mark b rest)

theorem cut_next (b : Byte) (rest : Text) : Cut b rest (next b rest) := by
  unfold next
  split
  · exact .space ‹_›
  rename_i space
  have space : b.isSpace = false := by simpa using space
  split
  · exact .name space ‹_›
  rename_i letter
  split
  · exact .number space letter ‹_›
  rename_i digit
  split
  · rename_i quote
    subst quote
    exact .string rest
  rename_i quote
  have isMark : Token.IsMark b :=
    ⟨space, (Token.isNameByte_eq_false_iff b).mpr ⟨letter, digit⟩, quote⟩
  cases rest with
  | nil => exact .mark isMark (by simp) (by simp)
  | cons c body =>
    dsimp only
    split
    · rename_i slashes
      obtain ⟨rfl, rfl⟩ := slashes
      exact .line body
    rename_i line
    split
    · rename_i opens
      obtain ⟨rfl, rfl⟩ := opens
      exact .block body
    rename_i block
    split
    · rename_i colons
      obtain ⟨rfl, rfl⟩ := colons
      exact .scope body
    rename_i colons
    exact .mark isMark
      (fun slash => by
        simpa using ⟨fun same => line ⟨slash, same⟩,
          fun same => block ⟨slash, same⟩⟩)
      (fun colon => by simpa using fun same => colons ⟨colon, same⟩)

/-- There is one way to cut. -/
theorem Cut.next_eq {b : Byte} {rest : Text} {cut : Piece × Text}
    (h : Cut b rest cut) : next b rest = cut := by
  cases h with
  | space space =>
    unfold next
    rw [if_pos space]
  | name space letter =>
    unfold next
    rw [if_neg (by simp [space]), if_pos letter]
  | number space letter digit =>
    unfold next
    rw [if_neg (by simp [space]), if_neg letter, if_pos digit]
  | string => rfl
  | line => rfl
  | block => rfl
  | scope => rfl
  | mark isMark slash colon =>
    obtain ⟨letter, digit⟩ :=
      (Token.isNameByte_eq_false_iff b).mp isMark.notWord
    unfold next
    rw [if_neg (by simp [isMark.notSpace]), if_neg letter, if_neg digit,
      if_neg isMark.notQuote]
    cases rest with
    | nil => rfl
    | cons c body =>
      dsimp only
      rw [if_neg fun both => (slash both.1 c rfl).1 both.2,
        if_neg fun both => (slash both.1 c rfl).2 both.2,
        if_neg fun both => colon both.1 c rfl both.2]

end Piece

namespace Token

/-- The token of a piece has a text that fits its kind. -/
theorem spells_next {b : Byte} {rest : Text} {k : Kind} {s : Text}
    (h : (Piece.next b rest).1.token = some (k, s)) : k.Spells s := by
  have cut := Piece.cut_next b rest
  generalize Piece.next b rest = next at h cut
  cases cut with
  | space | line | block => cases h
  | name _ letter =>
    obtain ⟨rfl, rfl⟩ := Prod.mk.inj (Option.some.inj h)
    have first : Piece.isNameByte b = true := by
      rcases letter with alpha | rfl
      · simp [Piece.isNameByte, Byte.isAlphanumeric, alpha]
      · rfl
    refine .identifier ?_
      (List.forall_mem_cons.mpr ⟨first, fun c => List.mem_takeWhile_imp⟩)
    rcases letter with alpha | rfl
    · exact Byte.isDigit_eq_false_of_isAlpha alpha
    · rfl
  | number _ _ digit =>
    obtain ⟨rfl, rfl⟩ := Prod.mk.inj (Option.some.inj h)
    exact .integer digit (List.forall_mem_cons.mpr
        ⟨isNumberByte_of_isDigit digit, fun c => List.mem_takeWhile_imp⟩)
  | string =>
    obtain ⟨rfl, rfl⟩ := Prod.mk.inj (Option.some.inj h)
    exact .string _
  | scope =>
    obtain ⟨rfl, rfl⟩ := Prod.mk.inj (Option.some.inj h)
    exact .scope
  | mark isMark =>
    obtain ⟨rfl, rfl⟩ := Prod.mk.inj (Option.some.inj h)
    exact .mark isMark rfl

/-- Every piece of a text that is a token has a text that fits its kind. -/
theorem spells_of_mem_pieces {text : Text} {piece : Piece}
    (h : piece ∈ pieces text) {k : Kind} {s : Text}
    (token : piece.token = some (k, s)) : k.Spells s := by
  fun_induction pieces text with
  | case1 => cases h
  | case2 b rest _ ih =>
    rcases List.mem_cons.mp h with rfl | later
    · exact spells_next token
    · exact ih later

/-- The text of the token fits its kind. -/
def Lexical (t : Token) : Prop := t.kind.Spells t.text

theorem lexical_of_mem_locate {file : Text} {p : Position} {ps : List Piece}
    (h : ∀ piece ∈ ps, ∀ k s, piece.token = some (k, s) → k.Spells s)
    {t : Token} (found : t ∈ locate file p ps) : t.Lexical := by
  induction ps generalizing p with
  | nil =>
    rw [List.mem_singleton.mp found]
    exact .eof
  | cons piece ps ih =>
    rw [List.forall_mem_cons] at h
    rw [locate] at found
    split at found
    · exact ih h.2 found
    · rename_i k s token
      rcases List.mem_cons.mp found with rfl | later
      · exact h.1 k s token
      · exact ih h.2 later

/-- The tokens of a text have texts that fit their kinds. -/
theorem lexical_of_mem_scan {file text : Text} {t : Token}
    (h : t ∈ scan file text) : t.Lexical :=
  lexical_of_mem_locate
    (fun _ found _ _ token => spells_of_mem_pieces found token) h

theorem Lexical.isName {t : Token} (h : t.Lexical)
    (kind : t.kind = .identifier) : Name.IsName t.text := by
  unfold Lexical at h
  rw [kind] at h
  generalize t.text = s at h
  cases h with
  | identifier _ bytes => exact ⟨by simp, bytes⟩
  | mark _ single =>
    have := Kind.isLong_ofByte _ ▸ congrArg Kind.isLong single
    cases this

end Token
end MirrorAdapter
