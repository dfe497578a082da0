import MirrorAdapter.Token.Basic

/-!
# From text to tokens

A text is cut into pieces: blanks, comments and lexemes. The pieces put
together are the text again (`join_pieces`), so a token's place is found by
counting what stands before its piece. No text is refused: a byte that starts
nothing else is a token of its own, and a string or comment that is not closed
ends with its line or with the text.
-/
namespace MirrorAdapter

/-- A stretch of text, with the kind and text of the token it spells unless it
is skipped. -/
structure Piece where
  raw : Text
  token : Option (Token.Kind × Text)
deriving Repr, DecidableEq, Inhabited

namespace Piece

/-- The inside of a block comment and its end, and what follows. Without an
end it takes everything. -/
def blockComment : Text → Text × Text
  | [] => ([], [])
  | [b] => ([b], [])
  | a :: b :: rest =>
    if a = '*' ∧ b = '/' then ([a, b], rest)
    else
      let (inside, after) := blockComment (b :: rest)
      (a :: inside, after)

/-- What a backslash and a byte stand for in a string literal. -/
def unescape (b : Byte) : Byte :=
  match b.toChar with
  | 'n' => '\n'
  | 't' => '\t'
  | _ => b

/-- What stands after the opening quote of a string literal: the text up to
its end, closing quote included, the value it writes, and what follows. A line
end that no backslash precedes ends it unclosed. -/
def stringBody : Text → Text × Text × Text
  | [] => ([], [], [])
  | [b] =>
    if b = '"' then ([b], [], [])
    else if b = '\n' ∨ b = '\r' then ([], [], [b])
    else ([b], [b], [])
  | a :: b :: rest =>
    if a = '"' then ([a], [], b :: rest)
    else if a = '\n' ∨ a = '\r' then ([], [], a :: b :: rest)
    else if a = '\\' then
      let (raw, value, after) := stringBody rest
      (a :: b :: raw, unescape b :: value, after)
    else
      let (raw, value, after) := stringBody (b :: rest)
      (a :: raw, a :: value, after)

def isNameByte (b : Byte) : Bool := b.isAlphanumeric || b == '_'

/-- Digit separators belong to the number. -/
def isNumberByte (b : Byte) : Bool := b.isAlphanumeric || b == '\''

/-- The token made of a byte and of all following bytes of a class. -/
def word (kind : Token.Kind) (inside : Byte → Bool) (b : Byte)
    (rest : Text) : Piece × Text :=
  let lexeme := b :: rest.takeWhile inside
  (⟨lexeme, some (kind, lexeme)⟩, rest.dropWhile inside)

/-- The token of one byte. -/
def mark (b : Byte) (rest : Text) : Piece × Text :=
  (⟨[b], some (Token.Kind.ofByte b, [b])⟩, rest)

/-- The first piece of a text that starts with the given byte, and what
follows it. -/
def next (b : Byte) (rest : Text) : Piece × Text :=
  if b.isSpace then (⟨[b], none⟩, rest)
  else if b.isAlpha ∨ b = '_' then word .identifier isNameByte b rest
  else if b.isDigit then word .integer isNumberByte b rest
  else if b = '"' then
    let (raw, value, after) := stringBody rest
    (⟨b :: raw, some (.string, value)⟩, after)
  else
    match rest with
    | [] => mark b []
    | c :: body =>
      if b = '/' ∧ c = '/' then
        (⟨b :: c :: body.takeWhile (· != '\n'), none⟩,
          body.dropWhile (· != '\n'))
      else if b = '/' ∧ c = '*' then
        let (inside, after) := blockComment body
        (⟨b :: c :: inside, none⟩, after)
      else if b = ':' ∧ c = ':' then (⟨[b, c], some (.scope, [b, c])⟩, body)
      else mark b rest

theorem blockComment_append (s : Text) :
    (blockComment s).1 ++ (blockComment s).2 = s := by
  fun_induction blockComment s with
  | case1 => rfl
  | case2 => rfl
  | case3 => rfl
  | case4 a b rest _ inside after h ih =>
    rw [h] at ih
    simpa using ih

theorem stringBody_append (s : Text) :
    (stringBody s).1 ++ (stringBody s).2.2 = s := by
  fun_induction stringBody s with
  | case1 => rfl
  | case2 => rfl
  | case3 => rfl
  | case4 => rfl
  | case5 => rfl
  | case6 => rfl
  | case7 b rest raw value after h _ _ ih =>
    rw [h] at ih
    simpa using ih
  | case8 a b rest _ _ _ raw value after h ih =>
    rw [h] at ih
    simpa using ih

/-- The first piece and what follows it make up the text. -/
theorem next_append (b : Byte) (rest : Text) :
    (next b rest).1.raw ++ (next b rest).2 = b :: rest := by
  unfold next
  split
  · rfl
  split
  · simp [word, List.takeWhile_append_dropWhile]
  split
  · simp [word, List.takeWhile_append_dropWhile]
  split
  · simp [stringBody_append]
  cases rest with
  | nil => rfl
  | cons c body =>
    dsimp only
    split
    · simp [List.takeWhile_append_dropWhile]
    split
    · simp [blockComment_append]
    split
    · rfl
    · rfl

theorem next_raw_ne_nil (b : Byte) (rest : Text) :
    (next b rest).1.raw ≠ [] := by
  unfold next
  split
  · simp
  split
  · simp [word]
  split
  · simp [word]
  split
  · simp
  cases rest with
  | nil => simp [mark]
  | cons c body =>
    dsimp only
    split
    · simp
    split
    · simp
    split
    · simp
    · simp [mark]

theorem next_rest_length (b : Byte) (rest : Text) :
    (next b rest).2.length < (b :: rest).length := by
  have whole := congrArg List.length (next_append b rest)
  have first := List.length_pos_iff.mpr (next_raw_ne_nil b rest)
  rw [List.length_append] at whole
  omega

end Piece

/-- The pieces of a text, in order. -/
def pieces : Text → List Piece
  | [] => []
  | b :: rest =>
    have : (Piece.next b rest).2.length < rest.length + 1 :=
      Piece.next_rest_length b rest
    (Piece.next b rest).1 :: pieces (Piece.next b rest).2
termination_by s => s.length

/-- Nothing of the text is lost or added. -/
theorem join_pieces (s : Text) : (pieces s).flatMap Piece.raw = s := by
  fun_induction pieces s with
  | case1 => rfl
  | case2 b rest _ ih =>
    rw [List.flatMap_cons, ih, Piece.next_append]

namespace Token

/-- The tokens of pieces that begin at a position, closed by the end of the
file. -/
def locate (file : Text) (p : Position) : List Piece → List Token
  | [] => [⟨.eof, [], ⟨file, p⟩⟩]
  | piece :: rest =>
    match piece.token with
    | none => locate file (p.after piece.raw) rest
    | some (kind, text) =>
      ⟨kind, text, ⟨file, p⟩⟩ :: locate file (p.after piece.raw) rest

/-- The tokens of a file, the last one marking its end. -/
def scan (file text : Text) : List Token := locate file {} (pieces text)

/-- The tokens of a text without the mark of its end. -/
def scanBody (file text : Text) : List Token := (scan file text).dropLast

end Token
end MirrorAdapter
