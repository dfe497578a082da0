import MirrorAdapter.Location

/-!
# Tokens

The words and marks of a mirror file. Keywords are identifiers, told apart by
their text; brackets come in four pairs, of which `nesting` counts how many a
token opens.
-/
namespace MirrorAdapter

namespace Token

inductive Kind where
  /-- The end of the file. -/
  | eof
  /-- A name or keyword. -/
  | identifier
  /-- A word that starts with a digit. -/
  | integer
  /-- A string literal. -/
  | string
  /-- The mark `#`. -/
  | hash
  /-- The mark `::`. -/
  | scope
  | colon
  | semicolon
  | comma
  | lparen
  | rparen
  | lbracket
  | rbracket
  | lbrace
  | rbrace
  /-- The mark `<`. -/
  | less
  /-- The mark `>`. -/
  | greater
  | equal
  | star
  | amp
  | dot
  | slash
  | tilde
  /-- Any other single byte. -/
  | unknown
deriving Repr, DecidableEq, Inhabited

namespace Kind

/-- The kind of a single byte that starts no longer token. -/
def ofByte (b : Byte) : Kind :=
  match b.toChar with
  | '#' => .hash
  | ':' => .colon
  | ';' => .semicolon
  | ',' => .comma
  | '(' => .lparen
  | ')' => .rparen
  | '[' => .lbracket
  | ']' => .rbracket
  | '{' => .lbrace
  | '}' => .rbrace
  | '<' => .less
  | '>' => .greater
  | '=' => .equal
  | '*' => .star
  | '&' => .amp
  | '.' => .dot
  | '/' => .slash
  | '~' => .tilde
  | _ => .unknown

def isOpener : Kind → Bool
  | .lparen | .lbracket | .lbrace | .less => true
  | _ => false

def isCloser : Kind → Bool
  | .rparen | .rbracket | .rbrace | .greater => true
  | _ => false

/-- How a token changes the number of open brackets, whatever their shapes. -/
def nesting (k : Kind) : Int :=
  if k.isOpener then 1 else if k.isCloser then -1 else 0

/-- Two adjacent tokens of such kinds need a blank between them. -/
def isWordLike : Kind → Bool
  | .identifier | .integer => true
  | _ => false

end Kind
end Token

/-- A token: for a string literal the text is its value, for any other its
spelling. -/
structure Token where
  kind : Token.Kind
  text : Text
  location : Location
deriving Repr, DecidableEq, Inhabited

namespace Token

def line (t : Token) : UInt32 := t.location.line

/-- Whether the token is the given name or keyword. -/
def isWord (t : Token) (word : Text) : Bool :=
  t.kind == .identifier && t.text == word

theorem kind_of_isWord {t : Token} {word : Text} (h : t.isWord word = true) :
    t.kind = .identifier := by
  simp only [isWord, Bool.and_eq_true, beq_iff_eq] at h
  exact h.1

/-- Words are told apart by their texts. -/
theorem isWord_of_ne {t : Token} {word other : Text} (h : t.isWord word = true)
    (ne : word ≠ other) : t.isWord other = false := by
  simp only [isWord, Bool.and_eq_true, beq_iff_eq] at h
  simp [isWord, h, ne]

/-- Whether a list begins with a token of the kind. -/
def startsWith (kind : Kind) : List Token → Bool
  | [] => false
  | t :: _ => t.kind == kind

theorem exists_of_startsWith {kind : Kind}
    {tokens : List Token} (h : startsWith kind tokens = true) :
    ∃ t rest, tokens = t :: rest ∧ t.kind = kind := by
  cases tokens with
  | nil => simp [startsWith] at h
  | cons t rest => exact ⟨t, rest, rfl, by simpa [startsWith] using h⟩

theorem startsWith_append (kind : Kind) {tokens : List Token}
    (h : tokens ≠ []) (rest : List Token) :
    startsWith kind (tokens ++ rest) = startsWith kind tokens := by
  cases tokens with
  | nil => exact absurd rfl h
  | cons t tokens => rfl

/-- Whether every closing bracket has an opening one before it and none stays
open, shapes aside. -/
def balancedFrom : Nat → List Token → Bool
  | depth, [] => depth == 0
  | depth, t :: ts =>
    if t.kind.isOpener then balancedFrom (depth + 1) ts
    else if t.kind.isCloser then
      match depth with
      | 0 => false
      | outer + 1 => balancedFrom outer ts
    else balancedFrom depth ts

/-- Whether the brackets of a token list match in number, shapes aside. -/
def balanced (ts : List Token) : Bool := balancedFrom 0 ts

end Token
end MirrorAdapter
