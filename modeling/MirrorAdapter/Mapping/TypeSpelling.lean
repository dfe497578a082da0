import MirrorAdapter.Token.Lexer

/-!
# Spellings of types

What can be told of a type from its spelling alone: whether two spellings
surely name the same type, and whether a type is surely no class.
-/
namespace MirrorAdapter
namespace TypeSpelling

/-- Whether a `::` after this byte starts a name at global scope. -/
def opensScope (b : Byte) : Bool := b == '<' || b == ',' || b == '('

/-- Leaves out each `::` that starts a name at global scope, as it does at the
start of the text if `atStart` holds. -/
def dropGlobalScopes (atStart : Bool) : Text → Text
  | [] => []
  | [b] => [b]
  | a :: b :: rest =>
    if atStart ∧ a = ':' ∧ b = ':' then dropGlobalScopes true rest
    else a :: dropGlobalScopes (opensScope a) (b :: rest)

/-- What spellings of one type have in common: neither blanks nor a `::` at
global scope make a difference. -/
def key (spelling : Text) : Text :=
  dropGlobalScopes true
    (spelling.filter fun b => b != ' ' && b != '\t' && b != '\n')

/-- Names of arithmetic types and their like. -/
def fundamentalNames : List Text :=
  ["void", "bool", "char", "char8_t", "char16_t", "char32_t", "wchar_t",
    "short", "int", "long", "float", "double", "signed", "unsigned", "auto"]

/-- Names in the standard library for such types. -/
def fundamentalAliases : List Text :=
  ["int8_t", "int16_t", "int32_t", "int64_t", "uint8_t", "uint16_t",
    "uint32_t", "uint64_t", "size_t", "ptrdiff_t", "intptr_t", "uintptr_t",
    "intmax_t", "uintmax_t", "nullptr_t", "byte"]

def opensGroup (k : Token.Kind) : Bool := k == .less || k == .lparen

def closesGroup (k : Token.Kind) : Bool := k == .greater || k == .rparen

/-- The tokens outside angle brackets and parentheses; the count of open ones
starts at `depth` and may fall below zero. -/
def outside (depth : Int) : List Token → List Token
  | [] => []
  | t :: ts =>
    if opensGroup t.kind then outside (depth + 1) ts
    else if closesGroup t.kind then outside (depth - 1) ts
    else if depth = 0 then t :: outside depth ts
    else outside depth ts

/-- Marks of pointers, references, arrays and qualified types. -/
def isModifier (t : Token) : Bool :=
  t.kind == .star || t.kind == .amp || t.kind ==
    .lbracket || t.isWord "const" || t.isWord "volatile"

def isFundamental (t : Token) : Bool :=
  t.kind == .identifier && fundamentalNames.contains t.text

/-- Whether the spelling is that of a standard alias, with or without its
scope. -/
def isAlias (spelling : Text) : Bool :=
  fundamentalAliases.contains
    (Text.dropHead "std::" (Text.dropHead "::" spelling))

/-- Whether a type surely is no class, so that nothing can be a member of
it. -/
def isNonClass (spelling : Text) : Bool :=
  let tokens := outside 0 (Token.scanBody "<type>" spelling)
  tokens.any isModifier || tokens.all isFundamental || isAlias spelling

end TypeSpelling
end MirrorAdapter
