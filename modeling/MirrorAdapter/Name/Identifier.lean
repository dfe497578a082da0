import MirrorAdapter.Text.Basic

/-!
# Identifiers of the target language

The names a mirror file declares become names in C++ headers, where keywords
cannot be names.
-/
namespace MirrorAdapter
namespace Name

def keywords : List Text :=
  List.map Text.ofString [ "alignas", "alignof", "and", "and_eq",
    "asm", "atomic_cancel", "atomic_commit", "atomic_noexcept", "auto",
    "bitand", "bitor", "bool", "break", "case", "catch", "char",
    "char8_t", "char16_t", "char32_t", "class", "compl", "concept", "const",
    "consteval", "constexpr", "constinit", "const_cast", "continue",
    "co_await", "co_return", "co_yield", "decltype", "default", "delete",
    "do", "double", "dynamic_cast", "else", "enum", "explicit", "export",
    "extern", "false", "float", "for", "friend", "goto", "if", "inline",
    "int", "long", "mutable", "namespace", "new", "noexcept", "not",
    "not_eq", "nullptr", "operator", "or", "or_eq", "private", "protected",
    "public", "register", "reinterpret_cast", "requires", "return", "short",
    "signed", "sizeof", "static", "static_assert", "static_cast", "struct",
    "switch", "template", "this", "thread_local", "throw", "true",
    "try", "typedef", "typeid", "typename", "union", "unsigned", "using",
    "virtual", "void", "volatile", "wchar_t", "while", "xor", "xor_eq"
  ]

def isKeyword (name : Text) : Bool := keywords.contains name

def isNameByte (b : Byte) : Bool := b.isAlphanumeric || b == '_'

/-- The text with every byte that cannot stand in a name replaced by an
underscore. -/
def underscored (s : Text) : Text :=
  s.map fun b => if isNameByte b then b else '_'

/-- A name near to the given text that can be declared: other bytes become
underscores, one is put before a leading digit, and one after a keyword. -/
def sanitized (s : Text) : Text :=
  match underscored s with
  | [] => "_"
  | first :: rest =>
    let name : Text :=
      if first.isDigit then "_" ++ first :: rest else first :: rest
    if isKeyword name then name ++ "_" else name

end Name
end MirrorAdapter
