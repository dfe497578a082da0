/-!
# Text

Sources, spellings, messages and generated headers are strings of bytes: a
column counts bytes, and a byte outside ASCII belongs to no character class. A
string literal stands for the bytes of its characters, so literals in this
library are ASCII.
-/
namespace MirrorAdapter

/-- One byte of a text. -/
abbrev Byte := UInt8

/-- A string of bytes. -/
abbrev Text := List Byte

instance : Coe Char Byte := ⟨Char.toUInt8⟩

namespace Byte

/-- The character whose code is the byte. -/
def toChar (b : Byte) : Char := Char.ofNat b.toNat

def isDigit (b : Byte) : Bool := 48 ≤ b && b ≤ 57

def isUpper (b : Byte) : Bool := 65 ≤ b && b ≤ 90

def isLower (b : Byte) : Bool := 97 ≤ b && b ≤ 122

def isAlpha (b : Byte) : Bool := isUpper b || isLower b

def isAlphanumeric (b : Byte) : Bool := isAlpha b || isDigit b

/-- Space, tab, line feed, vertical tab, form feed or carriage return. -/
def isSpace (b : Byte) : Bool := b == 32 || (9 ≤ b && b ≤ 13)

/-- The upper-case letter of a lower-case one; any other byte is itself. -/
def toUpper (b : Byte) : Byte := if isLower b then b - 32 else b

end Byte

namespace Text

/-- The bytes of an ASCII string. -/
def ofString (s : String) : Text := s.toList.map Char.toUInt8

instance : Coe String Text := ⟨ofString⟩

/-- A number below ten as a digit. -/
def digit (n : Nat) : Byte := UInt8.ofNat (48 + n)

/-- A number in decimal, without leading zeros. -/
def decimal (n : Nat) : Text :=
  if n < 10 then [digit n] else decimal (n / 10) ++ [digit (n % 10)]

/-- The parts with `separator` between each two. -/
def join (separator : Text) : List Text → Text
  | [] => []
  | [part] => part
  | part :: parts => part ++ separator ++ join separator parts

/-- Each part followed by `terminator`. -/
def terminated (terminator : Text) (parts : List Text) : Text :=
  parts.flatMap (· ++ terminator)

/-- The text without leading and trailing white space. -/
def trim (s : Text) : Text :=
  ((s.dropWhile Byte.isSpace).reverse.dropWhile Byte.isSpace).reverse

/-- The text after `head` if it starts so, else all of it. -/
def dropHead (head s : Text) : Text :=
  if head.isPrefixOf s then s.drop head.length else s

/-- The part before the first NUL byte, which is all that a NUL-terminated
string can hold. -/
def beforeNul (s : Text) : Text := s.takeWhile (· != 0)

/-- The text in single quotes, as names are shown in messages. -/
def quoted (s : Text) : Text := "'" ++ s ++ "'"

theorem decimal_ne_nil (n : Nat) : decimal n ≠ [] := by
  rw [decimal]
  split <;> simp

end Text
end MirrorAdapter
