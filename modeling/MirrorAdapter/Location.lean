import MirrorAdapter.Text.Basic

/-!
# Locations

A place in a source file. Lines and columns start at one and count as 32-bit
words do, so a file of more than 2³² lines starts over.
-/
namespace MirrorAdapter

/-- A line and a column. -/
structure Position where
  line : UInt32 := 1
  column : UInt32 := 1
deriving Repr, DecidableEq, Inhabited

namespace Position

/-- The position after one more byte. Only a line feed ends a line. -/
def advance (p : Position) (b : Byte) : Position :=
  if b = '\n' then ⟨p.line + 1, 1⟩ else ⟨p.line, p.column + 1⟩

/-- The position after a stretch of text. -/
def after (p : Position) (s : Text) : Position := s.foldl advance p

theorem after_append (p : Position) (s t : Text) :
    p.after (s ++ t) = (p.after s).after t :=
  List.foldl_append

end Position

/-- A position in a named file. -/
structure Location where
  file : Text := []
  position : Position := {}
deriving Repr, DecidableEq, Inhabited

namespace Location

def line (l : Location) : UInt32 := l.position.line

def column (l : Location) : UInt32 := l.position.column

/-- Written `file:line:column`. -/
def render (l : Location) : Text :=
  l.file ++ ":" ++ Text.decimal l.line.toNat ++ ":" ++
    Text.decimal l.column.toNat

/-- The start of a file. -/
def start (file : Text) : Location := { file }

end Location
end MirrorAdapter
