import MirrorAdapter.Text.Numeral

/-!
# File modes

Permission bits as they are given in options and stored with files.
-/
namespace MirrorAdapter
namespace FileMode

/-- All mode bits: three for each of owner, group and others, and three above
them. -/
def maximum : Nat := 4095

/-- Everyone may read. -/
def readOnly : Nat := 292

/-- The owner may write as well. -/
def writable : Nat := 420

/-- Reads a mode in octal digits. -/
def parse? (s : Text) : Option Nat :=
  (s.numeral? 8).filter fun n => n ≤ maximum

/-- The bits that a file keeps of a mode: reading, writing and execution. -/
def permissions (mode : Nat) : Nat := mode % 512

/-- Whether the owner may read. -/
def isReadable (mode : Nat) : Bool := mode / 256 % 2 == 1

end FileMode
end MirrorAdapter
