import MirrorAdapter.Text.Basic

/-!
# Numerals

Numbers as they are written in options and settings: digits and nothing else,
so neither signs, marks of the base, nor blanks. Leading zeros do not matter.
-/
namespace MirrorAdapter
namespace Text

/-- The value of a digit of a base up to ten. -/
def digit? (base : Nat) (b : Byte) : Option Nat :=
  if b.isDigit && decide (b.toNat - 48 < base) then some (b.toNat - 48)
  else none

/-- The number that a run of digits goes on to, `n` being what was read
before. -/
def numeralFrom (base n : Nat) : Text → Option Nat
  | [] => some n
  | b :: rest =>
    (digit? base b).bind fun d => numeralFrom base (base * n + d) rest

/-- The number written in a base up to ten; at least one digit is needed. -/
def numeral? (base : Nat) (s : Text) : Option Nat :=
  if s.isEmpty then none else numeralFrom base 0 s

end Text

end MirrorAdapter
