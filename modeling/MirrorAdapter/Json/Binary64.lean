/-!
# Rounding to binary floating point

The 64-bit binary number nearest to a decimal one, ties going to the even
significand. Overflow is left out: what exceeds the format's range is of no
use as an integer word anyway.
-/
namespace MirrorAdapter

/-- The number `± significand * 2 ^ exponent`. -/
structure Binary64 where
  negative : Bool
  significand : Nat
  exponent : Int
deriving Repr, DecidableEq, Inhabited

namespace Binary64

/-- The natural number nearest to a quotient; of two, the even one. -/
def roundQuotient (numerator denominator : Nat) : Nat :=
  let quotient := numerator / denominator
  let twice := 2 * (numerator % denominator)
  if twice < denominator ∨ (twice = denominator ∧ quotient % 2 = 0) then
    quotient else quotient + 1

/-- The exponent of the highest binary digit of a positive quotient. -/
def magnitude (numerator denominator : Nat) : Int :=
  let k : Int := numerator.log2 - denominator.log2
  let fits : Bool :=
    if 0 ≤ k then denominator <<< k.toNat ≤ numerator
    else denominator ≤ numerator <<< (-k).toNat
  if fits then k else k - 1

/-- The number nearest to a quotient, with 53 binary digits and no digit below
`2 ^ (-1074)`. -/
def ofQuotient (negative : Bool) (numerator denominator : Nat) : Binary64 :=
  if numerator = 0 then ⟨negative, 0, 0⟩
  else
    let exponent := max (magnitude numerator denominator - 52) (-1074)
    let significand :=
      if 0 ≤ exponent then
        roundQuotient numerator (denominator <<< exponent.toNat)
      else roundQuotient (numerator <<< (-exponent).toNat) denominator
    ⟨negative, significand, exponent⟩

/-- Decimal exponents beyond which a number of so many digits is out of range
or rounds to zero. -/
def decimalRange (mantissa : Nat) : Int := 400 + mantissa.log2

/-- The number nearest to `mantissa * 10 ^ exponent`. Exponents far out of
range count as the last ones in reach, which changes neither overflow nor the
rounding to zero. -/
def ofDecimal (mantissa exponent : Int) : Binary64 :=
  let range := decimalRange mantissa.natAbs
  let exponent := max (-range) (min range exponent)
  if 0 ≤ exponent then
    ofQuotient (mantissa < 0) (mantissa.natAbs * Nat.pow 10 exponent.toNat) 1
  else ofQuotient (mantissa < 0) mantissa.natAbs (Nat.pow 10 (-exponent).toNat)

/-- The number as an integer, if it has no fraction. -/
def toInt? (b : Binary64) : Option Int :=
  let sign : Int := if b.negative then -1 else 1
  if 0 ≤ b.exponent then
    some (sign * (b.significand <<< b.exponent.toNat : Nat))
  else
    let unit := 1 <<< (-b.exponent).toNat
    if b.significand % unit = 0 then some (sign * (b.significand / unit : Nat))
    else none

end Binary64
end MirrorAdapter
