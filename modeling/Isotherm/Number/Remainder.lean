import Isotherm.Number.Scaled

/-!
# Exact remainders

Two remainders of a division of doubles, each exact: the one that leaves the sign of the dividend,
and the one of least magnitude, whose quotient is rounded to the nearest even integer.
-/

namespace Isotherm.Remainder

/-- Dividend and divisor as integers over one common power of two, with that power. -/
def aligned (x y : Scaled) : Nat × Nat × Int :=
  let place := min x.exponent y.exponent
  (x.mantissa <<< (x.exponent - place).toNat, y.mantissa <<< (y.exponent - place).toNat, place)

/-- Neither remainder exists: an operand is a NaN, the dividend is infinite or the divisor zero. -/
def undefined (x y : Float) : Bool :=
  x.isNaN || y.isNaN || x.isInf || y == 0.0

/-- The remainder of the quotient cut off toward zero; its sign is that of `x`. -/
def truncated (x y : Float) : Float :=
  if undefined x y then notANumber
  else if y.isInf then x
  else
    let sx := Scaled.ofFloat x
    let (a, b, place) := aligned sx (Scaled.ofFloat y)
    Scaled.toFloat ⟨sx.negative, a % b, place⟩

/-- The remainder of the quotient rounded to nearest, ties to even; a zero has the sign of `x`. -/
def nearest (x y : Float) : Float :=
  if undefined x y then notANumber
  else if y.isInf then x
  else
    let sx := Scaled.ofFloat x
    let (a, b, place) := aligned sx (Scaled.ofFloat y)
    let quotient := Scaled.roundDiv a b
    if quotient * b ≤ a then Scaled.toFloat ⟨sx.negative, a - quotient * b, place⟩
    else Scaled.toFloat ⟨!sx.negative, quotient * b - a, place⟩

end Isotherm.Remainder
