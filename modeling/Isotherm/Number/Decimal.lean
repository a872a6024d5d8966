import Isotherm.Number.Scaled

/-!
# Decimal numbers and the doubles nearest to them

A decimal is `significand · 10 ^ exponent`. `Decimal.toFloat` rounds one to the nearest double, and
`Decimal.exponentOf` says between which powers of ten a quotient lies.
-/

namespace Isotherm

/-- The number `significand · 10 ^ exponent`. -/
structure Decimal where
  significand : Nat
  exponent : Int
deriving DecidableEq, Repr

namespace Decimal

/-- How many decimal digits `n` has; none for zero. -/
def digitCount (n : Nat) : Nat :=
  if n = 0 then 0 else digitCount (n / 10) + 1
termination_by n
decreasing_by omega

/-- `10 ^ exponent` as a quotient. -/
def powerOfTen (exponent : Int) : Nat × Nat :=
  (Nat.pow 10 exponent.toNat, Nat.pow 10 (-exponent).toNat)

/-- The double nearest to `±d`. A decimal of more than 309 integer digits is past the largest
double, one below `10 ^ -324` nearer to zero than to any other; neither needs its power of ten. -/
def toFloat (negative : Bool) (d : Decimal) : Float :=
  let magnitude : Int := digitCount d.significand + d.exponent
  if d.significand = 0 || magnitude ≤ -324 then Scaled.nearest negative 0 1
  else if 309 < magnitude then if negative then -infinity else infinity
  else
    let (up, down) := powerOfTen d.exponent
    Scaled.nearest negative (d.significand * up) down

/-- The exponent `k` with `10 ^ k ≤ num / den < 10 ^ (k + 1)`, for positive `num` and `den`. -/
def exponentOf (num den : Nat) : Int :=
  if den ≤ num then (digitCount (num / den) : Int) - 1
  else -(digitCount ((den - 1) / num) : Int)

/-- The same number without trailing zeros in the significand. -/
def trim (d : Decimal) : Decimal :=
  if h : d.significand = 0 then d
  else if d.significand % 10 = 0 then trim ⟨d.significand / 10, d.exponent + 1⟩
  else d
termination_by d.significand
decreasing_by omega

end Decimal
end Isotherm
