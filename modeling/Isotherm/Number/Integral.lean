import Isotherm.Number.Scaled

/-!
# Rounding to integers

Every function here returns a double that is an integer, or its argument unchanged where that is
infinite or a NaN. A zero result keeps the sign of the argument. All are exact.
-/

namespace Isotherm.Integral

/-- Applies a rounding of magnitudes, given the scaled magnitude as a quotient. -/
def onMagnitude (round : Nat → Nat → Nat) (x : Float) : Float :=
  if x.isFinite then
    let s := Scaled.ofFloat x
    if 0 ≤ s.exponent then x
    else Scaled.nearest s.negative (round s.mantissa (1 <<< (-s.exponent).toNat)) 1
  else x

def truncate (x : Float) : Float :=
  onMagnitude (· / ·) x

def roundEven (x : Float) : Float :=
  onMagnitude Scaled.roundDiv x

/-- To the nearest integer, a tie away from zero: the sign is added where the part cut off is at
least a half. -/
def roundAway (x : Float) : Float :=
  if x.isFinite then
    let whole := truncate x
    if (x - whole).abs ≥ 0.5 then whole + (if signBit x then -1.0 else 1.0) else whole
  else x

def floor (x : Float) : Float :=
  let whole := truncate x
  if x < whole then whole - 1.0 else whole

def ceil (x : Float) : Float :=
  let whole := truncate x
  if whole < x then whole + 1.0 else whole

/-- The least 64-bit signed integer, as a double. -/
def leastInt64 : Float := -9223372036854775808.0

/-- The integer part, kept as a double. NaN, infinities and everything outside the 64-bit signed
range become the least integer of that range. -/
def toInt64 (x : Float) : Float :=
  let whole := truncate x
  if whole.isFinite && whole.abs < 9223372036854775808.0 then whole else leastInt64

def value (x : Float) : Int :=
  (Scaled.ofFloat x).toInt

/-- The double nearest to an integer; infinity past the largest one. -/
def ofInt (n : Int) : Float :=
  Scaled.nearest (n < 0) n.natAbs 1

end Isotherm.Integral
