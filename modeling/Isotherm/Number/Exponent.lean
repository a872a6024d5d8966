import Isotherm.Number.Integral

/-!
# Exponent, sign and neighbours of a double

The functions that look at or change the parts of a double: its binary exponent, its sign, its
scale and the next double in a direction. All are exact; scaling rounds once.
-/

namespace Isotherm.Exponent

/-- The exponent `k` with `2 ^ k ≤ |x| < 2 ^ (k + 1)`, for finite non-zero `x`. -/
def binary (x : Float) : Int :=
  let s := Scaled.ofFloat x
  s.mantissa.log2 + s.exponent

/-- The binary exponent as an integer value: `-2 ^ 31` at zero, `2 ^ 31 - 1` where there is none. -/
def ilogb (x : Float) : Float :=
  if !x.isFinite then 2147483647.0
  else if x == 0.0 then -2147483648.0
  else Float.ofInt (binary x)

/-- The binary exponent: negative infinity at zero, positive infinity at either infinity. -/
def logb (x : Float) : Float :=
  if x.isNaN then x
  else if x.isInf then infinity
  else if x == 0.0 then -infinity
  else Float.ofInt (binary x)

/-- No exponent beyond this one can leave a finite non-zero double finite and non-zero. -/
def scaleLimit : Int := 2200

/-- `x · 2 ^ n`, rounded once. -/
def scale (x : Float) (n : Int) : Float :=
  if x.isFinite then
    let s := Scaled.ofFloat x
    { s with exponent := s.exponent + n }.toFloat
  else x

/-- `x` scaled by the integer part of `exponent`, which is held within `scaleLimit`. -/
def ldexp (x exponent : Float) : Float :=
  let n := Integral.value (Integral.toInt64 exponent)
  scale x (max (-scaleLimit) (min scaleLimit n))

/-- The magnitude of `x` with the sign of `y`. -/
def copysign (x y : Float) : Float :=
  if x.isNaN then x
  else if signBit x == signBit y then x else -x

/-- The next double after `x` in the direction of `y`; `y` itself where the two are equal. -/
def nextafter (x y : Float) : Float :=
  if x.isNaN || y.isNaN then notANumber
  else if x == y then y
  else if x == 0.0 then copysign (Float.ofBits 1) y
  else if (x < y) == (0.0 < x) then Float.ofBits (x.toBits + 1)
  else Float.ofBits (x.toBits - 1)

/-- The larger of two; a NaN wins. -/
def maximum (x y : Float) : Float :=
  if x.isNaN then x else if y.isNaN then y else if y ≤ x then x else y

/-- The smaller of two; a NaN wins. -/
def minimum (x y : Float) : Float :=
  if x.isNaN then x else if y.isNaN then y else if x ≤ y then x else y

/-- How far `x` is above `y`, zero if it is not. -/
def positiveDifference (x y : Float) : Float :=
  let difference := x - y
  if difference ≤ 0.0 then 0.0 else difference

/-- The infinity whose sign is that of the integer part of `sign`; zero counts as positive. -/
def signedInfinity (sign : Float) : Float :=
  if 0.0 ≤ Integral.toInt64 sign then infinity else -infinity

end Isotherm.Exponent
