import Isotherm.Number.Decimal
import Isotherm.Number.Exponent

/-!
# Elementary functions

The functions that need care to keep their accuracy: the exponential and the logarithm near one, the
length of a vector, and integer powers of ten.
-/

namespace Isotherm.Elementary

/-- `e ^ x - 1`, accurate near zero: the rounding of `u = e ^ x` cancels in `(u - 1) / log u`. -/
def expm1 (x : Float) : Float :=
  let u := x.exp
  if u == 1.0 then x
  else if u.isInf || u == 0.0 then u - 1.0
  else (u - 1.0) * (x / u.log)

/-- `log (1 + x)`, accurate near zero: the rounding of `u = 1 + x` cancels in `x / (u - 1)`. -/
def log1p (x : Float) : Float :=
  let u := 1.0 + x
  if u == 1.0 then x
  else if u.isInf then u.log
  else u.log * (x / (u - 1.0))

/-- `x ^ y`. A square root is taken as such: it has the sign of a zero, and none exists of negative
infinity. -/
def pow (x y : Float) : Float :=
  if y == 0.5 then x.sqrt else x.pow y

/-- Squares of magnitudes in this range neither overflow nor lose digits. -/
def squaresSafely (x : Float) : Bool :=
  1e-140 < x && x < 1e140

/-- The length of the vector `(x, y)`; infinite if a coordinate is, whatever the other. -/
def hypot (x y : Float) : Float :=
  if x.isInf || y.isInf then infinity
  else if x.isNaN || y.isNaN then notANumber
  else
    let larger := if x.abs < y.abs then y.abs else x.abs
    let smaller := if x.abs < y.abs then x.abs else y.abs
    if larger == 0.0 then 0.0
    else if squaresSafely larger && squaresSafely smaller then
      (larger * larger + smaller * smaller).sqrt
    else
      let ratio := smaller / larger
      larger * (1.0 + ratio * ratio).sqrt

/-- Ten to the integer part of `n`; zero and infinity outside the range of doubles. -/
def pow10 (n : Float) : Float :=
  let whole := Integral.toInt64 n
  if whole < -323.0 then 0.0
  else if 308.0 < whole then infinity
  else Decimal.toFloat false ⟨1, Integral.value whole⟩

end Isotherm.Elementary
