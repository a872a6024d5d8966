import Isotherm.Number.Scaled

/-!
# The error function, its complement and their inverses

`erf` is summed from a series of positive terms, `erfc` far out from a continued fraction. The
inverses refine an estimate by Halley's method, on whichever of the two functions keeps its relative
accuracy there.
-/

namespace Isotherm.ErrorFunction

/-- `2 / √π`, the slope of `erf` at zero. -/
def slope : Float := 1.1283791670955126

/-- `erf` for magnitudes up to about three: `slope · e ^ -x² · Σ 2ⁿ x²ⁿ⁺¹ / (1 · 3 ⋯ (2n + 1))`. -/
def series (x : Float) : Float :=
  let square := x * x
  let step (state : Float × Float) (n : Nat) : Float × Float :=
    let (sum, term) := state
    let term := term * (2.0 * square / (2.0 * n.toFloat + 3.0))
    (sum + term, term)
  let (sum, _) := (List.range 80).foldl step (x, x)
  slope * (-square).exp * sum

/-- `erfc` for `x` from two on: `e ^ -x² / √π · 1 / (x + (1/2) / (x + (2/2) / (x + ⋯)))`. -/
def tail (x : Float) : Float :=
  let fraction := (List.range 120).foldr
    (fun (n : Nat) (inner : Float) => ((n.toFloat + 1.0) / 2.0) / (x + inner)) 0.0
  slope / 2.0 * (-(x * x)).exp / (x + fraction)

/-- `erfc` of a magnitude. -/
def complementOfMagnitude (x : Float) : Float :=
  if 30.0 < x then 0.0 else if 2.0 ≤ x then tail x else 1.0 - series x

def erf (x : Float) : Float :=
  if x.isNaN then x
  else if x.abs < 2.0 then series x
  else
    let magnitude := 1.0 - complementOfMagnitude x.abs
    if x < 0.0 then -magnitude else magnitude

/-- The complementary error function, `1 - erf x`. -/
def erfc (x : Float) : Float :=
  if x.isNaN then x
  else if 0.0 ≤ x then complementOfMagnitude x
  else if -2.0 < x then 1.0 - series x
  else 2.0 - complementOfMagnitude (-x)

/-- One step of Halley's method, where `excess` is how far the function is past its goal in the
direction of growing `x`. -/
def refine (x excess : Float) : Float :=
  let newton := excess / (slope * (-(x * x)).exp)
  x - newton / (1.0 + x * newton)

/-- An estimate of the inverse of `erf` at a magnitude with the given `log (1 - y²)`. -/
def estimate (logarithm : Float) : Float :=
  let a := 0.147
  let b := 2.0 / (3.141592653589793 * a) + logarithm / 2.0
  ((b * b - logarithm / a).sqrt - b).sqrt

/-- The inverse of `erf` between `-1/2` and `1/2`. -/
def centralInverse (y : Float) : Float :=
  let start := estimate (1.0 - y * y).log
  (List.range 5).foldl (fun x _ => refine x (erf x - y)) (if y < 0.0 then -start else start)

/-- The inverse of `erfc` from zero, without it, up to a half. -/
def tailInverse (q : Float) : Float :=
  let start := estimate (q.log + (2.0 - q).log)
  (List.range 6).foldl (fun x _ => refine x (q - erfc x)) start

/-- The inverse of `erf`; infinite at `±1` and undefined beyond. -/
def erfinv (y : Float) : Float :=
  if y.isNaN || 1.0 < y.abs then notANumber
  else if y == 1.0 then infinity
  else if y == -1.0 then -infinity
  else if y.abs ≤ 0.5 then centralInverse y
  else if 0.0 < y then tailInverse (1.0 - y)
  else -(tailInverse (1.0 + y))

/-- The inverse of `erfc`; infinite at zero and two and undefined outside. -/
def erfcinv (q : Float) : Float :=
  if q.isNaN || q < 0.0 || 2.0 < q then notANumber
  else if q == 0.0 then infinity
  else if q == 2.0 then -infinity
  else if q < 0.5 then tailInverse q
  else if q ≤ 1.5 then centralInverse (1.0 - q)
  else -(tailInverse (2.0 - q))

end Isotherm.ErrorFunction
