import Isotherm.Number.Integral

/-!
# The gamma function

Factorials at positive integers, Lanczos' sum elsewhere on the right, the reflection formula on the
left. Negative integers have no value; zero has an infinite one of its own sign.
-/

namespace Isotherm.Gamma

/-- From here on the value is past the largest double. -/
def overflowFrom : Float := 171.624376956302725

/-- `(n - 1)!` for a positive integer `n`. -/
def factorial (n : Float) : Float :=
  (List.range (Integral.value n - 1).toNat).foldl (fun product k => product * (k.toFloat + 1.0)) 1.0

/-- The distance of the points of Lanczos' sum. -/
def lanczosOffset : Float := 607.0 / 128.0

/-- The constant of Lanczos' sum. -/
def lanczosConstant : Float := 0.99999999999999709182

def lanczosWeights : List Float :=
  [57.156235665862923517, -59.597960355475491248, 14.136097974741747174, -0.49191381609762019978,
   0.33994649984811888699e-4, 0.46523628927048575665e-4, -0.98374475304879564677e-4,
   0.15808870322491248884e-3, -0.21026444172410488319e-3, 0.21743961811521264320e-3,
   -0.16431810653676389022e-3, 0.84418223983852743293e-4, -0.26190838401581408670e-4,
   0.36899182659531622704e-5]

/-- Lanczos' sum, for `x` from a half on. The power is taken in two halves, so that it overflows no
earlier than the value. -/
def lanczos (x : Float) : Float :=
  let z := x - 1.0
  let sum := (lanczosWeights.zipIdx 1).foldl
    (fun total (weight, k) => total + weight / (z + k.toFloat)) lanczosConstant
  let t := z + lanczosOffset + 0.5
  let half := t.pow ((z + 0.5) / 2.0)
  2.5066282746310005 * sum * half * (-t).exp * half

def ofPositive (x : Float) : Float :=
  if overflowFrom ≤ x then infinity
  else if Integral.floor x == x then factorial x
  else if x < 1.0 then lanczos (x + 1.0) / x
  else lanczos x

/-- `sin (π x)`, for `x` at most a half away from the integer `whole`. -/
def sinPi (x whole : Float) : Float :=
  let near := (3.141592653589793 * (x - whole)).sin
  if Integral.value whole % 2 == 0 then near else -near

/-- The value at a negative number that is no integer: `π / (sin (π x) · Γ (1 - x))`. Far out
`Γ (1 - x)` is taken apart into `-x · Γ (-x)`, as it may overflow where the value is not zero. -/
def ofNegative (x : Float) : Float :=
  let sine := sinPi x (Integral.roundEven x)
  if overflowFrom ≤ -x then 0.0 / sine
  else if -1.0 < x then 3.141592653589793 / (sine * ofPositive (1.0 - x))
  else 3.141592653589793 / (-x * sine * ofPositive (-x))

def gamma (x : Float) : Float :=
  if x.isNaN || x == infinity then x
  else if x == 0.0 then 1.0 / x
  else if 0.0 < x then ofPositive x
  else if x.isInf || Integral.floor x == x then notANumber
  else ofNegative x

end Isotherm.Gamma
