import Isotherm.Function.Gamma

/-!
# Bessel functions of integer order

Below `seriesBelow` the power series are summed in integers over `2 ^ 192`, which leaves their
cancellation harmless; above it the expansions for large arguments hold for the first two orders,
and recurrences give the others: upward where that is stable, downward otherwise.
-/

namespace Isotherm.Bessel

/-! ## Power series in fixed point -/

/-- Bits behind the point. -/
def bits : Nat := 192

/-- One, in fixed point. -/
def one : Int := twoTo bits

def toFixed (x : Float) : Int :=
  { Scaled.ofFloat x with exponent := (Scaled.ofFloat x).exponent + bits }.toInt

def ofFixed (v : Int) : Float :=
  Scaled.toFloat ⟨v < 0, v.natAbs, -bits⟩

/-- Terms of a series that are summed. -/
def seriesTerms : Nat := 140

/-- The first terms of `(-x² / 4) ^ k / (k! · (order + 1) ⋯ (order + k))`, each with its `k`. -/
def terms (order : Nat) (x : Float) : List (Nat × Int) :=
  let square := toFixed x * toFixed x / one / 4
  let step (list : List (Nat × Int)) (k : Nat) : List (Nat × Int) :=
    match list with
    | [] => [(0, one)]
    | (j, term) :: _ => (k, -(term * square) / one / ((j + 1) * (order + j + 1) : Nat)) :: list
  ((List.range seriesTerms).foldl step []).reverse

/-- `J` of an order without its leading power: the sum of the terms. -/
def reducedSeries (order : Nat) (x : Float) : Float :=
  ofFixed ((terms order x).foldl (fun sum (_, term) => sum + term) 0)

/-- `(x / 2) ^ order / order!`, given up once it is zero. -/
def leadingPower (order : Nat) (x : Float) : Float :=
  let rec go (left : Nat) (k power : Float) : Float :=
    match left with
    | 0 => power
    | left + 1 => if power == 0.0 then 0.0 else go left (k + 1.0) (power * (x / 2.0 / k))
  go order 1.0 1.0

/-- The harmonic number `1 + 1/2 + ⋯ + 1/n`, in fixed point. -/
def harmonic (n : Nat) : Int :=
  (List.range n).foldl (fun sum k => sum + one / ((k + 1 : Nat) : Int)) 0

/-- The terms of order zero or one weighted with `H_k + H_(k + order)`, in fixed point. -/
def harmonicSeries (order : Nat) (x : Float) : Float :=
  let step (state : Int × Int × Int) (entry : Nat × Int) : Int × Int × Int :=
    let (sum, low, high) := state
    let (k, term) := entry
    (sum + term * (low + high) / one, low + one / ((k + 1 : Nat) : Int),
      high + one / ((k + order + 1 : Nat) : Int))
  ofFixed ((terms order x).foldl step (0, 0, harmonic order)).1

/-- `log (x / 2) + γ` for a positive `x`. -/
def logarithm (x : Float) : Float :=
  x.log - 0.6931471805599453 + 0.5772156649015329

/-- `2 / π`. -/
def twoOverPi : Float := 0.6366197723675814

/-! ## Large arguments -/

/-- Above this the expansions for large arguments are used. -/
def seriesBelow : Float := 25.0

/-- The two sums of the expansion of an order for large arguments, cut off at their least term. -/
def expansion (order x : Float) : Float × Float :=
  let mu := 4.0 * order * order
  let rec go (fuel : Nat) (k term p q : Float) : Float × Float :=
    match fuel with
    | 0 => (p, q)
    | fuel + 1 =>
      let odd := 2.0 * k - 1.0
      let next := term * ((mu - odd * odd) / (k * 8.0 * x))
      if term.abs ≤ next.abs || next.abs < 1e-18 then (p, q)
      else
        let place := Integral.value k % 4
        if place == 1 then go fuel (k + 1.0) next p (q + next)
        else if place == 2 then go fuel (k + 1.0) next (p - next) q
        else if place == 3 then go fuel (k + 1.0) next p (q - next)
        else go fuel (k + 1.0) next (p + next) q
  go 200 1.0 1.0 1.0 0.0

/-- `J` for a large argument whose phase has the given cosine and sine. -/
def expandedJ (order x cosine sine : Float) : Float :=
  let (p, q) := expansion order x
  (twoOverPi / x).sqrt * (p * cosine - q * sine)

/-- `Y` for a large argument whose phase has the given cosine and sine. -/
def expandedY (order x cosine sine : Float) : Float :=
  let (p, q) := expansion order x
  (twoOverPi / x).sqrt * (p * sine + q * cosine)

def phase0 (x : Float) : Float := x - 0.7853981633974483

def phase1 (x : Float) : Float := x - 2.356194490192345

/-! ## Orders zero and one -/

/-- `J₀`. -/
def j0 (x : Float) : Float :=
  let x := x.abs
  if x < seriesBelow then reducedSeries 0 x
  else expandedJ 0.0 x (phase0 x).cos (phase0 x).sin

/-- `J₁`. -/
def j1 (x : Float) : Float :=
  if x.abs < seriesBelow then x / 2.0 * reducedSeries 1 x
  else
    let magnitude := expandedJ 1.0 x.abs (phase1 x.abs).cos (phase1 x.abs).sin
    if x < 0.0 then -magnitude else magnitude

/-- `Y₀` at a small positive argument. -/
def y0Series (x : Float) : Float :=
  twoOverPi * (logarithm x * reducedSeries 0 x - harmonicSeries 0 x / 2.0)

/-- `Y₁` at a small positive argument. -/
def y1Series (x : Float) : Float :=
  twoOverPi * (logarithm x * (x / 2.0 * reducedSeries 1 x) - 1.0 / x
    - x / 4.0 * harmonicSeries 1 x)

/-- `Y₀`; minus infinity at zero, undefined to its left. -/
def y0 (x : Float) : Float :=
  if x == 0.0 then -infinity
  else if x < 0.0 then notANumber
  else if x < seriesBelow then y0Series x
  else expandedY 0.0 x (phase0 x).cos (phase0 x).sin

/-- `Y₁`; minus infinity at zero, undefined to its left. -/
def y1 (x : Float) : Float :=
  if x == 0.0 then -infinity
  else if x < 0.0 then notANumber
  else if x < seriesBelow then y1Series x
  else expandedY 1.0 x (phase1 x).cos (phase1 x).sin

/-! ## All orders -/

/-- Follows `f (k + 1) = 2 k / x · f k - f (k - 1)` from the orders zero and one upward. -/
def upward (order : Nat) (x zeroth first : Float) : Float :=
  let rec go (left : Nat) (k below here : Float) : Float :=
    match left with
    | 0 => below
    | left + 1 =>
      if below.isInf then below
      else go left (k + 1.0) here (2.0 * k / x * here - below)
  go order 1.0 zeroth first

/-- `J` of an order above its argument: follows the recurrence down from far above, and scales what
it finds to the larger of the known values at the orders zero and one. -/
def downward (order : Nat) (x zeroth first : Float) : Float :=
  let rec go (k : Nat) (above here found : Float) : Float × Float × Float :=
    match k with
    | 0 => (here, above, found)
    | k + 1 =>
      let below := 2.0 * (k.toFloat + 1.0) / x * here - above
      let found := if k + 1 == order then here else found
      if below.abs < 1e250 then go k here below found
      else go k (here * 1e-250) (below * 1e-250) (found * 1e-250)
  let (u0, u1, found) := go (2 * order + 40) 0.0 1e-250 0.0
  if first.abs < zeroth.abs then found / u0 * zeroth else found / u1 * first

/-- Cosine and sine of `x - (order / 2 + 1 / 4) π` for order zero, from those of `x` itself. -/
def exactPhase (x : Float) : Float × Float :=
  let scale := 0.7071067811865476
  ((x.cos + x.sin) * scale, (x.sin - x.cos) * scale)

/-- The largest order and argument of the general computation; beyond, only limits are known. -/
def generalLimit : Float := 1073741823.5

/-- `J` of a non-negative order at a positive argument within the limit. -/
def jGeneral (order : Nat) (x : Float) : Float :=
  if x < seriesBelow then leadingPower order x * reducedSeries order x
  else if 1600 < order && 2.0 * x < order.toFloat then 0.0
  else
    let (cosine, sine) := exactPhase x
    let zeroth := expandedJ 0.0 x cosine sine
    let first := expandedJ 1.0 x sine (-cosine)
    if order.toFloat ≤ x then upward order x zeroth first
    else downward order x zeroth first

/-- `J` of a non-negative order at a positive argument past the limit. -/
def jBeyond (order x : Float) : Float :=
  if order == 0.0 then j0 x
  else if order == 1.0 then j1 x
  else if x * x < (order + 1.0) * 1.1102230246251565e-16 then
    (0.5 * x).pow order / Gamma.gamma (order + 1.0)
  else if order < 3.6 * x.sqrt then
    let phase := x - (0.5 * order + 0.25) * 3.141592653589793
    expandedJ order x phase.cos phase.sin
  else 0.0

def isOdd (order : Float) : Bool :=
  Integral.value order % 2 != 0

/-- `J` of the integer part of `order`. -/
def jn (order x : Float) : Float :=
  let order := Integral.toInt64 order
  if x.isNaN then x
  else if x < 0.0 && order.abs > 2147483648.0 then notANumber
  else
    let magnitude :=
      if order.abs ≤ generalLimit && x.abs ≤ generalLimit then
        if x == 0.0 then if order == 0.0 then 1.0 else 0.0
        else jGeneral (Integral.value order.abs).toNat x.abs
      else jBeyond order.abs x.abs
    let flips := (order < 0.0) != (x < 0.0)
    if flips && isOdd order then -magnitude else magnitude

/-- Below this `Y` counts as infinite for all orders. -/
def yOverflowBelow : Float := 2.2250738585072014e-305

/-- `Y` of a non-negative order at a positive argument. -/
def yGeneral (order : Nat) (x : Float) : Float :=
  if x < yOverflowBelow then -infinity
  else if x < seriesBelow then upward order x (y0Series x) (y1Series x)
  else
    let (cosine, sine) := exactPhase x
    upward order x (expandedY 0.0 x cosine sine) (expandedY 1.0 x sine (-cosine))

/-- `Y` of the integer part of `order`; minus infinity at zero, undefined to its left. -/
def yn (order x : Float) : Float :=
  let order := Integral.toInt64 order
  if x.isNaN || x < 0.0 then notANumber
  else if x == 0.0 then -infinity
  else if generalLimit < order.abs || generalLimit < x then notANumber
  else
    let value := yGeneral (Integral.value order.abs).toNat x
    if order < 0.0 && isOdd order then -value else value

end Isotherm.Bessel
