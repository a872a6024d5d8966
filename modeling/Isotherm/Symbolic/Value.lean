import Isotherm.Number.Style
import Isotherm.Symbolic.ComplexFloat
import Isotherm.Symbolic.Function

/-!
# Values of terms

The value of a term at numbers for its symbols. Rational results stay exact as long as they can;
where the real functions end, the complex ones go on with their principal values. Poles give
infinities, and a call that nothing is known about stays as it is written.
-/

namespace Isotherm

inductive Value where
  | amount (a : Amount)
  /-- A number that is not real. -/
  | complex (z : ComplexFloat)
  /-- What cannot be computed, as text. -/
  | unresolved (text : String)

namespace Value

def real (x : Float) : Value := amount (.ofResult x)

/-- A complex result; it is real if its imaginary part is zero. -/
def ofComplex (z : ComplexFloat) : Value :=
  if z.im == 0.0 then real z.re else complex z

def toComplex? : Value → Option ComplexFloat
  | amount a@(.finite ..) => some (.ofReal a.toFloat)
  | complex z => some z
  | _ => none

def text : Value → String
  | amount (.finite v false) =>
    if v.den = 1 then toString v.num else toString v.num ++ "/" ++ toString v.den
  | amount (.finite v true) => Style.report.text (Amount.nearestFloat v)
  | amount (.infinite negative) => if negative then "-oo" else "oo"
  | amount .unsigned => "zoo"
  | amount .undefined => "nan"
  | complex z => Style.report.text z.re ++ " + " ++ Style.report.text z.im ++ "*I"
  | unresolved s => s

/-- Joins two values by what is known of real numbers, or else by complex arithmetic. Infinities
absorb complex numbers. -/
def combine (f : Amount → Amount → Amount) (g : ComplexFloat → ComplexFloat → ComplexFloat)
    (a b : Value) : Value :=
  match a, b with
  | unresolved s, _ | _, unresolved s => unresolved s
  | amount a, amount b => amount (f a b)
  | a, b =>
    match a.toComplex?, b.toComplex? with
    | some z, some w => ofComplex (g z w)
    | some _, none => b
    | none, _ => a

def plus : Value → Value → Value := combine Amount.plus ComplexFloat.add

def times : Value → Value → Value := combine Amount.times ComplexFloat.mul

/-- `π`. -/
def pi : Float := 3.141592653589793

/-- The power of a negative number to one that is no integer. Half-integers give imaginary numbers
exactly. -/
def negativePower (v e : Rat) : Value :=
  let size := (Amount.nearestFloat (-v)).pow (Amount.nearestFloat e)
  if e.den = 2 then ofComplex ⟨0.0, if e.num % 4 = 1 then size else -size⟩
  else
    let angle := pi * Amount.nearestFloat e
    ofComplex ⟨size * angle.cos, size * angle.sin⟩

def complexIntegerPower (z : ComplexFloat) (n : Int) : Value :=
  let power := z.natPower n.natAbs
  ofComplex (if n < 0 then ComplexFloat.one.div power else power)

def exponential : Value → Value
  | amount .unsigned => amount .undefined
  | amount a => if a.isZero then amount (.exact 1) else real a.toFloat.exp
  | complex z => ofComplex z.exp
  | unresolved s => unresolved ("exp(" ++ s ++ ")")

def power (a b : Value) : Value :=
  match a, b with
  | unresolved s, _ | _, unresolved s => unresolved s
  | amount a, amount b =>
    match a.power? b with
    | some c => amount c
    | none =>
      match a, b with
      | .finite v _, .finite e _ =>
        if v < 0 then negativePower v e
        else real ((Amount.nearestFloat v).pow (Amount.nearestFloat e))
      | _, _ => amount .undefined
  | complex z, amount b =>
    match b.integer? with
    | some n => complexIntegerPower z n
    | none => ofComplex (z.pow (.ofReal b.toFloat))
  | a, complex w =>
    match a.toComplex? with
    | some z => if z.magnitude == 0.0 then amount .undefined else ofComplex (z.pow w)
    | none => amount .undefined

/-! ## Functions -/

def unresolvedCall (name : String) (arguments : List Value) : Value :=
  unresolved (name ++ "(" ++ ", ".intercalate (arguments.map text) ++ ")")

def realCall (f : Function1) (v : Rat) (isRounded : Bool) : Value :=
  let x := Amount.nearestFloat v
  match f with
  | .floor => amount (.exact v.floor)
  | .ceil => amount (.exact v.ceil)
  | .log =>
    if v = 0 then amount .unsigned
    else if v < 0 then complex ⟨(-x).log, pi⟩
    else real x.log
  | .acos =>
    if 1 < v then complex ⟨0.0, x.acosh⟩
    else if v < -1 then complex ⟨pi, -(-x).acosh⟩
    else real x.acos
  | .asin =>
    if 1 < v then complex ⟨pi / 2.0, -x.acosh⟩
    else if v < -1 then complex ⟨-pi / 2.0, (-x).acosh⟩
    else real x.asin
  | .acosh =>
    if v < -1 then complex ⟨(-x).acosh, pi⟩
    else if v < 1 then complex ⟨0.0, x.acos⟩
    else real x.acosh
  | .atanh =>
    if v = 1 || v = -1 then amount (.infinite (v < 0))
    else if 1 < v then complex ⟨(1.0 / x).atanh, -pi / 2.0⟩
    else if v < -1 then complex ⟨(1.0 / x).atanh, pi / 2.0⟩
    else real x.atanh
  | .gamma => if v ≤ 0 && v.den = 1 then amount .unsigned else real (Gamma.gamma x)
  | .erfinv =>
    if v = 1 || v = -1 then amount (.infinite (v < 0))
    else if 1 < v.abs then unresolvedCall "erfinv" [amount (.finite v isRounded)]
    else real (ErrorFunction.erfinv x)
  | .erfcinv =>
    if v = 1 then amount (.exact 0)
    else if v = 0 || v = 2 then amount (.infinite (v = 2))
    else unresolvedCall "erfcinv" [amount (.finite v isRounded)]
  | f => real (f.apply x)

def complexCall (f : Function1) (z : ComplexFloat) : Value :=
  match f with
  | .abs => real z.magnitude
  | .log => ofComplex z.log
  | .cos => ofComplex z.cos
  | .sin => ofComplex z.sin
  | .tan => ofComplex z.tan
  | .cosh => ofComplex z.cosh
  | .sinh => ofComplex z.sinh
  | .tanh => ofComplex z.tanh
  | .acos => ofComplex z.acos
  | .asin => ofComplex z.asin
  | .atan => ofComplex z.atan
  | .acosh => ofComplex z.acosh
  | .asinh => ofComplex z.asinh
  | .atanh => ofComplex z.atanh
  | f => unresolvedCall (UnaryHead.plain f).name [complex z]

def call (h : UnaryHead) (a : Value) : Value :=
  match h, a with
  | .inert name, a => unresolvedCall name [a]
  | _, unresolved s => unresolvedCall h.name [unresolved s]
  | .sign, amount a => amount a.sign
  | .sign, complex z => ofComplex (z.div (.ofReal z.magnitude))
  | .plain .abs, amount a => amount a.magnitude
  | .plain .log, amount .unsigned => amount .unsigned
  | .plain f, amount (.finite v isRounded) => realCall f v isRounded
  | .plain f, amount a => real (f.apply a.toFloat)
  | .plain f, complex z => complexCall f z

/-- The Bessel function of the first kind of an integer order. -/
def besselJ (order : Int) (x : Float) : Value :=
  real (Bessel.jn (Amount.nearestFloat order) x)

/-- The Bessel function of the second kind of an integer order, continued to negative numbers by
`Y (-x) = (-1) ^ n (Y x + 2 i J x)`. -/
def besselY (order : Int) (x : Float) : Value :=
  if x == 0.0 then amount (if order = 0 then .infinite true else .unsigned)
  else
    let n := Amount.nearestFloat order
    if x < 0.0 then
      let z : ComplexFloat := ⟨Bessel.yn n (-x), 2.0 * Bessel.jn n (-x)⟩
      complex (if order % 2 = 0 then z else z.scale (-1.0))
    else real (Bessel.yn n x)

/-- Whether a number has a place in the order of the reals; if not, it is named in what is said. -/
def comparable (v : Value) : Except Refusal Unit :=
  match v with
  | amount (.finite ..) | amount (.infinite _) => .ok ()
  | v => .error (Term.notComparable v.text)

def call2 (h : BinaryHead) (a b : Value) : Except Refusal Value :=
  match h, a, b with
  | .inert name, a, b => .ok (unresolvedCall name [a, b])
  | .modulo, amount p, amount q =>
    if q.isZero then .error Term.moduloByZero else .ok (amount (p.modulo q))
  | .plain .atan2, amount y, amount x =>
    .ok (if y.isZero && x.isZero then amount .undefined else real (y.toFloat.atan2 x.toFloat))
  | .plain .jn, amount order, amount (.finite v _) =>
    match order.integer? with
    | some n => .ok (besselJ n (Amount.nearestFloat v))
    | none => .ok (unresolvedCall h.name [a, b])
  | .plain .yn, amount order, amount (.finite v _) =>
    match order.integer? with
    | some n => .ok (besselY n (Amount.nearestFloat v))
    | none => .ok (unresolvedCall h.name [a, b])
  | .plain f, amount a, amount b =>
    if f = .max || f = .min then do
      comparable (amount a)
      comparable (amount b)
      return amount (Term.extremeNumber f a b)
    else .ok (amount .undefined)
  | .plain .max, complex z, _ | .plain .max, _, complex z | .plain .min, complex z, _
  | .plain .min, _, complex z => .error (Term.notComparable (complex z).text)
  | h, a, b => .ok (unresolvedCall h.name [a, b])

end Value

namespace Term

/-- `e`. -/
def eulerNumber : Float := 2.718281828459045

/-- The value of a term, where `lookup` gives the values of its symbols. -/
def value (lookup : String → Value) : Term → Except Refusal Value
  | number a => .ok (.amount a)
  | symbol name => .ok (lookup name)
  | euler => .ok (.real eulerNumber)
  | add k part rest => do
    let v ← part.value lookup
    return ((Value.amount k).times v).plus (← rest.value lookup)
  | multiply base exponent rest => do
    let b ← base.value lookup
    let e ← exponent.value lookup
    let power := if base == euler then e.exponential else b.power e
    return power.times (← rest.value lookup)
  | call h a => do return .call h (← a.value lookup)
  | call2 h a b => do
    let first ← a.value lookup
    let second ← b.value lookup
    Value.call2 h first second

end Term

/-- The values of the three variables by name; other symbols stay as they are. -/
def valuesOf (x y t : Amount) (name : String) : Value :=
  if name = "x" then .amount x
  else if name = "y" then .amount y
  else if name = "t" then .amount t
  else .unresolved name

end Isotherm
