import Isotherm.Number.Integral

/-!
# Extended numbers

The constants of symbolic terms: rational numbers that are known exactly, rational numbers that stand
for a rounded result, the infinities, and the value of undefined operations. What is computed from a
rounded number is rounded to a double, and a rounded zero counts as exact.
-/

namespace Isotherm

inductive Amount where
  | finite (value : Rat) (isRounded : Bool)
  | infinite (negative : Bool)
  /-- The infinity without a sign, such as one over zero. -/
  | unsigned
  | undefined
deriving DecidableEq, Repr

namespace Amount

def exact (value : Rat) : Amount := finite value false

def nearestFloat (value : Rat) : Float :=
  Scaled.nearest (value < 0) value.num.natAbs value.den

def rational (x : Float) : Rat :=
  let s := Scaled.ofFloat x
  let magnitude : Rat := s.mantissa * (2 : Rat) ^ s.exponent
  if s.negative then -magnitude else magnitude

def ofResult (x : Float) : Amount :=
  if x.isNaN then undefined
  else if x.isInf then infinite (x < 0.0)
  else if x == 0.0 then exact 0
  else finite (rational x) true

/-- The result `value` of operands of which one was rounded, or none. -/
def settle (value : Rat) (isRounded : Bool) : Amount :=
  if isRounded then ofResult (nearestFloat value) else exact value

/-- The double nearest to the number; a NaN where there is none. -/
def toFloat : Amount → Float
  | finite v _ => nearestFloat v
  | infinite negative => if negative then -infinity else infinity
  | unsigned | undefined => notANumber

def isZero (a : Amount) : Bool :=
  a == exact 0

def isNegative : Amount → Bool
  | finite v _ => v < 0
  | infinite negative => negative
  | unsigned | undefined => false

def integer? : Amount → Option Int
  | finite v false => if v.den = 1 then some v.num else none
  | _ => none

def rank : Amount → Nat
  | infinite true => 0
  | finite .. => 1
  | infinite false => 2
  | unsigned => 3
  | undefined => 4

/-- An order of all numbers: reals by value, exact before rounded, then those without a place. -/
def order : Amount → Amount → Ordering
  | finite v r, finite w s => if v < w then .lt else if w < v then .gt else compare r s
  | a, b => compare a.rank b.rank

def plus : Amount → Amount → Amount
  | undefined, _ | _, undefined => undefined
  | finite a r, finite b s => settle (a + b) (r || s)
  | infinite m, infinite n => if m = n then infinite m else undefined
  | infinite n, finite .. | finite .., infinite n => infinite n
  | unsigned, finite .. | finite .., unsigned => unsigned
  | unsigned, _ | _, unsigned => undefined

def amplified (negative : Bool) (a : Rat) : Amount :=
  if a = 0 then undefined else infinite (negative != decide (a < 0))

def times : Amount → Amount → Amount
  | undefined, _ | _, undefined => undefined
  | finite a r, finite b s => if a = 0 || b = 0 then exact 0 else settle (a * b) (r || s)
  | infinite m, infinite n => infinite (m != n)
  | infinite n, finite a _ | finite a _, infinite n => amplified n a
  | unsigned, finite a _ | finite a _, unsigned => if a = 0 then undefined else unsigned
  | unsigned, _ | _, unsigned => unsigned

def negated : Amount → Amount
  | finite v r => finite (-v) r
  | infinite negative => infinite !negative
  | a => a

def magnitude : Amount → Amount
  | finite v r => finite v.abs r
  | undefined => undefined
  | _ => infinite false

def sign : Amount → Amount
  | finite v _ => exact (if v < 0 then -1 else if v = 0 then 0 else 1)
  | infinite negative => exact (if negative then -1 else 1)
  | _ => undefined

/-- The greatest natural number whose power of exponent `degree` is at most `n`, found bit by bit
from the bit `bits` downward. -/
def rootFloor (degree n : Nat) : Nat → Nat → Nat
  | 0, found => found
  | bits + 1, found =>
    let candidate := found + twoTo bits
    rootFloor degree n bits (if Nat.pow candidate degree ≤ n then candidate else found)

def perfectRoot? (degree n : Nat) : Option Nat :=
  let root := rootFloor degree n (n.log2 / degree + 1) 0
  if Nat.pow root degree = n then some root else none

/-- The root of a non-negative rational number that is a perfect power. -/
def rationalRoot? (degree : Nat) (v : Rat) : Option Rat :=
  match perfectRoot? degree v.num.natAbs, perfectRoot? degree v.den with
  | some num, some den => some (mkRat num den)
  | _, _ => none

def integerPower (v : Rat) (isRounded : Bool) (n : Int) : Amount :=
  if v = 0 && n < 0 then unsigned
  else if isRounded then ofResult ((nearestFloat v).pow (nearestFloat n))
  else exact (v ^ n)

def infinitePower (base : Amount) (exponent : Rat) : Option Amount :=
  if exponent < 0 then some (exact 0)
  else
    match base with
    | infinite true =>
      if exponent.den = 1 then some (infinite (exponent.num % 2 != 0)) else none
    | other => some other

/-- The power, where it is a number again: no root of a negative number, and no irrational root of
an exact one. -/
def power? : Amount → Amount → Option Amount
  | _, finite 0 false => some (exact 1)
  | base, finite 1 false => some base
  | undefined, _ | _, undefined => some undefined
  | finite v r, finite e s =>
    if e.den = 1 && !s then some (integerPower v r e.num)
    else if v = 0 then some (if e < 0 then unsigned else exact 0)
    else if v = 1 then some (settle 1 (r || s))
    else if r || s then
      if v < 0 && e.den != 1 then none
      else some (ofResult ((nearestFloat v).pow (nearestFloat e)))
    else if v < 0 then none
    else (rationalRoot? e.den v).map fun root => exact (root ^ e.num)
  | base@(infinite _), finite e _ | base@unsigned, finite e _ => infinitePower base e
  | finite v _, infinite negative =>
    if v ≤ 0 then none
    else if v = 1 then some undefined
    else some (if (1 < v) != negative then infinite false else exact 0)
  | _, infinite _ => none
  | _, unsigned => some undefined

/-- The remainder of `p` by a nonzero `q` that has the sign of `q`. It is zero where the quotient of
two rounded numbers rounds to an integer. -/
def modulo : Amount → Amount → Amount
  | finite p r, finite q s =>
    let quotient := nearestFloat (p / q)
    if r && s && Integral.truncate quotient == quotient then exact 0
    else settle (p - q * (p / q).floor) (r || s)
  | _, _ => undefined

end Amount
end Isotherm
