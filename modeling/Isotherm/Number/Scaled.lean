import Isotherm.Number.Power

/-!
# Finite doubles as scaled integers

A finite double is `±mantissa · 2 ^ exponent`. `Scaled.ofFloat` reads that form off the bits and
`Scaled.nearest` goes back from an exact quotient, rounding once with ties to the even mantissa.
Whatever this library has to know exactly about a double is computed between the two in integers.
-/

namespace Isotherm

/-- The rational number `±mantissa · 2 ^ exponent`; zero keeps its sign. -/
structure Scaled where
  negative : Bool
  mantissa : Nat
  exponent : Int
deriving DecidableEq, Repr

namespace Scaled

/-- The exponent of the last place of a subnormal: no finite double has a finer one. -/
def leastExponent : Int := -1074

/-- The bit pattern of positive infinity; finite magnitudes lie below it. -/
def infinityBits : Nat := 2047 * twoTo 52

def ofFloat (x : Float) : Scaled :=
  let bits := x.toBits.toNat
  let field := bits / twoTo 52 % 2048
  let fraction := bits % twoTo 52
  { negative := twoTo 63 ≤ bits
    mantissa := if field = 0 then fraction else twoTo 52 + fraction
    exponent := (max field 1 : Nat) - 1075 }

/-- `num / den` rounded to the nearest natural number, a tie to the even one. -/
def roundDiv (num den : Nat) : Nat :=
  let quotient := num / den
  let rest := num % den
  if 2 * rest < den then quotient
  else if den < 2 * rest then quotient + 1
  else quotient + quotient % 2

/-- The exponent of the last mantissa bit of the double nearest to `num / den`. -/
def lastPlace (num den : Nat) : Int :=
  let place : Int := (num.log2 : Int) - den.log2 - 53
  let short := num <<< (-place).toNat < twoTo 53 * (den <<< place.toNat)
  max (if short then place else place + 1) leastExponent

/-- The double nearest to `±num / den`: ties to even, infinity past the largest double. -/
def nearest (negative : Bool) (num den : Nat) : Float :=
  let magnitude :=
    if num = 0 then 0
    else
      let place := lastPlace num den
      let mantissa := roundDiv (num <<< (-place).toNat) (den <<< place.toNat)
      min ((place - leastExponent).toNat * twoTo 52 + mantissa) infinityBits
  Float.ofBits (UInt64.ofNat (magnitude + if negative then twoTo 63 else 0))

def toFloat (s : Scaled) : Float :=
  nearest s.negative (s.mantissa <<< s.exponent.toNat) (1 <<< (-s.exponent).toNat)

def floorMagnitude (s : Scaled) : Nat :=
  (s.mantissa <<< s.exponent.toNat) >>> (-s.exponent).toNat

def toInt (s : Scaled) : Int :=
  if s.negative then -(s.floorMagnitude : Int) else s.floorMagnitude

end Scaled

def signBit (x : Float) : Bool :=
  twoTo 63 ≤ x.toBits.toNat

def magnitudeBits (x : Float) : Nat :=
  x.toBits.toNat % twoTo 63

/-- The quiet NaN. -/
def notANumber : Float := 0.0 / 0.0

/-- Positive infinity. -/
def infinity : Float := 1.0 / 0.0

end Isotherm
