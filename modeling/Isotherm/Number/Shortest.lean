import Isotherm.Number.Decimal

/-!
# Decimal digits of a double

The shortest decimal that reads back as a given double, nearest to it among those of that length,
and the decimal of a fixed number of digits nearest to it. Both are found by exact comparison; a
tie goes to the even digit.
-/

namespace Isotherm.Shortest

/-- The decimals that round to a positive double: those between `low` and `high` quarters of its
last place `4 · 2 ^ place`, the ends included when `closed`. The double itself is at `value`. -/
structure Basin where
  low : Nat
  value : Nat
  high : Nat
  place : Int
  closed : Bool

/-- The basin of a positive double. Below a power of two the doubles lie twice as dense. -/
def Basin.ofScaled (s : Scaled) : Basin :=
  let lowest := s.mantissa == twoTo 52 && Scaled.leastExponent < s.exponent
  { low := if lowest then 4 * s.mantissa - 1 else 4 * s.mantissa - 2
    value := 4 * s.mantissa
    high := 4 * s.mantissa + 2
    place := s.exponent - 2
    closed := s.mantissa % 2 == 0 }

/-- `quarters` of the last place, as a quotient over the unit `10 ^ exponent`. -/
def Basin.quotient (b : Basin) (quarters : Nat) (exponent : Int) : Nat × Nat :=
  let (up, down) := Decimal.powerOfTen exponent
  ((quarters <<< b.place.toNat) * down, up <<< (-b.place).toNat)

/-- Whether `significand · 10 ^ exponent` rounds to the double of the basin. -/
def Basin.contains (b : Basin) (significand : Nat) (exponent : Int) : Bool :=
  let (low, unit) := b.quotient b.low exponent
  let (high, _) := b.quotient b.high exponent
  let point := significand * unit
  if b.closed then low ≤ point && point ≤ high else low < point && point < high

/-- The decimal over the unit `10 ^ exponent` that rounds to the double and is nearest to it. -/
def Basin.nearest? (b : Basin) (exponent : Int) : Option Decimal :=
  let (num, den) := b.quotient b.value exponent
  let below := num / den
  match b.contains below exponent, b.contains (below + 1) exponent with
  | true, true => some ⟨Scaled.roundDiv num den, exponent⟩
  | true, false => some ⟨below, exponent⟩
  | false, true => some ⟨below + 1, exponent⟩
  | false, false => none

def Basin.exponent (b : Basin) : Int :=
  let (num, den) := b.quotient b.value 0
  Decimal.exponentOf num den

/-- The most digits that a double can need. -/
def mostDigits : Nat := 17

/-- The shortest decimal that rounds to the positive finite double `s`. -/
def digits (s : Scaled) : Decimal :=
  let basin := Basin.ofScaled s
  let leading := basin.exponent
  let found := (List.range mostDigits).findSome? fun (n : Nat) => basin.nearest? (leading - n)
  (found.getD ⟨s.mantissa, s.exponent⟩).trim

/-- The decimal of `count` significant digits nearest to the positive finite double `s`. -/
def rounded (count : Nat) (s : Scaled) : Decimal :=
  let basin := Basin.ofScaled s
  let exponent := basin.exponent + 1 - count
  let (num, den) := basin.quotient basin.value exponent
  let significand := Scaled.roundDiv num den
  if significand < Nat.pow 10 count then ⟨significand, exponent⟩
  else ⟨significand / 10, exponent + 1⟩

end Isotherm.Shortest
