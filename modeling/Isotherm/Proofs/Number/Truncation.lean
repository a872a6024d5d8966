import Isotherm.Proofs.Number.Addition

/-!
# Cutting off a fraction

The integer part of a finite double is its rational number cut off toward zero, with the sign of the
double even where it is zero. As a 64-bit integer it is that number wherever it is in range, and the
least integer everywhere else.
-/

namespace Isotherm

open Scaled

/-- The integer part of a rational number, which lies between zero and it. -/
def towardZero (q : ℚ) : ℤ :=
  if 0 ≤ q then ⌊q⌋ else ⌈q⌉

namespace Integral

theorem natCast_floorMagnitude (x : Float) :
    ((ofFloat x).floorMagnitude : ℤ) = ⌊(ofFloat x).magnitude⌋ := by
  rw [← Int.natCast_floor_eq_floor (magnitude_nonneg _), floorMagnitude_eq_floor, magnitude]

theorem value_eq_sign_mul (x : Float) :
    (value x : ℚ) = (if signBit x then -1 else 1) * (ofFloat x).floorMagnitude := by
  rw [value_eq_signed]
  cases signBit x <;> simp [signed]

theorem value_eq_towardZero (x : Float) : value x = towardZero (Amount.rational x) := by
  have hnonneg := magnitude_nonneg (ofFloat x)
  rw [value_eq_signed]
  cases hs : signBit x with
  | false =>
    rw [rational_of_positive hs, towardZero, if_pos hnonneg]
    exact natCast_floorMagnitude x
  | true =>
    rw [rational_of_negative hs, towardZero, Int.ceil_neg, ← natCast_floorMagnitude]
    obtain hzero | hpos := hnonneg.eq_or_lt'
    · -- a negative zero is no less than zero, but its integer part is the same on both sides
      have hfloor := natCast_floorMagnitude x
      rw [hzero, Int.floor_zero, Nat.cast_eq_zero] at hfloor
      rw [hzero, hfloor, Rat.neg_zero, Int.floor_zero]
      exact (ite_self 0).symm
    · exact (if_neg (by linarith)).symm

variable {x : Float}

theorem isFinite_truncate (x : Float) : (truncate x).isFinite = x.isFinite := by
  cases hx : x.isFinite with
  | true =>
    rw [Bits.isFinite_iff]
    exact (magnitudeBits_truncate_le hx).trans_lt ((Bits.isFinite_iff x).mp hx)
  | false => simp [truncate, onMagnitude, hx]

theorem signBit_truncate (hx : x.isFinite = true) : signBit (truncate x) = signBit x := by
  by_cases hexponent : 0 ≤ (ofFloat x).exponent
  · rw [truncate_of_integer hx hexponent]
  · rw [truncate_eq_nearest hx hexponent, signBit_nearest_eq]

theorem magnitude_truncate (hx : x.isFinite = true) :
    (ofFloat (truncate x)).magnitude = (ofFloat x).floorMagnitude := by
  by_cases hexponent : 0 ≤ (ofFloat x).exponent
  · rw [truncate_of_integer hx hexponent, floorMagnitude_of_integer hexponent, magnitude]
  · have hlt := floorMagnitude_lt hx hexponent
    rw [truncate_eq_nearest hx hexponent]
    exact Bits.magnitude_nearest_one _ (by omega)

/-- The integer part, as a double, is the integer that the double is read as. -/
theorem rational_truncate (hx : x.isFinite = true) : Amount.rational (truncate x) = value x := by
  rw [rational_eq_sign_mul, value_eq_sign_mul, signBit_truncate hx, magnitude_truncate hx]

/-- The 64-bit integer part is the integer part where that is in range, and the least integer
elsewhere. -/
theorem value_toInt64_eq (x : Float) :
    value (toInt64 x) = if x.isFinite ∧ |value x| < 2 ^ 63 then value x else -2 ^ 63 := by
  have hleast : value leastInt64 = -2 ^ 63 := by decide +kernel
  unfold toInt64
  cases hx : x.isFinite with
  | false => simp [isFinite_truncate, hx, hleast]
  | true =>
    have hwhole := (isFinite_truncate x).trans hx
    have hbound : (ofFloat 9223372036854775808.0).magnitude = 2 ^ 63 := by
      have hparts : ofFloat 9223372036854775808.0 = ⟨false, 2 ^ 52, 11⟩ := by decide +kernel
      rw [hparts, magnitude]
      norm_num
    have hrange : (truncate x).abs < 9223372036854775808.0 ↔ |value x| < 2 ^ 63 := by
      rw [Bits.abs_lt_iff hwhole (by decide +kernel) (by decide +kernel),
        ← magnitude_lt_iff hwhole (by decide +kernel), hbound, ← abs_rational,
        rational_truncate hx]
      exact_mod_cast Iff.rfl
    simp only [hwhole, hrange, Bool.true_and, decide_eq_true_eq, true_and]
    split
    next => exact value_truncate hx
    next => exact hleast

end Integral
end Isotherm
