import Isotherm.Function.Named
import Isotherm.Proofs.Number.Truncation

/-!
# Scaling by a power of two

A double is scaled by the integer part of its exponent, which is held within 2200 on either side.
That is far enough for the least positive double to pass the largest one, and for the largest one to
come to nothing, so the bound changes no result: each is the exact product, rounded once.
-/

namespace Isotherm

open Scaled

/-- `y` is `x · 2 ^ n` rounded once. Infinities and NaNs stay as they are. -/
def IsScaled (x : Float) (n : ℤ) (y : Float) : Prop :=
  if x.isFinite then RoundsTo (signBit x) ((ofFloat x).magnitude * 2 ^ n) y else y = x

theorem IsScaled.unique {x y y' : Float} {n : ℤ} (h : IsScaled x n y) (h' : IsScaled x n y') :
    y = y' := by
  by_cases hx : x.isFinite = true
  · rw [IsScaled, if_pos hx] at h h'
    exact h.unique h'
  · rw [IsScaled, if_neg hx] at h h'
    rw [h, h']

namespace Exponent

theorem isScaled_scale (x : Float) (n : ℤ) : IsScaled x n (scale x n) := by
  unfold IsScaled scale
  split
  next hx =>
    have hrounds := RoundsTo.of_nearest (signBit x)
      ((ofFloat x).mantissa <<< ((ofFloat x).exponent + n).toNat)
      (Integral.one_shiftLeft_pos (-((ofFloat x).exponent + n)).toNat)
    rwa [quotient_toFloat { ofFloat x with exponent := (ofFloat x).exponent + n },
      zpow_add₀ two_ne_zero, ← mul_assoc] at hrounds
  next => rfl

/-! ## Past the limit -/

variable {x : Float} {n : ℤ}

/-- No double but zero stays finite so far up. -/
theorem leastUnreached_le (hm : (ofFloat x).mantissa ≠ 0) (hn : scaleLimit ≤ n) :
    leastUnreached ≤ (ofFloat x).magnitude * 2 ^ n := by
  change 2200 ≤ n at hn
  calc (leastUnreached : ℚ) ≤ 2 ^ 53 * 2 ^ (971 : ℤ) := by
        rw [leastUnreached_eq]
        exact mul_le_mul_of_nonneg_right (by norm_num) (by positivity)
    _ = 2 ^ (1024 : ℤ) := by rw [← zpow_natCast, ← zpow_add₀ two_ne_zero]; rfl
    _ ≤ 2 ^ (-1074 + n) := zpow_le_zpow_right₀ one_le_two (by omega)
    _ = 2 ^ (-1074 : ℤ) * 2 ^ n := zpow_add₀ two_ne_zero ..
    _ ≤ (ofFloat x).magnitude * 2 ^ n :=
        mul_le_mul_of_nonneg_right (least_le_magnitude hm) (by positivity)

/-- Nothing is left of a finite double so far down. -/
theorem magnitude_mul_lt (hx : x.isFinite = true) (hn : n ≤ -scaleLimit) :
    (ofFloat x).magnitude * 2 ^ n < 2 ^ (-1075 : ℤ) := by
  change n ≤ -2200 at hn
  calc (ofFloat x).magnitude * 2 ^ n
      < 2 ^ (1024 : ℤ) * 2 ^ n := mul_lt_mul_of_pos_right (magnitude_lt hx) (by positivity)
    _ = 2 ^ (1024 + n) := (zpow_add₀ two_ne_zero ..).symm
    _ ≤ 2 ^ (-1075 : ℤ) := zpow_le_zpow_right₀ one_le_two (by omega)

/-- The limit changes no result. -/
theorem isScaled_clamped (x : Float) (n : ℤ) :
    IsScaled x n (scale x (max (-scaleLimit) (min scaleLimit n))) := by
  have hown := isScaled_scale x (max (-scaleLimit) (min scaleLimit n))
  have hlimit : scaleLimit = 2200 := rfl
  unfold IsScaled at hown ⊢
  split
  next hx =>
    rw [if_pos hx] at hown
    have hnonneg := magnitude_nonneg (ofFloat x)
    by_cases hm : (ofFloat x).mantissa = 0
    · rw [magnitude_eq_zero_iff.mpr hm, zero_mul] at hown ⊢
      exact hown
    · rcases lt_or_ge scaleLimit n with hlarge | hle
      · have hclamped : max (-scaleLimit) (min scaleLimit n) = scaleLimit := by omega
        rw [hclamped] at hown ⊢
        exact hown.of_large (leastUnreached_le hm le_rfl) (leastUnreached_le hm hlarge.le)
      · rcases lt_or_ge n (-scaleLimit) with hsmall | hge
        · have hclamped : max (-scaleLimit) (min scaleLimit n) = -scaleLimit := by omega
          rw [hclamped] at hown ⊢
          exact hown.of_small (by positivity) (magnitude_mul_lt hx le_rfl) (by positivity)
            (magnitude_mul_lt hx hsmall.le)
        · have hclamped : max (-scaleLimit) (min scaleLimit n) = n := by omega
          rwa [hclamped] at hown ⊢
  next hx => rwa [if_neg hx] at hown

theorem isScaled_ldexp (x exponent : Float) :
    IsScaled x (Integral.value (Integral.toInt64 exponent)) (ldexp x exponent) :=
  isScaled_clamped x _

/-- Scaling gives the double that the exact product with a power of two is rounded to, and no other.
The power is that of the integer part of the exponent, or of the least 64-bit integer where the
exponent is a NaN, infinite or out of range. -/
theorem ldexp_rounds_once (x exponent : Float) :
    (∀ n : ℤ, exponent.isFinite = true → n = towardZero (Amount.rational exponent) → |n| < 2 ^ 63 →
      ∀ y, IsScaled x n y ↔ y = Function2.ldexp.apply x exponent) ∧
    (exponent.isFinite = false ∨ 2 ^ 63 ≤ |towardZero (Amount.rational exponent)| →
      ∀ y, IsScaled x (-2 ^ 63) y ↔ y = Function2.ldexp.apply x exponent) := by
  have hscaled := isScaled_ldexp x exponent
  have hiff {n : ℤ} (h : IsScaled x n (ldexp x exponent)) (y : Float) :
      IsScaled x n y ↔ y = Function2.ldexp.apply x exponent :=
    ⟨fun hy => hy.unique h, fun hy => hy ▸ h⟩
  rw [Integral.value_toInt64_eq, Integral.value_eq_towardZero] at hscaled
  constructor
  · rintro n hfinite rfl hrange
    rw [if_pos ⟨hfinite, hrange⟩] at hscaled
    exact hiff hscaled
  · intro hout
    rw [if_neg] at hscaled
    · exact hiff hscaled
    · rintro ⟨hfinite, hrange⟩
      rw [hfinite] at hout
      exact hrange.not_ge (hout.resolve_left (by decide))

/-- The least positive double far past the limit, and the largest one by an exponent that is a
NaN. -/
theorem ldexp_rounds_once_extremes :
    (((3000.75 : Float).isFinite = true ∧
        3000 = towardZero (Amount.rational 3000.75) ∧ |(3000 : ℤ)| < 2 ^ 63) ∧
      ∀ y, IsScaled 5e-324 3000 y ↔ y = Function2.ldexp.apply 5e-324 3000.75) ∧
    (notANumber.isFinite = false ∧
      ∀ y, IsScaled 1.7976931348623157e308 (-2 ^ 63) y ↔
        y = Function2.ldexp.apply 1.7976931348623157e308 notANumber) := by
  have hfinite : (3000.75 : Float).isFinite = true := by decide +kernel
  have hpart : 3000 = towardZero (Amount.rational 3000.75) := by
    rw [← Integral.value_eq_towardZero]
    decide +kernel
  have hnan : notANumber.isFinite = false := by decide +kernel
  exact ⟨⟨⟨hfinite, hpart, by decide⟩,
      (ldexp_rounds_once 5e-324 3000.75).1 3000 hfinite hpart (by decide)⟩,
    hnan, (ldexp_rounds_once 1.7976931348623157e308 notANumber).2 (.inl hnan)⟩

end Exponent
end Isotherm
