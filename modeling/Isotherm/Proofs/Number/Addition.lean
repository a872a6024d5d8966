import Isotherm.Proofs.Number.RoundedOnce

/-!
# Sums are rounded once

The sum of two finite doubles is computed from mantissas over their smaller exponent and rounded
once. So it is exact wherever a double is there for it. A difference is the sum with the opposite.
-/

namespace Isotherm

open Scaled

/-! ## Doubles as rational numbers -/

theorem abs_rational (x : Float) : |Amount.rational x| = (ofFloat x).magnitude := by
  have hmagnitude := magnitude_nonneg (ofFloat x)
  show |if (ofFloat x).negative then -(ofFloat x).magnitude else (ofFloat x).magnitude| = _
  split
  · rw [abs_neg, abs_of_nonneg hmagnitude]
  · rw [abs_of_nonneg hmagnitude]

theorem rational_of_positive {x : Float} (h : signBit x = false) :
    Amount.rational x = (ofFloat x).magnitude :=
  if_neg (by rw [show (ofFloat x).negative = signBit x from rfl, h]; decide)

theorem rational_of_negative {x : Float} (h : signBit x = true) :
    Amount.rational x = -(ofFloat x).magnitude :=
  if_pos h

theorem rational_eq_sign_mul (x : Float) :
    Amount.rational x = (if signBit x then -1 else 1) * (ofFloat x).magnitude := by
  cases hs : signBit x with
  | false => rw [rational_of_positive hs, if_neg Bool.false_ne_true, one_mul]
  | true => rw [rational_of_negative hs, if_pos rfl, neg_one_mul]

theorem rational_eq_zero_iff {x : Float} : Amount.rational x = 0 ↔ (ofFloat x).mantissa = 0 := by
  rw [← abs_eq_zero, abs_rational, magnitude_eq_zero_iff]

/-- Off zero the sign of a double is that of its rational number. -/
theorem signBit_eq_decide {x : Float} (h : Amount.rational x ≠ 0) :
    signBit x = decide (Amount.rational x < 0) := by
  have hpos : 0 < (ofFloat x).magnitude := by
    rw [← abs_rational]
    exact abs_pos.mpr h
  cases hs : signBit x with
  | false => rw [rational_of_positive hs, decide_eq_false hpos.le.not_gt]
  | true => rw [rational_of_negative hs, decide_eq_true (neg_neg_of_pos hpos)]

/-- A double is known by its magnitude and, off zero, its sign. -/
theorem rational_eq_of_abs {x : Float} {q : ℚ} (habs : (ofFloat x).magnitude = |q|)
    (hsign : q ≠ 0 → signBit x = decide (q < 0)) : Amount.rational x = q := by
  obtain hneg | rfl | hpos := lt_trichotomy q 0
  · have hs := (hsign hneg.ne).trans (decide_eq_true hneg)
    rw [rational_of_negative hs, habs, abs_of_neg hneg, neg_neg]
  · rw [abs_zero, magnitude_eq_zero_iff] at habs
    exact rational_eq_zero_iff.mpr habs
  · have hs := (hsign hpos.ne').trans (decide_eq_false hpos.not_gt)
    rw [rational_of_positive hs, habs, abs_of_pos hpos]

/-- A finite double is the one nearest to its magnitude. -/
theorem eq_nearest_of_magnitude {x : Float} (hx : x.isFinite = true) {num den : Nat}
    (hden : 0 < den) (hq : (num : ℚ) / den = (ofFloat x).magnitude) :
    x = nearest (signBit x) num den := by
  apply Bits.eq_of_parts
  · rw [signBit_nearest_eq]
  · rw [magnitudeBits_nearest_magnitude hx _ hden hq]

namespace Bits

open Float.Model Float.Model.UnpackedFloat

theorem rational_eq_apply (x : Float) :
    Amount.rational x = ((sign x).apply (ofFloat x).mantissa : Int) * 2 ^ (ofFloat x).exponent := by
  cases hs : signBit x with
  | false => rw [rational_of_positive hs, sign_of_positive hs]; rfl
  | true =>
    rw [rational_of_negative hs, sign_of_negative hs]
    simp [magnitude, Sign.apply]

/-! ## Sums -/

theorem word_add (x y : Float) : word (x + y) =
    pack Format.binary64
      (add Format.binary64 (unpack Format.binary64 (word x)) (unpack Format.binary64 (word y))) :=
  rfl

/-- A mantissa over a smaller exponent. -/
theorem apply_shiftLeft (s : Sign) (m : Nat) {e least : Int} (h : least ≤ e) :
    ((s.apply (m <<< (e - least).toNat : Nat) : Int) : ℚ) * 2 ^ least =
      (s.apply m : Int) * 2 ^ e := by
  have hsplit : e = (e - least).toNat + least := by omega
  have hshift : ((m <<< (e - least).toNat : Nat) : ℚ) * 2 ^ least = m * 2 ^ e := by
    conv_rhs => rw [hsplit, zpow_add₀ two_ne_zero, zpow_natCast]
    rw [Nat.shiftLeft_eq, Nat.cast_mul, Nat.cast_pow, Nat.cast_ofNat, mul_assoc]
  cases s with
  | positive => exact hshift
  | negative =>
    simp only [Sign.apply, Int.cast_neg, Int.cast_natCast]
    rw [Rat.neg_mul, Rat.neg_mul, hshift]

/-- The mantissas over the smaller exponent, added with their signs. -/
def alignedSum (x y : Float) : Int :=
  let least := min (ofFloat x).exponent (ofFloat y).exponent
  (sign x).apply ((ofFloat x).mantissa <<< ((ofFloat x).exponent - least).toNat : Nat) +
    (sign y).apply ((ofFloat y).mantissa <<< ((ofFloat y).exponent - least).toNat : Nat)

theorem alignedSum_eq (x y : Float) :
    (alignedSum x y : ℚ) * 2 ^ min (ofFloat x).exponent (ofFloat y).exponent =
      Amount.rational x + Amount.rational y := by
  rw [alignedSum, Int.cast_add, add_mul, apply_shiftLeft _ _ (min_le_left ..),
    apply_shiftLeft _ _ (min_le_right ..), rational_eq_apply, rational_eq_apply]

/-- The sum of finite doubles is the double nearest to the sum of their rational numbers. Only a
zero sum can have either sign. -/
theorem add_eq_nearest {x y : Float} (hx : x.isFinite = true) (hy : y.isFinite = true)
    {num den : Nat} (hden : 0 < den)
    (hq : (num : ℚ) / den = |Amount.rational x + Amount.rational y|) :
    ∃ negative, x + y = nearest negative num den ∧
      (Amount.rational x + Amount.rational y ≠ 0 →
        negative = decide (Amount.rational x + Amount.rational y < 0)) := by
  have hword := word_add x y
  have hpack {z : Float} (hz : z.isFinite = true) :
      pack Format.binary64 (unpack Format.binary64 (word z)) = word z :=
    pack_unpack fun h => unpackExponent_ne_ones hz h.1
  have hself {z : Float} (hz : z.isFinite = true) (hsum : word (x + y) = word z)
      (hrational : Amount.rational x + Amount.rational y = Amount.rational z) :
      ∃ negative, x + y = nearest negative num den ∧
        (Amount.rational x + Amount.rational y ≠ 0 →
          negative = decide (Amount.rational x + Amount.rational y < 0)) := by
    rw [hrational, abs_rational] at hq
    rw [hrational, word_injective hsum]
    exact ⟨signBit z, eq_nearest_of_magnitude hz hden hq, signBit_eq_decide⟩
  obtain ⟨hux, hmx⟩ | ⟨hmx, hux⟩ := unpack_word hx <;>
    obtain ⟨huy, hmy⟩ | ⟨hmy, huy⟩ := unpack_word hy <;>
    rw [hux, huy] at hword
  · have hd : (den : ℚ) ≠ 0 := by exact_mod_cast hden.ne'
    have hsum : Amount.rational x + Amount.rational y = 0 := by
      rw [rational_eq_zero_iff.mpr hmx, rational_eq_zero_iff.mpr hmy, add_zero]
    rw [hsum, abs_zero, div_eq_zero_iff, or_iff_left hd, Nat.cast_eq_zero] at hq
    obtain ⟨s, hs⟩ : ∃ s, add Format.binary64 (.zero (sign x)) (.zero (sign y)) = .zero s := by
      cases sign x <;> cases sign y <;> exact ⟨_, rfl⟩
    rw [hs] at hword
    exact ⟨isNegative s, hq ▸ eq_nearest_zero hword den, fun h => absurd hsum h⟩
  · have hown := hpack hy
    rw [huy] at hown
    exact hself hy (hword.trans hown) (by rw [rational_eq_zero_iff.mpr hmx, zero_add])
  · have hown := hpack hx
    rw [hux] at hown
    exact hself hx (hword.trans hown) (by rw [rational_eq_zero_iff.mpr hmy, add_zero])
  · have hunit : (0 : ℚ) < 2 ^ min (ofFloat x).exponent (ofFloat y).exponent := by positivity
    rw [← alignedSum_eq] at hq ⊢
    refine ⟨_, eq_nearest_of_normalize (m := alignedSum x y) hword hden ?_, fun _ => ?_⟩
    · rw [hq, abs_mul, abs_of_pos hunit]
    · rw [decide_eq_decide, ← not_le, ← not_le, mul_nonneg_iff_of_pos_right hunit,
        Int.cast_nonneg_iff]

/-! ## Differences -/

theorem word_sub (x y : Float) : word (x - y) =
    pack Format.binary64
      (sub Format.binary64 (unpack Format.binary64 (word x)) (unpack Format.binary64 (word y))) :=
  rfl

theorem sub_eq_add_opposite (a b : UnpackedFloat) :
    sub Format.binary64 a b = add Format.binary64 a b.neg := by
  have hopposite (s : Sign) (n : Int) : (-s).apply n = -s.apply n := by
    cases s
    · exact (Int.neg_neg n).symm
    · rfl
  cases a <;> cases b <;> try rfl
  simp only [UnpackedFloat.sub, UnpackedFloat.add, UnpackedFloat.neg, hopposite, Int.sub_eq_add_neg]

theorem unpack_word_neg {y : Float} (hy : y.isFinite = true) :
    unpack Format.binary64 (word (-y)) = (unpack Format.binary64 (word y)).neg := by
  have hones := unpackExponent_ne_ones hy
  rw [word_neg, unpack_eq_decode (word y), neg_decode, pack_decode _ _ _ (fun h => absurd h hones)]
  rfl

theorem sub_eq_add_neg (x : Float) {y : Float} (hy : y.isFinite = true) : x - y = x + -y := by
  apply word_injective
  rw [word_sub, word_add, unpack_word_neg hy, sub_eq_add_opposite]

theorem rational_neg {x : Float} (hx : x.isFinite = true) :
    Amount.rational (-x) = -Amount.rational x := by
  rw [rational_eq_sign_mul, rational_eq_sign_mul, signBit_neg hx,
    magnitude_eq_of_magnitudeBits_eq (magnitudeBits_neg hx)]
  cases signBit x <;> simp

end Bits

/-! ## Exact sums -/

namespace Scaled

/-- Whatever a mantissa of 53 bits makes at a place in range is a double. -/
theorem exists_magnitude_eq {k : Nat} {place : Int} (hk : k < 2 ^ 53) (hleast : -1074 ≤ place)
    (hmost : place ≤ 971) :
    ∃ x : Float, x.isFinite = true ∧ (ofFloat x).magnitude = k * 2 ^ place := by
  by_cases hzero : k = 0
  · refine ⟨0.0, by decide +kernel, ?_⟩
    rw [hzero, Nat.cast_zero, zero_mul, magnitude_eq_zero_iff]
    decide +kernel
  · have hpos := Nat.pos_of_ne_zero hzero
    have hlog := log2_le_of_lt hk
    have hlow : 2 ^ k.log2 ≤ k := Nat.log2_self_le hzero
    have hhigh : k < 2 ^ (k.log2 + 1) := Nat.lt_log2_self
    -- as many places as fill the mantissa, unless the least exponent comes first
    obtain ⟨n, hn⟩ : ∃ n, n = min (52 - k.log2) (place + 1074).toNat := ⟨_, rfl⟩
    have hs : Canonical ⟨false, k * 2 ^ n, place - n⟩ := by
      constructor
      · exact Nat.mul_pos hpos (Nat.two_pow_pos n)
      · calc k * 2 ^ n < 2 ^ (k.log2 + 1) * 2 ^ n :=
              Nat.mul_lt_mul_of_pos_right hhigh (Nat.two_pow_pos n)
          _ = 2 ^ (k.log2 + 1 + n) := (pow_add ..).symm
          _ ≤ 2 ^ 53 := Nat.pow_le_pow_right Nat.two_pos (by omega)
      · show -1074 ≤ place - n
        omega
      · show place - n ≤ 971
        omega
      · obtain hfull | hend := Nat.le_or_le (52 - k.log2) (place + 1074).toNat
        · left
          calc 2 ^ 52 = 2 ^ k.log2 * 2 ^ n := by rw [← pow_add]; congr 1; omega
            _ ≤ k * 2 ^ n := Nat.mul_le_mul_right _ hlow
        · right
          show place - n = -1074
          omega
    obtain ⟨x, hx⟩ : ∃ x, ofFloat x = ⟨false, k * 2 ^ n, place - n⟩ := ⟨_, ofFloat_ofBits hs⟩
    refine ⟨x, ?_, ?_⟩
    · rw [Bits.isFinite_iff, ← Bits.bits_ofFloat, hx]
      exact hs.bits_lt
    · rw [hx, magnitude, Nat.cast_mul, Nat.cast_pow, Nat.cast_ofNat, mul_assoc, ← zpow_natCast,
        ← zpow_add₀ two_ne_zero, add_sub_cancel]

end Scaled

namespace Bits

/-- A sum that a double is there for is exact. -/
theorem add_exact {x y : Float} (hx : x.isFinite = true) (hy : y.isFinite = true) (k : Nat)
    (place : Int) (hk : k < 2 ^ 53) (hleast : -1074 ≤ place) (hmost : place ≤ 971)
    (hsum : |Amount.rational x + Amount.rational y| = k * 2 ^ place) :
    (x + y).isFinite = true ∧
      Amount.rational (x + y) = Amount.rational x + Amount.rational y := by
  obtain ⟨z, hz, hmagnitude⟩ := exists_magnitude_eq hk hleast hmost
  have hquotient := (quotient_toFloat (ofFloat z)).trans (hmagnitude.trans hsum.symm)
  obtain ⟨negative, heq, hsign⟩ :=
    add_eq_nearest hx hy (Integral.one_shiftLeft_pos (-(ofFloat z).exponent).toNat) hquotient
  have hbits : magnitudeBits (x + y) = magnitudeBits z := by
    rw [heq, magnitudeBits_nearest_magnitude hz negative
      (Integral.one_shiftLeft_pos (-(ofFloat z).exponent).toNat) (quotient_toFloat (ofFloat z))]
  refine ⟨?_, rational_eq_of_abs ?_ fun hzero => ?_⟩
  · rw [isFinite_iff, hbits]
    exact (isFinite_iff z).mp hz
  · rw [magnitude_eq_of_magnitudeBits_eq hbits, hmagnitude, hsum]
  · rw [heq, signBit_nearest_eq, hsign hzero]

end Bits
end Isotherm
