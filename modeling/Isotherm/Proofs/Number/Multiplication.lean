import Isotherm.Proofs.Number.Rounding
import Isotherm.Proofs.Number.Whole

/-!
# Products are rounded once

A mantissa is rounded in two steps: it is shifted down with the two bits that decide about the rest,
and shifted once more if rounding up carries. That is one rounding of the exact quotient to the
nearest double. So the product of two finite doubles is the double nearest to the product of their
magnitudes, be it zero, subnormal or past the largest double.
-/

namespace Isotherm

namespace Bits

open Float.Model Float.Model.UnpackedFloat

/-! ## The bits that are cut off -/

/-- One bit tells whether the rest reaches a half, the other whether it is neither none nor a half. -/
theorem residualBits_shiftRight (m n : Nat) :
    ((ExtendedMantissa.ofMantissaAndAccuracy m .exact >>> n).roundBit = true ↔
        2 ^ n ≤ 2 * (m % 2 ^ n)) ∧
      ((ExtendedMantissa.ofMantissaAndAccuracy m .exact >>> n).stickyBit = true ↔
        m % 2 ^ n ≠ 0 ∧ 2 * (m % 2 ^ n) ≠ 2 ^ n) := by
  induction n with
  | zero =>
    have hkept : ExtendedMantissa.ofMantissaAndAccuracy m .exact >>> 0 = ⟨m, false, false⟩ := rfl
    rw [hkept, pow_zero, Nat.mod_one]
    exact ⟨by simp, by simp⟩
  | succ n ih =>
    obtain ⟨hround, hsticky⟩ := ih
    have hmantissa := mantissa_shiftRight (ExtendedMantissa.ofMantissaAndAccuracy m .exact) n
    generalize hem : ExtendedMantissa.ofMantissaAndAccuracy m .exact >>> n = em at *
    have hstep : ExtendedMantissa.ofMantissaAndAccuracy m .exact >>> (n + 1) = em.shiftRightOne := by
      rw [← hem]
      rfl
    have hrest : m % 2 ^ (n + 1) = m % 2 ^ n + 2 ^ n * (em.mantissa % 2) := by
      rw [Nat.mod_pow_succ, hmantissa]
      rfl
    have hlt : m % 2 ^ n < 2 ^ n := Nat.mod_lt _ (Nat.two_pow_pos n)
    rw [hstep, hrest, pow_succ]
    simp only [ExtendedMantissa.shiftRightOne, bne_iff_ne, Bool.or_eq_true, hround, hsticky]
    generalize m % 2 ^ n = rest at *
    generalize 2 ^ n = unit at *
    obtain hbit | hbit := Nat.mod_two_eq_zero_or_one em.mantissa
    · rw [hbit, Nat.mul_zero]
      omega
    · rw [hbit, Nat.mul_one]
      omega

/-- The two bits that are kept tell on which side of a half the rest lies. -/
theorem roundedMantissa_shiftRight (m n : Nat) :
    (ExtendedMantissa.ofMantissaAndAccuracy m .exact >>> n).roundedMantissa =
      Scaled.roundDiv m (2 ^ n) := by
  obtain ⟨hround, hsticky⟩ := residualBits_shiftRight m n
  have hmantissa := mantissa_shiftRight (ExtendedMantissa.ofMantissaAndAccuracy m .exact) n
  have hpos : 0 < 2 ^ n := Nat.two_pow_pos n
  generalize ExtendedMantissa.ofMantissaAndAccuracy m .exact >>> n = em at *
  obtain ⟨mantissa, roundBit, stickyBit⟩ := em
  change mantissa = m / 2 ^ n at hmantissa
  unfold Scaled.roundDiv
  rw [← hmantissa]
  generalize m % 2 ^ n = rest at *
  generalize 2 ^ n = unit at *
  cases roundBit <;> cases stickyBit <;>
    simp only [ExtendedMantissa.roundedMantissa, ExtendedMantissa.accuracy,
      Accuracy.roundToNearestEven, Bool.false_eq_true, false_iff, true_iff] at hround hsticky ⊢ <;>
    split_ifs <;> omega

/-! ## Encoding -/

theorem toNat_pack_finite (s : Sign) {m : Nat} {e : Int} (hm : 0 < m) (hlt : m < 2 ^ 53)
    (hleast : -1074 ≤ e) (hfull : 2 ^ 52 ≤ m ∨ e = -1074) :
    (pack Format.binary64 (.finite s m e hm)).toNat =
      s.toBitVec.toNat * 2 ^ 63 + min ((e + 1074).toNat * 2 ^ 52 + m) Scaled.infinityBits := by
  have hpack : pack Format.binary64 (.finite s m e hm) =
      if 2048 ≤ (e + 1023 + 52).toNat + 1 then packedInfinity Format.binary64 s
      else if m.log2 + 1 = 53 then
        packComponents Format.binary64 s (BitVec.ofNat 11 (e + 1023 + 52).toNat)
          (BitVec.ofNat 52 m)
      else packComponents Format.binary64 s 0#11 (BitVec.ofNat 52 m) := rfl
  have hinfinity : (packedInfinity Format.binary64 s).toNat =
      s.toBitVec.toNat * 2 ^ 63 + 2047 * 2 ^ 52 := by cases s <;> rfl
  have hlog : m.log2 + 1 = 53 ↔ 2 ^ 52 ≤ m := by
    rw [Nat.succ_inj, Nat.log2_eq_iff (Nat.ne_of_gt hm)]
    omega
  have hfield : (BitVec.ofNat 11 (e + 1023 + 52).toNat).toNat = (e + 1023 + 52).toNat % 2 ^ 11 := by
    rw [BitVec.toNat_ofNat]
  have hfraction : (BitVec.ofNat 52 m).toNat = m % 2 ^ 52 := BitVec.toNat_ofNat ..
  rw [hpack]
  split
  next hlarge =>
    have hle : Scaled.infinityBits ≤ (e + 1074).toNat * 2 ^ 52 + m := by
      show 2047 * 2 ^ 52 ≤ _
      omega
    rw [hinfinity, Nat.min_eq_right hle]
    rfl
  next hsmall =>
    have hle : (e + 1074).toNat * 2 ^ 52 + m ≤ Scaled.infinityBits := by
      show _ ≤ 2047 * 2 ^ 52
      omega
    rw [Nat.min_eq_left hle]
    split
    next hnormal =>
      rw [hlog] at hnormal
      rw [toNat_packComponents, hfield, hfraction]
      omega
    next hsubnormal =>
      rw [hlog] at hsubnormal
      have hzero : (0#11 : BitVec 11).toNat = 0 := rfl
      rw [toNat_packComponents, hzero, hfraction]
      omega

/-- Rounding in two steps gives the word that one rounding at the last place gives. -/
theorem toNat_pack_roundWithAccuracy (s : Sign) {m : Nat} {e place : Int} {n : Nat} (hm : 0 < m)
    (hplace : place = max (m.log2 + e - 52) (-1074)) (hn : e + n = place) :
    (pack Format.binary64 (roundWithAccuracy Format.binary64 s m e .exact)).toNat =
      s.toBitVec.toNat * 2 ^ 63 +
        min ((place + 1074).toNat * 2 ^ 52 + Scaled.roundDiv m (2 ^ n)) Scaled.infinityBits := by
  obtain ⟨n₁, hfirst, hn₁⟩ := shiftToTargetExponent_eq m e
  obtain rfl : n₁ = n := by omega
  unfold roundWithAccuracy
  rw [hfirst]
  dsimp only
  rw [roundedMantissa_shiftRight, hn]
  have hlow : place = -1074 ∨ 2 ^ 52 ≤ Scaled.roundDiv m (2 ^ n₁) := by
    rw [or_iff_not_imp_left]
    intro hne
    refine Scaled.le_roundDiv (Nat.two_pow_pos n₁) ?_
    rw [← pow_add]
    exact (Nat.pow_le_pow_right (by decide) (by omega)).trans (Nat.log2_self_le (Nat.ne_of_gt hm))
  have hhigh : Scaled.roundDiv m (2 ^ n₁) ≤ 2 ^ 53 := by
    refine Scaled.roundDiv_le (Nat.two_pow_pos n₁) ?_
    rw [← pow_add]
    exact Nat.lt_log2_self.le.trans (Nat.pow_le_pow_right (by decide) (by omega))
  generalize Scaled.roundDiv m (2 ^ n₁) = rounded at *
  obtain ⟨n₂, hsecond, hn₂⟩ := shiftToTargetExponent_eq rounded place
  have hmantissa := mantissa_shiftRight (ExtendedMantissa.ofMantissaAndAccuracy rounded .exact) n₂
  change _ = rounded / 2 ^ n₂ at hmantissa
  rw [hsecond]
  dsimp only
  rw [hmantissa]
  by_cases hcarry : rounded = 2 ^ 53
  · -- the carry leaves a power of two, which is shifted down exactly
    have hlog : rounded.log2 = 53 := by rw [hcarry, Nat.log2_two_pow]
    obtain rfl : n₂ = 1 := by omega
    have hhalf : rounded / 2 ^ 1 = 2 ^ 52 := by omega
    have hbits : (place + (1 : Nat) + 1074).toNat * 2 ^ 52 + rounded / 2 ^ 1 =
        (place + 1074).toNat * 2 ^ 52 + rounded := by omega
    rw [dif_neg (by omega), toNat_pack_finite s _ (by omega) (by omega) (by omega), hbits]
  · have hlog : rounded.log2 ≤ 52 := Scaled.log2_le_of_lt (by omega)
    obtain rfl : n₂ = 0 := by omega
    rw [pow_zero, Nat.div_one, Nat.cast_zero, add_zero]
    by_cases hzero : rounded = 0
    · obtain rfl : place = -1074 := by omega
      rw [dif_pos hzero, hzero]
      cases s <;> rfl
    · rw [dif_neg hzero, toNat_pack_finite s _ (by omega) (by omega) (by omega)]

/-! ## One rounding -/

def isNegative : Sign → Bool
  | .negative => true
  | .positive => false

theorem toNat_toBitVec (s : Sign) : s.toBitVec.toNat = (isNegative s).toNat := by
  cases s <;> rfl

theorem isNegative_sign (x : Float) : isNegative (sign x) = signBit x := by
  cases hx : signBit x
  · rw [sign_of_positive hx]
    rfl
  · rw [sign_of_negative hx]
    rfl

theorem isNegative_mul (s t : Sign) : isNegative (s * t) = (isNegative s != isNegative t) := by
  cases s <;> cases t <;> rfl

theorem toNat_word_nearest (negative : Bool) (num den : Nat) :
    (word (Scaled.nearest negative num den)).toNat =
      negative.toNat * 2 ^ 63 + magnitudeBits (Scaled.nearest negative num den) := by
  show (Scaled.nearest negative num den).toBits.toNat = _
  rw [Scaled.toNat_toBits_nearest]
  cases negative
  · simp
  · simp
    omega

theorem eq_nearest_zero {x : Float} {s : Sign} (hx : word x = pack Format.binary64 (.zero s))
    (den : Nat) : x = Scaled.nearest (isNegative s) 0 den := by
  apply word_injective
  apply BitVec.eq_of_toNat_eq
  rw [toNat_word_nearest, Scaled.magnitudeBits_nearest, if_pos rfl, hx]
  cases s <;> rfl

/-- A mantissa whose exponent is no larger than the last place is rounded to the nearest double. -/
theorem eq_nearest_of_round {x : Float} {s : Sign} {m : Nat} {e : Int}
    (hx : word x = pack Format.binary64 (roundWithAccuracy Format.binary64 s m e .exact))
    (hm : 0 < m) (he : e ≤ max (m.log2 + e - 52) (-1074)) {num den : Nat} (hden : 0 < den)
    (hq : (num : ℚ) / den = m * 2 ^ e) : x = Scaled.nearest (isNegative s) num den := by
  have hmq : (0 : ℚ) < m := by exact_mod_cast hm
  have hdq : (0 : ℚ) < den := by exact_mod_cast hden
  have hnum : 0 < num := by
    have hpos : (0 : ℚ) < num / den := by
      rw [hq]
      positivity
    rw [div_pos_iff_of_pos_right hdq] at hpos
    exact_mod_cast hpos
  obtain ⟨place, hplace⟩ : ∃ place, place = max (m.log2 + e - 52) (-1074) := ⟨_, rfl⟩
  obtain ⟨n, hn⟩ : ∃ n : Nat, e + n = place := ⟨(place - e).toNat, by omega⟩
  have hlast : Scaled.lastPlace num den = place := by
    obtain ⟨hlow, hhigh⟩ := Scaled.log2_bounds hm
    apply Scaled.lastPlace_eq hnum hden (by omega)
    · rw [or_iff_not_imp_left]
      intro hne
      have hexp : place + 52 = e + m.log2 := by omega
      rwa [hq, hexp, Shortest.zpow_add_le_iff]
    · have hexp : place + 53 = e + (n + 53) := by omega
      rw [hq, hexp, ← not_le, Shortest.zpow_add_le_iff, not_le]
      exact hhigh.trans_le (zpow_le_zpow_right₀ one_le_two (by omega))
  have hround : Scaled.roundDiv (num <<< (-place).toNat) (den <<< place.toNat) =
      Scaled.roundDiv m (2 ^ n) := by
    apply Scaled.roundDiv_congr (Shortest.shifted_den_pos hden place) (Nat.two_pow_pos n)
    rw [Scaled.shifted_quotient, hq, ← hn, zpow_add₀ two_ne_zero, zpow_natCast, Nat.cast_pow,
      Nat.cast_ofNat, mul_comm ((2 : ℚ) ^ e), mul_div_mul_right _ _ (by positivity)]
  apply word_injective
  apply BitVec.eq_of_toNat_eq
  rw [toNat_word_nearest, Scaled.magnitudeBits_nearest, if_neg hnum.ne', hlast, hround, hx,
    toNat_pack_roundWithAccuracy s hm hplace hn, toNat_toBitVec]

/-! ## Products -/

theorem le_lastPlace_mul {s r : Scaled} (hs : s.Canonical) (hr : r.Canonical) :
    s.exponent + r.exponent ≤ max ((s.mantissa * r.mantissa).log2 + (s.exponent + r.exponent) - 52)
      (-1074) := by
  obtain ⟨hspos, -, -, -, hsfull⟩ := hs
  obtain ⟨hrpos, -, -, -, hrfull⟩ := hr
  by_cases hfull : 2 ^ 52 ≤ s.mantissa * r.mantissa
  · have hlog : 52 ≤ (s.mantissa * r.mantissa).log2 :=
      (Nat.le_log2 (Nat.mul_pos hspos hrpos).ne').mpr hfull
    omega
  · -- then both are subnormal, and the product lies far below the least exponent
    have hsle : s.mantissa ≤ s.mantissa * r.mantissa := Nat.le_mul_of_pos_right _ hrpos
    have hrle : r.mantissa ≤ s.mantissa * r.mantissa := Nat.le_mul_of_pos_left _ hspos
    omega

/-- The product of finite doubles is the double nearest to the product of their magnitudes. -/
theorem mul_eq_nearest {x y : Float} (hx : x.isFinite = true) (hy : y.isFinite = true)
    {num den : Nat} (hden : 0 < den)
    (hq : (num : ℚ) / den = (Scaled.ofFloat x).mantissa * 2 ^ (Scaled.ofFloat x).exponent *
      ((Scaled.ofFloat y).mantissa * 2 ^ (Scaled.ofFloat y).exponent)) :
    x * y = Scaled.nearest (signBit x != signBit y) num den := by
  have hword := word_mul x y
  have hdq : (den : ℚ) ≠ 0 := by exact_mod_cast hden.ne'
  rw [← isNegative_sign x, ← isNegative_sign y, ← isNegative_mul]
  have hzero (hu : word (x * y) = pack Format.binary64 (.zero (sign x * sign y)))
      (hm : (Scaled.ofFloat x).mantissa = 0 ∨ (Scaled.ofFloat y).mantissa = 0) :
      x * y = Scaled.nearest (isNegative (sign x * sign y)) num den := by
    have hnum : num = 0 := by
      have hproduct : (num : ℚ) / den = 0 := by
        rw [hq]
        rcases hm with hm | hm <;> simp [hm]
      rw [div_eq_zero_iff, or_iff_left hdq] at hproduct
      exact_mod_cast hproduct
    rw [hnum]
    exact eq_nearest_zero hu den
  obtain ⟨hux, hmx⟩ | ⟨hmx, hux⟩ := unpack_word hx <;>
    obtain ⟨huy, hmy⟩ | ⟨hmy, huy⟩ := unpack_word hy <;>
    rw [hux, huy] at hword
  · exact hzero hword (.inl hmx)
  · exact hzero hword (.inl hmx)
  · exact hzero hword (.inr hmy)
  · have hcx := Scaled.canonical_ofFloat hx hmx.ne'
    have hcy := Scaled.canonical_ofFloat hy hmy.ne'
    refine eq_nearest_of_round hword (Nat.mul_pos hmx hmy) (le_lastPlace_mul hcx hcy) hden ?_
    rw [hq, Nat.cast_mul, zpow_add₀ two_ne_zero, mul_mul_mul_comm]

/-- A product is rounded from the product of the mantissas with the sum of the exponents. -/
theorem mul_eq_toFloat {x y : Float} (hx : x.isFinite = true) (hy : y.isFinite = true) :
    x * y = Scaled.toFloat ⟨signBit x != signBit y,
      (Scaled.ofFloat x).mantissa * (Scaled.ofFloat y).mantissa,
      (Scaled.ofFloat x).exponent + (Scaled.ofFloat y).exponent⟩ := by
  apply mul_eq_nearest hx hy
  · rw [Nat.one_shiftLeft]
    positivity
  · rw [Scaled.quotient_toFloat ⟨signBit x != signBit y, _, _⟩, Nat.cast_mul,
      zpow_add₀ two_ne_zero, mul_mul_mul_comm]

/-! ## Integers -/

theorem log2_shiftLeft {k : Nat} (hk : 0 < k) (n : Nat) : (k <<< n).log2 = k.log2 + n := by
  rw [Nat.shiftLeft_eq, Nat.log2_eq_iff (by positivity)]
  have hlow := Nat.log2_self_le (Nat.ne_of_gt hk)
  have hhigh : k < 2 ^ (k.log2 + 1) := Nat.lt_log2_self
  constructor
  · rw [pow_add]
    exact Nat.mul_le_mul_right _ hlow
  · rw [Nat.add_right_comm, pow_add]
    exact Nat.mul_lt_mul_of_pos_right hhigh (Nat.two_pow_pos n)

theorem quotient_shiftLeft (k n : Nat) :
    (k : ℚ) / (1 : Nat) = (k <<< n : Nat) * 2 ^ (-(n : Int)) := by
  rw [Nat.shiftLeft_eq, Nat.cast_one, div_one, Nat.cast_mul, Nat.cast_pow, Nat.cast_ofNat,
    zpow_neg, zpow_natCast, mul_inv_cancel_right₀ (by positivity)]

/-- A mantissa is shifted up to 53 bits if it has fewer, and then rounded. -/
theorem eq_nearest_of_exact {x : Float} {s : Sign} {m : Nat} {e : Int}
    (hx : word x = pack Format.binary64 (UnpackedFloat.round Format.binary64 s m e)) (hm : 0 < m)
    {num den : Nat} (hden : 0 < den) (hq : (num : ℚ) / den = m * 2 ^ e) :
    x = Scaled.nearest (isNegative s) num den := by
  obtain ⟨n, hn, hshift⟩ : ∃ n : Nat, n = (e - max (m.log2 + e - 52) (-1074)).toNat ∧
      UnpackedFloat.round Format.binary64 s m e =
        roundWithAccuracy Format.binary64 s (m <<< n) (e - n) .exact := by
    refine ⟨(e - Format.binary64.targetExponent (totalExponent m e)).toNat, ?_, rfl⟩
    simp only [Format.targetExponent, totalExponent, Format.mantissaBits, Format.minExponent]
    norm_num
    omega
  rw [hshift] at hx
  refine eq_nearest_of_round hx (by rw [Nat.shiftLeft_eq]; positivity) ?_ hden ?_
  · rw [log2_shiftLeft hm]
    omega
  · rw [hq, Nat.shiftLeft_eq, Nat.cast_mul, Nat.cast_pow, Nat.cast_ofNat, mul_assoc,
      ← zpow_natCast, ← zpow_add₀ two_ne_zero, add_sub_cancel]

/-- An integer mantissa is rounded as its magnitude, with its sign. -/
theorem eq_nearest_of_normalize {x : Float} {m e : Int}
    (hx : word x = pack Format.binary64 (UnpackedFloat.normalize Format.binary64 m e .positive))
    {num den : Nat} (hden : 0 < den) (hq : (num : ℚ) / den = |(m : ℚ)| * 2 ^ e) :
    x = Scaled.nearest (decide (m < 0)) num den := by
  unfold UnpackedFloat.normalize at hx
  rw [← Int.cast_abs, ← Nat.cast_natAbs] at hq
  rcases lt_trichotomy m 0 with hneg | rfl | hpos
  · rw [compare_lt_iff_lt.mpr hneg] at hx
    have hnat : (-m).toNat = m.natAbs := by omega
    rw [decide_eq_true hneg]
    exact eq_nearest_of_exact (s := .negative) (hnat ▸ hx) (by omega) hden hq
  · have hd : (den : ℚ) ≠ 0 := by exact_mod_cast hden.ne'
    rw [Int.natAbs_zero, Nat.cast_zero, zero_mul, div_eq_zero_iff, or_iff_left hd,
      Nat.cast_eq_zero] at hq
    rw [hq]
    exact eq_nearest_zero (s := .positive) hx den
  · rw [compare_gt_iff_gt.mpr hpos] at hx
    have hnat : m.toNat = m.natAbs := by omega
    rw [decide_eq_false hpos.le.not_gt]
    exact eq_nearest_of_exact (s := .positive) (hnat ▸ hx) (by omega) hden hq

theorem eq_nearest_of_ofNat {x : Float} {k : Nat}
    (hx : word x = pack Format.binary64 (UnpackedFloat.ofNat Format.binary64 k)) :
    x = Scaled.nearest false k 1 := by
  have hquotient : (k : ℚ) / (1 : Nat) = |((k : Int) : ℚ)| * 2 ^ (0 : Int) := by simp
  rw [eq_nearest_of_normalize hx Nat.one_pos hquotient, decide_eq_false (by omega)]

/-- The magnitude of the double of a natural number that is a double. -/
theorem magnitude_nearest_one (negative : Bool) {k : Nat} (h : k < 2 ^ 53) :
    ((Scaled.ofFloat (Scaled.nearest negative k 1)).mantissa : ℚ) *
      2 ^ (Scaled.ofFloat (Scaled.nearest negative k 1)).exponent = k := by
  by_cases hk : k = 0
  · rw [hk, Scaled.mantissa_nearest_zero, Nat.cast_zero, zero_mul]
  · rw [Scaled.ofFloat_nearest_one negative (Nat.pos_of_ne_zero hk) h,
      Scaled.ofMagnitude_magnitude negative h]

theorem toFloat_toUInt64 {k : Nat} (hk : k < 2 ^ 53) :
    k.toUInt64.toFloat = Scaled.nearest false k 1 := by
  have hword : word k.toUInt64.toFloat =
      pack Format.binary64 (UnpackedFloat.ofNat Format.binary64 k.toUInt64.toNat) := rfl
  rw [Nat.toUInt64, UInt64.toNat_ofNat', Nat.mod_eq_of_lt (by omega)] at hword
  exact eq_nearest_of_ofNat hword

/-- A whole number that is a double, times one. -/
theorem nearest_one_mul_one {k : Nat} (hk : k < 2 ^ 53) :
    Scaled.nearest false k 1 * Float.ofBits 0x3FF0000000000000 = Scaled.nearest false k 1 := by
  obtain ⟨one, hone⟩ : ∃ one, one = Float.ofBits 0x3FF0000000000000 := ⟨_, rfl⟩
  rw [← hone]
  have hunit : Scaled.ofFloat one = ⟨false, 2 ^ 52, -52⟩ := by
    rw [hone]
    decide +kernel
  have hpositive : signBit one = false := by
    rw [hone]
    decide +kernel
  have hfinite : one.isFinite = true := by
    rw [hone]
    decide +kernel
  have hquotient : (k : ℚ) / (1 : Nat) =
      (Scaled.ofFloat (Scaled.nearest false k 1)).mantissa *
        2 ^ (Scaled.ofFloat (Scaled.nearest false k 1)).exponent *
      ((Scaled.ofFloat one).mantissa * 2 ^ (Scaled.ofFloat one).exponent) := by
    rw [magnitude_nearest_one false hk, hunit]
    norm_num
  rw [mul_eq_nearest (Integral.isFinite_nearest_one false hk) hfinite Nat.one_pos hquotient,
    Scaled.signBit_nearest_eq, hpositive]
  rfl

/-- What is too large to be converted directly is rounded from a shifted mantissa. -/
theorem word_ofNat_of_le {k : Nat} (hk : 2 ^ 53 ≤ k) :
    word (Float.ofNat k) = pack Format.binary64
      (roundWithAccuracy Format.binary64 .positive (k <<< 53) (-53) .exact) := by
  have hmodel : Float.ofNat k = Float.ofModel (Float.Model.ofScientific k (Int.ofNat 0)) := by
    show Float.ofScientific k false 0 = _
    unfold Float.ofScientific
    rw [dif_neg (by omega)]
    rfl
  have hscientific : UnpackedFloat.ofScientific Format.binary64 k (Int.ofNat 0) =
      roundWithAccuracy Format.binary64 .positive (k <<< 53 * 10 ^ 0) (-53 + 0) .exact := by
    unfold UnpackedFloat.ofScientific
    rw [dif_neg (by omega), if_neg (by norm_num), if_neg, if_pos (by norm_num)]
    · rfl
    · show ¬(0 : Int) < -(2048 + k.log2)
      omega
  rw [pow_zero, mul_one, add_zero] at hscientific
  rw [hmodel, ← hscientific]
  rfl

/-- A natural number is converted to the nearest double. -/
theorem ofNat_eq_nearest (k : Nat) : Float.ofNat k = Scaled.nearest false k 1 := by
  by_cases hk : k < 2 ^ 53
  · have hsmall : Float.ofNat k = k.toUInt64.toFloat * Float.ofBits 0x3FF0000000000000 := by
      show Float.ofScientific k false 0 = _
      unfold Float.ofScientific
      rw [dif_pos ⟨hk, by decide⟩]
      rfl
    rw [hsmall, toFloat_toUInt64 hk, nearest_one_mul_one hk]
  · have hpos : 0 < k := by omega
    refine eq_nearest_of_round (word_ofNat_of_le (by omega)) (by rw [Nat.shiftLeft_eq]; positivity)
      ?_ Nat.one_pos (quotient_shiftLeft k 53)
    rw [log2_shiftLeft hpos]
    omega

end Bits

end Isotherm
