import Isotherm.Function.Named
import Isotherm.Proofs.Number.Truncation

/-!
# The binary exponent and the nearest integer

Both are found exactly. The exponent comes from the mantissa as it is, so subnormal doubles need no
normalizing. The nearest integer is the integer part, or the next one away from zero where what was
cut off reaches a half: cutting off, the difference and the step are all without rounding, so no
double just below a half is taken for one, and a double past `2 ^ 52` is an integer already.
-/

namespace Isotherm

open Scaled

/-! ## Binary exponents -/

theorem Bits.ofInt_eq (n : Int) : Float.ofInt n = Integral.ofInt n := by
  cases n with
  | ofNat k =>
    show Float.ofNat k = nearest (decide ((k : Int) < 0)) k 1
    rw [Bits.ofNat_eq_nearest, decide_eq_false (by omega)]
  | negSucc k =>
    rw [Integral.ofInt, decide_eq_true (Int.negSucc_lt_zero k), Int.natAbs_negSucc, nearest_true,
      ← Bits.ofNat_eq_nearest]
    rfl

theorem Integral.rational_ofInt {n : Int} (h : n.natAbs < 2 ^ 53) :
    (ofInt n).isFinite = true ∧ Amount.rational (ofInt n) = n := by
  have hmagnitude : (ofFloat (ofInt n)).magnitude = n.natAbs := Bits.magnitude_nearest_one _ h
  have hsign : signBit (ofInt n) = decide (n < 0) := signBit_nearest_eq ..
  refine ⟨isFinite_nearest_one _ h, rational_eq_of_abs ?_ fun _ => ?_⟩
  · rw [hmagnitude, Nat.cast_natAbs, Int.cast_abs]
  · rw [hsign, decide_eq_decide, Int.cast_lt_zero]

namespace Exponent

variable {x : Float}

theorem binary_bounds (hm : (ofFloat x).mantissa ≠ 0) :
    2 ^ binary x ≤ (ofFloat x).magnitude ∧ (ofFloat x).magnitude < 2 ^ (binary x + 1) := by
  obtain ⟨hlow, hhigh⟩ := log2_bounds (Nat.pos_of_ne_zero hm)
  have hunit : (0 : ℚ) < 2 ^ (ofFloat x).exponent := by positivity
  constructor
  · rw [binary, zpow_add₀ two_ne_zero]
    exact mul_le_mul_of_nonneg_right hlow hunit.le
  · rw [binary, add_right_comm, zpow_add₀ two_ne_zero]
    exact mul_lt_mul_of_pos_right hhigh hunit

theorem natAbs_binary_lt (hx : x.isFinite = true) (hm : (ofFloat x).mantissa ≠ 0) :
    (binary x).natAbs < 2 ^ 53 := by
  have hlog : (ofFloat x).mantissa.log2 ≤ 52 := log2_le_of_lt (mantissa_lt hx)
  obtain ⟨-, -, hleast, hmost, -⟩ := canonical_ofFloat hx hm
  unfold binary
  dsimp only
  omega

/-- Where a double is split into a power of two and a fraction from a half up to one, that power is
the next one. -/
theorem binary_of_split (hm : (ofFloat x).mantissa ≠ 0) {fraction : ℚ} {n : ℤ}
    (hsplit : |Amount.rational x| = fraction * 2 ^ n) (hlow : 1 / 2 ≤ fraction)
    (hhigh : fraction < 1) : binary x = n - 1 := by
  obtain ⟨hk, hk'⟩ := binary_bounds hm
  have hunit : (0 : ℚ) < 2 ^ n := by positivity
  rw [← abs_rational, hsplit] at hk hk'
  have hbelow : (2 : ℚ) ^ binary x < 2 ^ n := hk.trans_lt (mul_lt_of_lt_one_left hunit hhigh)
  have habove : (2 : ℚ) ^ (n - 1) < 2 ^ (binary x + 1) := by
    refine lt_of_le_of_lt ?_ hk'
    rw [zpow_sub_one₀ two_ne_zero, mul_comm, ← one_div]
    exact mul_le_mul_of_nonneg_right hlow hunit.le
  rw [zpow_lt_zpow_iff_right₀ one_lt_two] at hbelow habove
  omega

/-- Off zero, the masks for zero, infinities and NaNs let the exponent through. -/
theorem ilogb_eq (hx : x.isFinite = true) (hm : (ofFloat x).mantissa ≠ 0) :
    ilogb x = Integral.ofInt (binary x) := by
  have hnonzero := (Bits.beq_zero_iff hx).not.mpr hm
  rw [ilogb, hx, Bool.not_true, if_neg Bool.false_ne_true, if_neg hnonzero, Bits.ofInt_eq]

theorem logb_eq (hx : x.isFinite = true) (hm : (ofFloat x).mantissa ≠ 0) :
    logb x = Integral.ofInt (binary x) := by
  have hnonzero := (Bits.beq_zero_iff hx).not.mpr hm
  rw [logb, Bits.not_isNaN_of_isFinite hx, if_neg Bool.false_ne_true,
    Bits.not_isInf_of_isFinite hx, if_neg Bool.false_ne_true, if_neg hnonzero, Bits.ofInt_eq]

end Exponent

/-! ## The nearest integer -/

/-- `n` is the integer nearest to `q`, and in a tie the one farther from zero. -/
def NearestAway (q : ℚ) (n : ℤ) : Prop :=
  ∀ m : ℤ, m ≠ n → |q - n| < |q - m| ∨ |q - n| = |q - m| ∧ |m| < |n|

theorem nearestAway_of_half {q : ℚ} {n : ℤ} (hhalf : |q - n| ≤ 1 / 2)
    (htie : |q - n| = 1 / 2 → |q| < |(n : ℚ)|) : NearestAway q n := by
  intro m hm
  have hapart : (1 : ℚ) ≤ |(m : ℚ) - n| := by exact_mod_cast Int.one_le_abs (sub_ne_zero.mpr hm)
  have hpath : |(m : ℚ) - n| ≤ |q - n| + |q - m| := by
    calc |(m : ℚ) - n| = |q - n - (q - m)| := by rw [sub_sub_sub_cancel_left]
      _ ≤ |q - n| + |q - m| := abs_sub _ _
  obtain hnearer | hle := lt_or_ge |q - n| |q - m|
  · exact .inl hnearer
  · have hn : |q - n| = 1 / 2 := by linarith
    have hboth : |q - n| = |q - m| := by linarith
    refine .inr ⟨hboth, ?_⟩
    -- both are a half away, one on either side, and zero is on the side of `m`
    have hstep : |m - n| = 1 := by
      have hone : |(m : ℚ) - n| = 1 := by linarith
      exact_mod_cast hone
    have hmiddle : (m : ℚ) + n = 2 * q := by
      obtain hsame | hopposite := abs_eq_abs.mp hboth
      · exact absurd (by exact_mod_cast (sub_right_injective hsame).symm) hm
      · linarith
    have hside : |m + n| < |2 * n| := by
      have hdouble : |(m : ℚ) + n| < |2 * (n : ℚ)| := by
        rw [hmiddle, abs_mul, abs_mul]
        exact mul_lt_mul_of_pos_left (htie hn) (by norm_num)
      exact_mod_cast hdouble
    simp only [Int.abs_eq_natAbs] at hstep hside ⊢
    omega

namespace Integral

variable {x : Float}

theorem fraction_nonneg (x : Float) :
    0 ≤ (ofFloat x).magnitude - (ofFloat x).floorMagnitude :=
  sub_nonneg.mpr (floorMagnitude_le (ofFloat x))

theorem fraction_lt_one (x : Float) :
    (ofFloat x).magnitude - (ofFloat x).floorMagnitude < 1 := by
  have hlt := Nat.lt_floor_add_one (ofFloat x).magnitude
  rw [floorMagnitude_eq_floor]
  exact sub_left_lt_of_lt_add hlt

theorem abs_sign_mul (negative : Bool) (q : ℚ) : |(if negative then -1 else 1) * q| = |q| := by
  cases negative <;> simp

theorem abs_rational_sub_value (x : Float) :
    |Amount.rational x - value x| = (ofFloat x).magnitude - (ofFloat x).floorMagnitude := by
  rw [rational_eq_sign_mul, value_eq_sign_mul, ← mul_sub, abs_sign_mul,
    abs_of_nonneg (fraction_nonneg x)]

/-- What is cut off is the rest of the mantissa. -/
theorem fraction_eq (hexponent : ¬0 ≤ (ofFloat x).exponent) :
    (ofFloat x).magnitude - (ofFloat x).floorMagnitude =
      ((ofFloat x).mantissa % 2 ^ (-(ofFloat x).exponent).toNat : Nat) *
        2 ^ (ofFloat x).exponent := by
  have hsplit := Nat.div_add_mod' (ofFloat x).mantissa (2 ^ (-(ofFloat x).exponent).toNat)
  have hone : (2 : ℚ) ^ (-(ofFloat x).exponent).toNat * 2 ^ (ofFloat x).exponent = 1 := by
    rw [← zpow_natCast, Int.toNat_of_nonneg (by omega), zpow_neg,
      inv_mul_cancel₀ (zpow_ne_zero _ two_ne_zero)]
  rw [← Nat.one_shiftLeft, div_eq_floorMagnitude hexponent, Nat.one_shiftLeft] at hsplit
  conv_lhs => rw [magnitude, ← hsplit]
  rw [Nat.cast_add, Nat.cast_mul, Nat.cast_pow, Nat.cast_ofNat, add_mul, mul_assoc, hone, mul_one,
    add_sub_cancel_left]

/-- The difference of a double and its integer part is exact. -/
theorem rational_sub_truncate (hx : x.isFinite = true) :
    (x - truncate x).isFinite = true ∧
      Amount.rational (x - truncate x) = Amount.rational x - value x := by
  have hwhole := (isFinite_truncate x).trans hx
  have hopposite : Amount.rational (-truncate x) = -value x := by
    rw [Bits.rational_neg hwhole, rational_truncate hx]
  have hneg := (Bits.isFinite_neg (truncate x)).trans hwhole
  rw [Bits.sub_eq_add_neg x hwhole, sub_eq_add_neg (Amount.rational x), ← hopposite]
  by_cases hexponent : 0 ≤ (ofFloat x).exponent
  · refine Bits.add_exact hx hneg 0 0 (by decide) (by decide) (by decide) ?_
    rw [hopposite, ← rational_truncate hx, truncate_of_integer hx hexponent, add_neg_cancel]
    simp
  · have hrest : (ofFloat x).mantissa % 2 ^ (-(ofFloat x).exponent).toNat < 2 ^ 53 :=
      (Nat.mod_le _ _).trans_lt (mantissa_lt hx)
    refine Bits.add_exact hx hneg _ _ hrest (least_le_exponent x) (by omega) ?_
    rw [hopposite, ← sub_eq_add_neg, abs_rational_sub_value, fraction_eq hexponent]

/-- Rounding steps on where at least a half was cut off. -/
theorem half_le_abs_sub_truncate_iff (hx : x.isFinite = true) :
    (0.5 : Float) ≤ (x - truncate x).abs ↔
      1 / 2 ≤ (ofFloat x).magnitude - (ofFloat x).floorMagnitude := by
  obtain ⟨hfinite, hrational⟩ := rational_sub_truncate hx
  have hhalf : (ofFloat 0.5).magnitude = 1 / 2 := by
    have hparts : ofFloat 0.5 = ⟨false, 2 ^ 52, -53⟩ := by decide +kernel
    rw [hparts, magnitude]
    norm_num
  rw [Bits.le_abs_iff hfinite (by decide +kernel) (by decide +kernel),
    ← magnitude_le_iff (by decide +kernel) hfinite, hhalf, ← abs_rational, hrational,
    abs_rational_sub_value]

/-- The step away from zero, which is an integer away from it. -/
theorem rational_step (negative : Bool) :
    (if negative then -1.0 else 1.0 : Float).isFinite = true ∧
      Amount.rational (if negative then -1.0 else 1.0) = if negative then -1 else 1 := by
  have hpositive : ofFloat 1.0 = ⟨false, 2 ^ 52, -52⟩ := by decide +kernel
  have hnegative : ofFloat (-1.0) = ⟨true, 2 ^ 52, -52⟩ := by decide +kernel
  cases negative with
  | false => exact ⟨by decide +kernel, by norm_num [Amount.rational, hpositive]⟩
  | true => exact ⟨by decide +kernel, by norm_num [Amount.rational, hnegative]⟩

/-- The step away from zero is exact, as only below `2 ^ 52` is there a fraction to round. -/
theorem rational_truncate_add_step (hx : x.isFinite = true)
    (hhalf : 1 / 2 ≤ (ofFloat x).magnitude - (ofFloat x).floorMagnitude) :
    (truncate x + if signBit x then -1.0 else 1.0).isFinite = true ∧
      Amount.rational (truncate x + if signBit x then -1.0 else 1.0) =
        (if signBit x then -1 else 1) * ((ofFloat x).floorMagnitude + 1) := by
  have hwhole := (isFinite_truncate x).trans hx
  have hexponent : ¬0 ≤ (ofFloat x).exponent := by
    intro hinteger
    rw [← magnitude_truncate hx, truncate_of_integer hx hinteger, sub_self] at hhalf
    norm_num at hhalf
  have hlt := floorMagnitude_lt hx hexponent
  obtain ⟨hstep, hone⟩ := rational_step (signBit x)
  have hsum : Amount.rational (truncate x) + Amount.rational (if signBit x then -1.0 else 1.0) =
      (if signBit x then -1 else 1) * ((ofFloat x).floorMagnitude + 1) := by
    rw [rational_truncate hx, value_eq_sign_mul, hone, mul_add_one]
  rw [← hsum]
  refine Bits.add_exact hwhole hstep ((ofFloat x).floorMagnitude + 1) 0 (by omega) (by decide)
    (by decide) ?_
  rw [hsum, abs_sign_mul, abs_of_nonneg (by positivity), Nat.cast_add_one, zpow_zero, mul_one]

/-- Either way the rounded double is an integer no more than a half away, with the sign of the
argument. -/
theorem roundAway_spec (hx : x.isFinite = true) :
    (roundAway x).isFinite = true ∧ signBit (roundAway x) = signBit x ∧
      ∃ n : ℤ, Amount.rational (roundAway x) = n ∧ NearestAway (Amount.rational x) n := by
  simp only [roundAway, if_pos hx, ge_iff_le, half_le_abs_sub_truncate_iff hx]
  split
  next hhalf =>
    obtain ⟨hfinite, hstepped⟩ := rational_truncate_add_step hx hhalf
    have hnext : (0 : ℚ) < (ofFloat x).floorMagnitude + 1 := by positivity
    have hbelow := fraction_lt_one x
    refine ⟨hfinite, ?_, (if signBit x then -1 else 1) * ((ofFloat x).floorMagnitude + 1), ?_,
      nearestAway_of_half ?_ fun _ => ?_⟩
    · have hnonzero : Amount.rational (truncate x + if signBit x then -1.0 else 1.0) ≠ 0 := by
        rw [hstepped, ← abs_pos, abs_sign_mul]
        exact abs_pos.mpr hnext.ne'
      rw [signBit_eq_decide hnonzero, hstepped]
      cases signBit x with
      | false => rw [if_neg Bool.false_ne_true, one_mul, decide_eq_false hnext.not_gt]
      | true => rw [if_pos rfl, neg_one_mul, decide_eq_true (neg_neg_of_pos hnext)]
    · rw [hstepped]
      push_cast
      rfl
    · rw [rational_eq_sign_mul]
      push_cast
      rw [← mul_sub, abs_sign_mul, abs_le]
      constructor <;> linarith
    · push_cast
      rw [abs_rational, abs_sign_mul, abs_of_pos hnext]
      linarith
  next hhalf =>
    refine ⟨(isFinite_truncate x).trans hx, signBit_truncate hx, value x, rational_truncate hx,
      nearestAway_of_half ?_ fun h => ?_⟩
    · rw [abs_rational_sub_value]
      linarith
    · rw [abs_rational_sub_value] at h
      exact absurd h.ge hhalf

end Integral

/-- Off zero, both exponent functions return the exponent of the greatest power of two that is no
larger than the magnitude. Rounding returns the nearest integer, in a tie the one away from zero,
with the sign of its argument, also as a zero. -/
theorem Function1.exponents_and_round_exact (x : Float) (hx : x.isFinite = true) :
    (Amount.rational x ≠ 0 → ∃ k : ℤ,
      Function1.ilogb.apply x = Function1.logb.apply x ∧
      (Function1.ilogb.apply x).isFinite = true ∧
      Amount.rational (Function1.ilogb.apply x) = k ∧
      2 ^ k ≤ |Amount.rational x| ∧ |Amount.rational x| < 2 ^ (k + 1) ∧
      ∀ (fraction : ℚ) (n : ℤ), |Amount.rational x| = fraction * 2 ^ n →
        1 / 2 ≤ fraction → fraction < 1 → k = n - 1) ∧
    (Function1.round.apply x).isFinite = true ∧
    signBit (Function1.round.apply x) = signBit x ∧
    ∃ n : ℤ, Amount.rational (Function1.round.apply x) = n ∧ NearestAway (Amount.rational x) n := by
  refine ⟨fun hnonzero => ?_, Integral.roundAway_spec hx⟩
  have hm : (ofFloat x).mantissa ≠ 0 := fun h => hnonzero (rational_eq_zero_iff.mpr h)
  have hilogb : Function1.ilogb.apply x = Integral.ofInt (Exponent.binary x) :=
    Exponent.ilogb_eq hx hm
  have hlogb : Function1.logb.apply x = Integral.ofInt (Exponent.binary x) :=
    Exponent.logb_eq hx hm
  obtain ⟨hfinite, hrational⟩ := Integral.rational_ofInt (Exponent.natAbs_binary_lt hx hm)
  obtain ⟨hlow, hhigh⟩ := Exponent.binary_bounds hm
  rw [← abs_rational] at hlow hhigh
  rw [hlogb, hilogb]
  exact ⟨Exponent.binary x, rfl, hfinite, hrational, hlow, hhigh,
    fun _ _ => Exponent.binary_of_split hm⟩

/-- The negative double next to zero: subnormal, and rounded to a negative zero. -/
theorem Function1.exponents_and_round_exact_subnormal :
    (-5e-324 : Float).isFinite = true ∧ Amount.rational (-5e-324) ≠ 0 ∧
    (∃ k : ℤ, Function1.ilogb.apply (-5e-324) = Function1.logb.apply (-5e-324) ∧
      Amount.rational (Function1.ilogb.apply (-5e-324)) = k ∧
      2 ^ k ≤ |Amount.rational (-5e-324)| ∧ |Amount.rational (-5e-324)| < 2 ^ (k + 1)) ∧
    signBit (Function1.round.apply (-5e-324)) = true ∧
    ∃ n : ℤ, Amount.rational (Function1.round.apply (-5e-324)) = n ∧
      NearestAway (Amount.rational (-5e-324)) n := by
  have hx : (-5e-324 : Float).isFinite = true := by decide +kernel
  have hnonzero : Amount.rational (-5e-324) ≠ 0 := fun h =>
    absurd (rational_eq_zero_iff.mp h) (by decide +kernel)
  have hsign : signBit (-5e-324) = true := by decide +kernel
  obtain ⟨hexponents, -, hround, hnearest⟩ := exponents_and_round_exact (-5e-324) hx
  obtain ⟨k, hsame, -, hk, hlow, hhigh, -⟩ := hexponents hnonzero
  exact ⟨hx, hnonzero, ⟨k, hsame, hk, hlow, hhigh⟩, hround.trans hsign, hnearest⟩

end Isotherm
