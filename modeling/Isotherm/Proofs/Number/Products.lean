import Isotherm.Proofs.Number.Order

/-!
# Products and integer parts in range

The exponent of a product is the sum of the exponents, up to the places that rounding takes. So a
product of doubles of moderate exponents is finite, and its integer part is one of 64 bits.
-/

namespace Isotherm

namespace Bits

open Float.Model Float.Model.UnpackedFloat

/-- Zero, or a number whose exponent is at most `k`. -/
def Reaches (k : Int) : UnpackedFloat → Prop
  | .zero _ => True
  | .finite _ _ e _ => e ≤ k
  | _ => False

/-! ## Rounding -/

theorem mantissa_shiftRight (em : ExtendedMantissa) (n : Nat) :
    (em >>> n).mantissa = em.mantissa / 2 ^ n := by
  induction n with
  | zero => simp [HShiftRight.hShiftRight, Nat.repeat]
  | succ n ih =>
    show (em >>> n).mantissa / 2 = _
    rw [ih, Nat.div_div_eq_div_mul, Nat.pow_succ]

theorem roundedMantissa_le (em : ExtendedMantissa) : em.roundedMantissa ≤ em.mantissa + 1 := by
  obtain ⟨m, r, s⟩ := em
  unfold ExtendedMantissa.roundedMantissa
  cases r <;> cases s <;> simp only [ExtendedMantissa.accuracy, Accuracy.roundToNearestEven] <;>
    omega

/-- A mantissa is shifted down until it has 53 bits, and at least to the least exponent. -/
theorem shiftToTargetExponent_eq (m : Nat) (e : Int) :
    ∃ n : Nat, shiftToTargetExponent Format.binary64 m e .exact =
        (ExtendedMantissa.ofMantissaAndAccuracy m .exact >>> n, e + n) ∧
      e + n = max e (max (m.log2 + e - 52) (-1074)) := by
  refine ⟨(Format.binary64.targetExponent (totalExponent m e) - e).toNat, rfl, ?_⟩
  simp only [Format.targetExponent, totalExponent, Format.mantissaBits, Format.minExponent]
  norm_num
  omega

theorem shiftToTargetExponent_spec (m : Nat) (e : Int) :
    ∃ n : Nat, (shiftToTargetExponent Format.binary64 m e .exact).1.mantissa = m / 2 ^ n ∧
      (shiftToTargetExponent Format.binary64 m e .exact).2 = e + n ∧
      e + n = max e (max (m.log2 + e - 52) (-1074)) := by
  obtain ⟨n, heq, hn⟩ := shiftToTargetExponent_eq m e
  rw [heq]
  exact ⟨n, mantissa_shiftRight _ _, rfl, hn⟩

theorem div_two_pow_lt {m n : Nat} (h : m.log2 ≤ 52 + n) : m / 2 ^ n < 2 ^ 53 := by
  rw [Nat.div_lt_iff_lt_mul (Nat.two_pow_pos n), ← pow_add]
  calc m < 2 ^ (m.log2 + 1) := Nat.lt_log2_self
    _ ≤ 2 ^ (53 + n) := Nat.pow_le_pow_right (by decide) (by omega)

/-- Rounding shifts a mantissa down to 53 bits, and once more after a carry. -/
theorem reaches_roundWithAccuracy (s : Sign) {m : Nat} {e k : Int} (he : e ≤ k)
    (hm : m.log2 + e ≤ k + 52) (hk : -1074 ≤ k) :
    Reaches (k + 1) (roundWithAccuracy Format.binary64 s m e .exact) := by
  obtain ⟨n, hmantissa, hexponent, hn⟩ := shiftToTargetExponent_spec m e
  have hlt : m / 2 ^ n < 2 ^ 53 := div_two_pow_lt (by omega)
  unfold roundWithAccuracy
  generalize shiftToTargetExponent Format.binary64 m e .exact = first at *
  obtain ⟨em, e₁⟩ := first
  simp only at hmantissa hexponent ⊢
  -- rounding up makes `2 ^ 53` at most, so the second shift is by one place at most
  have hlog : em.roundedMantissa.log2 ≤ 53 := by
    have hle := roundedMantissa_le em
    exact Scaled.log2_le_of_lt (by omega)
  obtain ⟨n', -, hexponent', hn'⟩ := shiftToTargetExponent_spec em.roundedMantissa e₁
  split
  · trivial
  · show _ ≤ k + 1
    omega

/-! ## Packing -/

theorem unpackExponent_pack_le {f : UnpackedFloat} {k : Int} (hf : Reaches k f) (hlow : -1075 ≤ k)
    (hhigh : k ≤ 971) : ((unpackExponent (pack Format.binary64 f)).toNat : Int) ≤ k + 1075 := by
  cases f with
  | infinity s => exact hf.elim
  | notANumber => exact hf.elim
  | zero s =>
    unfold UnpackedFloat.pack packedZero
    rw [unpackExponent_packComponents]
    show ((0 : Nat) : Int) ≤ k + 1075
    omega
  | finite s m e h =>
    change e ≤ k at hf
    have hbiased : ((e + 1023 + 52).toNat : Int) ≤ k + 1075 := by omega
    have hpack : pack Format.binary64 (.finite s m e h) =
        if 2048 ≤ (e + 1023 + 52).toNat + 1 then packedInfinity Format.binary64 s
        else if m.log2 + 1 = 53 then
          packComponents Format.binary64 s (BitVec.ofNat 11 (e + 1023 + 52).toNat)
            (BitVec.ofNat 52 m)
        else packComponents Format.binary64 s 0#11 (BitVec.ofNat 52 m) := rfl
    rw [hpack, if_neg (by omega)]
    split
    · rw [unpackExponent_packComponents, BitVec.toNat_ofNat]
      show (((e + 1023 + 52).toNat % 2 ^ 11 : Nat) : Int) ≤ k + 1075
      omega
    · rw [unpackExponent_packComponents]
      show ((0 : Nat) : Int) ≤ k + 1075
      omega

/-- What reaches no farther than the largest exponent packs into a finite double. -/
theorem exponent_le_of_reaches {x : Float} {f : UnpackedFloat} {k : Int}
    (hx : word x = pack Format.binary64 f) (hf : Reaches k f) (hlow : -1074 ≤ k) (hhigh : k ≤ 971) :
    x.isFinite = true ∧ (Scaled.ofFloat x).exponent ≤ k := by
  have hfield := unpackExponent_pack_le hf (by omega) hhigh
  rw [← hx] at hfield
  constructor
  · rw [isFinite_iff]
    show (word x).toNat % 2 ^ 63 < 2047 * 2 ^ 52
    rw [toNat_unpackExponent] at hfield
    omega
  · rw [(ofFloat_eq_fields x).2]
    omega

/-! ## Multiplying -/

theorem log2_mul_le {m n : Nat} (hm : m < 2 ^ 53) (hn : n < 2 ^ 53) : (m * n).log2 ≤ 105 := by
  refine Scaled.log2_le_of_lt ?_
  calc m * n < 2 ^ 53 * 2 ^ 53 := Nat.mul_lt_mul'' hm hn
    _ = 2 ^ (105 + 1) := by rw [← pow_add]

theorem word_mul (x y : Float) : word (x * y) =
    pack Format.binary64
      (mul Format.binary64 (unpack Format.binary64 (word x)) (unpack Format.binary64 (word y))) :=
  rfl

/-- The exponent of a product, which has up to 106 bits before it is rounded. -/
theorem exponent_mul_le {x y : Float} (hx : x.isFinite = true) (hy : y.isFinite = true) {k : Int}
    (h : (Scaled.ofFloat x).exponent + (Scaled.ofFloat y).exponent + 54 ≤ k) (hlow : -1073 ≤ k)
    (hhigh : k ≤ 971) : (x * y).isFinite = true ∧ (Scaled.ofFloat (x * y)).exponent ≤ k := by
  refine exponent_le_of_reaches (word_mul x y) ?_ (by omega) hhigh
  obtain ⟨hux, -⟩ | ⟨hmx, hux⟩ := unpack_word hx <;>
    obtain ⟨huy, -⟩ | ⟨hmy, huy⟩ := unpack_word hy <;>
    rw [hux, huy]
  · trivial
  · trivial
  · trivial
  · -- 53 places for the second mantissa, and one for the carry
    have hxlt := (Scaled.canonical_ofFloat hx (Nat.ne_of_gt hmx)).lt
    have hylt := (Scaled.canonical_ofFloat hy (Nat.ne_of_gt hmy)).lt
    have hlog := log2_mul_le hxlt hylt
    have hround := reaches_roundWithAccuracy (sign x * sign y)
      (m := (Scaled.ofFloat x).mantissa * (Scaled.ofFloat y).mantissa)
      (e := (Scaled.ofFloat x).exponent + (Scaled.ofFloat y).exponent) (k := k - 1)
      (by omega) (by omega) (by omega)
    rw [sub_add_cancel] at hround
    exact hround

end Bits

namespace Scaled

theorem mantissa_lt {x : Float} (hx : x.isFinite = true) : (ofFloat x).mantissa < 2 ^ 53 := by
  by_cases hm : (ofFloat x).mantissa = 0
  · rw [hm]
    decide
  · exact (canonical_ofFloat hx hm).lt

theorem exponent_le_of_bits_lt {x : Float} {k : Int} (hk : -1074 ≤ k)
    (h : magnitudeBits x < (k + 1075).toNat * 2 ^ 52) : (ofFloat x).exponent ≤ k := by
  rw [magnitudeBits_eq] at h
  omega

theorem div_eq_floorMagnitude {s : Scaled} (h : ¬0 ≤ s.exponent) :
    s.mantissa / 1 <<< (-s.exponent).toNat = s.floorMagnitude := by
  have hzero : s.exponent.toNat = 0 := by omega
  unfold floorMagnitude
  rw [hzero, Nat.shiftLeft_zero, Nat.shiftRight_eq_div_pow, Nat.one_shiftLeft]

theorem floorMagnitude_of_integer {s : Scaled} (h : 0 ≤ s.exponent) :
    (s.floorMagnitude : ℚ) = s.mantissa * 2 ^ s.exponent := by
  have hzero : (-s.exponent).toNat = 0 := by omega
  rw [floorMagnitude, hzero, Nat.shiftRight_zero, Nat.shiftLeft_eq, Nat.cast_mul, Nat.cast_pow,
    Nat.cast_ofNat, ← zpow_natCast, Int.toNat_of_nonneg h]

theorem floorMagnitude_lt {x : Float} (hx : x.isFinite = true) (h : ¬0 ≤ (ofFloat x).exponent) :
    (ofFloat x).floorMagnitude < 2 ^ 52 := by
  rw [← div_eq_floorMagnitude h, Nat.one_shiftLeft, Nat.div_lt_iff_lt_mul (Nat.two_pow_pos _)]
  calc (ofFloat x).mantissa < 2 ^ 53 := mantissa_lt hx
    _ = 2 ^ 52 * 2 ^ 1 := by norm_num
    _ ≤ 2 ^ 52 * 2 ^ (-(ofFloat x).exponent).toNat :=
      Nat.mul_le_mul_left _ (Nat.pow_le_pow_right Nat.two_pos (by omega))

end Scaled

namespace Integral

open Scaled

/-! ## Integer parts -/

theorem truncate_of_integer {x : Float} (hx : x.isFinite = true) (h : 0 ≤ (ofFloat x).exponent) :
    truncate x = x := by
  simp only [truncate, onMagnitude, if_pos hx, if_pos h]

/-- With a negative exponent, the integer part is written anew. -/
theorem truncate_eq_nearest {x : Float} (hx : x.isFinite = true) (h : ¬0 ≤ (ofFloat x).exponent) :
    truncate x = nearest (signBit x) (ofFloat x).floorMagnitude 1 := by
  simp only [truncate, onMagnitude, if_pos hx, if_neg h, div_eq_floorMagnitude h]
  rfl

/-- The integer part of a finite double is the integer that the double is read as. -/
theorem value_truncate {x : Float} (hx : x.isFinite = true) : value (truncate x) = value x := by
  by_cases hexponent : 0 ≤ (ofFloat x).exponent
  · rw [truncate_of_integer hx hexponent]
  · have hlt := floorMagnitude_lt hx hexponent
    rw [truncate_eq_nearest hx hexponent, value_nearest _ (by omega)]
    rfl

theorem magnitudeBits_truncate_le {x : Float} (hx : x.isFinite = true) :
    magnitudeBits (truncate x) ≤ magnitudeBits x := by
  by_cases hexponent : 0 ≤ (ofFloat x).exponent
  · rw [truncate_of_integer hx hexponent]
  · rw [truncate_eq_nearest hx hexponent]
    by_cases hm : (ofFloat x).mantissa = 0
    · have hfloor : (ofFloat x).floorMagnitude = 0 := by simp [floorMagnitude, hm]
      rw [hfloor]
      exact (magnitudeBits_ofBits (Nat.zero_le _) _).trans_le (Nat.zero_le _)
    · have hfloor := floorMagnitude_le (ofFloat x)
      rw [← div_one ((ofFloat x).floorMagnitude : ℚ), ← Nat.cast_one] at hfloor
      exact (magnitudeBits_nearest_le (canonical_ofFloat hx hm) _ Nat.one_pos hfloor).trans_eq
        (Bits.bits_ofFloat x)

theorem one_shiftLeft_pos (n : Nat) : 0 < 1 <<< n := by
  rw [Nat.one_shiftLeft]
  exact Nat.two_pow_pos n

/-- A positive double is rounded to the even integer as its magnitude is, written as a quotient. -/
theorem value_roundEven {x : Float} (hx : x.isFinite = true) (hs : signBit x = false) :
    value (roundEven x) = roundDiv ((ofFloat x).mantissa <<< (ofFloat x).exponent.toNat)
      (1 <<< (-(ofFloat x).exponent).toNat) := by
  have hpositive : (ofFloat x).negative = false := hs
  unfold roundEven onMagnitude
  simp only [if_pos hx]
  by_cases hexponent : 0 ≤ (ofFloat x).exponent
  · have hzero : (-(ofFloat x).exponent).toNat = 0 := by omega
    rw [if_pos hexponent, value, toInt, hpositive, floorMagnitude, hzero]
    simp [roundDiv, Nat.mod_one]
  · have hzero : (ofFloat x).exponent.toNat = 0 := by omega
    have hden := one_shiftLeft_pos (-(ofFloat x).exponent).toNat
    have hle := roundDiv_le hden (Nat.le_mul_of_pos_right (ofFloat x).mantissa hden)
    rw [if_neg hexponent, hpositive, value_nearest false (hle.trans_lt (mantissa_lt hx)), hzero,
      Nat.shiftLeft_zero]
    rfl

/-- A positive double is rounded to an integer that is no larger than any integer above it. -/
theorem value_roundEven_le {x : Float} (hx : x.isFinite = true) (hs : signBit x = false) {k : Nat}
    (hk : ((ofFloat x).mantissa : ℚ) * 2 ^ (ofFloat x).exponent ≤ k) :
    0 ≤ value (roundEven x) ∧ value (roundEven x) ≤ k := by
  have hden := one_shiftLeft_pos (-(ofFloat x).exponent).toNat
  have hdenQ : (0 : ℚ) < (1 <<< (-(ofFloat x).exponent).toNat : Nat) := by exact_mod_cast hden
  rw [← quotient_toFloat, div_le_iff₀ hdenQ] at hk
  have hround := roundDiv_le hden (by exact_mod_cast hk)
  rw [value_roundEven hx hs]
  omega

/-- An integer part that is in range is not changed by making it one of 64 bits. -/
theorem value_toInt64 {x : Float} (hx : x.isFinite = true) (hexponent : (ofFloat x).exponent ≤ 10) :
    value (toInt64 x) = value x := by
  have hle := magnitudeBits_truncate_le hx
  have hfinite : (truncate x).isFinite = true :=
    (Bits.isFinite_iff _).mpr (Nat.lt_of_le_of_lt hle ((Bits.isFinite_iff x).mp hx))
  have hlt : (truncate x).abs < 9223372036854775808.0 := by
    have hbound : magnitudeBits (9223372036854775808.0 : Float) = 1086 * 2 ^ 52 := by
      decide +kernel
    have hbits := magnitudeBits_eq x
    have hmantissa := mantissa_lt hx
    rw [Bits.abs_lt_iff hfinite (by decide +kernel) (by decide +kernel), hbound]
    omega
  unfold toInt64
  simp only [hfinite, hlt, decide_true, Bool.and_self, if_true]
  exact value_truncate hx

end Integral
end Isotherm
