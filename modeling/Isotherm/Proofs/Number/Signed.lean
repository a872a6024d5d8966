import Isotherm.Proofs.Number.Multiplication

/-!
# Doubles on both sides of zero

Negation flips the sign of a double and keeps its magnitude. Finite doubles are in the order of their
bit patterns as signed numbers, in which the two zeros are one. Multiplying by a positive double and
cutting off a fraction keep that order, and neither distinguishes the two sides of zero.
-/

namespace Isotherm

/-- A magnitude with a sign; both zeros are zero. -/
def signed (negative : Bool) (magnitude : Nat) : Int :=
  if negative then -magnitude else magnitude

theorem signed_not (negative : Bool) (magnitude : Nat) :
    signed (!negative) magnitude = -signed negative magnitude := by
  cases negative <;> simp [signed]

/-- What keeps the order of magnitudes, and zero, keeps the order of signed numbers. -/
theorem signed_mono {s s' : Bool} {m m' n n' : Nat} (h : signed s m ≤ signed s' m')
    (hle : m ≤ m' → n ≤ n') (hge : m' ≤ m → n' ≤ n) (hzero : m = 0 → n = 0)
    (hzero' : m' = 0 → n' = 0) :
    signed s n ≤ signed s' n' := by
  unfold signed at *
  cases s <;> cases s' <;> simp only [Bool.false_eq_true, if_false, if_true] at h ⊢ <;> omega

namespace Bits

open Float.Model Float.Model.UnpackedFloat

/-! ## Negation -/

theorem toNat_toBitVec_neg (s : Sign) : (-s).toBitVec.toNat = 1 - s.toBitVec.toNat := by
  cases s <;> rfl

/-- Negation of a finite double changes the sign field only. -/
theorem toNat_word_neg {x : Float} (hx : x.isFinite = true) :
    (word (-x)).toNat = (1 - (word x).toNat / 2 ^ 63) * 2 ^ 63 + (word x).toNat % 2 ^ 63 := by
  have hones := unpackExponent_ne_ones hx
  rw [word_neg, unpack_eq_decode, neg_decode, pack_decode _ _ _ (fun h => absurd h hones),
    toNat_packComponents, toNat_toBitVec_neg, toBitVec_ofBitVec, toNat_unpackSign,
    toNat_unpackExponent, toNat_unpackMantissa]
  omega

theorem magnitudeBits_neg {x : Float} (hx : x.isFinite = true) :
    magnitudeBits (-x) = magnitudeBits x := by
  have hword := toNat_word_neg hx
  unfold magnitudeBits
  rw [twoTo_eq]
  show (word (-x)).toNat % 2 ^ 63 = (word x).toNat % 2 ^ 63
  omega

theorem signBit_neg {x : Float} (hx : x.isFinite = true) : signBit (-x) = !signBit x := by
  have hword := toNat_word_neg hx
  have hlt : (word x).toNat < 2 ^ 64 := (word x).isLt
  unfold signBit
  rw [twoTo_eq, ← decide_not, decide_eq_decide]
  show 2 ^ 63 ≤ (word (-x)).toNat ↔ ¬2 ^ 63 ≤ (word x).toNat
  omega

theorem isFinite_neg (x : Float) : (-x).isFinite = x.isFinite := by
  have hkept {y : Float} (hy : y.isFinite = true) : (-y).isFinite = true := by
    rw [isFinite_iff, magnitudeBits_neg hy]
    exact (isFinite_iff y).mp hy
  rw [Bool.eq_iff_iff]
  exact ⟨fun h => neg_neg x ▸ hkept h, hkept⟩

/-! ## Order -/

/-- The bit pattern of a double as a signed number. -/
def key (x : Float) : Int :=
  signed (signBit x) (magnitudeBits x)

theorem key_of_zero {x : Float} (hm : (Scaled.ofFloat x).mantissa = 0) : key x = 0 := by
  unfold key signed
  rw [magnitudeBits_eq_zero hm]
  split <;> rfl

theorem key_of_positive {x : Float} (h : signBit x = false) : key x = magnitudeBits x := by
  rw [key, h]
  rfl

theorem key_of_negative {x : Float} (h : signBit x = true) : key x = -magnitudeBits x := by
  rw [key, h]
  rfl

/-- Finite doubles are in the order of their signed bit patterns. -/
theorem le_iff_key {x y : Float} (hx : x.isFinite = true) (hy : y.isFinite = true) :
    x ≤ y ↔ key x ≤ key y := by
  have hpos {z : Float} (hm : 0 < (Scaled.ofFloat z).mantissa) : 0 < magnitudeBits z := by
    rw [← bits_ofFloat]
    exact Nat.lt_of_lt_of_le hm (Nat.le_add_left _ _)
  rw [le_iff]
  obtain ⟨hux, hmx⟩ | ⟨hmx, hux⟩ := unpack_word hx <;>
    obtain ⟨huy, hmy⟩ | ⟨hmy, huy⟩ := unpack_word hy <;>
    rw [hux, huy]
  · rw [key_of_zero hmx, key_of_zero hmy]
    exact iff_of_true rfl le_rfl
  · have hbits := hpos hmy
    cases hys : signBit y
    · rw [key_of_zero hmx, key_of_positive hys, sign_of_positive hys]
      exact iff_of_true rfl (by omega)
    · rw [key_of_zero hmx, key_of_negative hys, sign_of_negative hys]
      exact iff_of_false Bool.false_ne_true (by omega)
  · have hbits := hpos hmx
    cases hxs : signBit x
    · rw [key_of_zero hmy, key_of_positive hxs, sign_of_positive hxs]
      exact iff_of_false Bool.false_ne_true (by omega)
    · rw [key_of_zero hmy, key_of_negative hxs, sign_of_negative hxs]
      exact iff_of_true rfl (by omega)
  · have hxbits := hpos hmx
    have hybits := hpos hmy
    have hcompare := Scaled.Canonical.compare_bits (Scaled.canonical_ofFloat hx hmx.ne')
      (Scaled.canonical_ofFloat hy hmy.ne')
    rw [bits_ofFloat, bits_ofFloat] at hcompare
    cases hxs : signBit x <;> cases hys : signBit y
    · rw [key_of_positive hxs, key_of_positive hys, sign_of_positive hxs, sign_of_positive hys,
        Nat.cast_le, ← Nat.isLE_compare, ← hcompare]
      rfl
    · rw [key_of_positive hxs, key_of_negative hys, sign_of_positive hxs, sign_of_negative hys]
      exact iff_of_false Bool.false_ne_true (by omega)
    · rw [key_of_negative hxs, key_of_positive hys, sign_of_negative hxs, sign_of_positive hys]
      exact iff_of_true rfl (by omega)
    · -- below zero the order is that of the magnitudes, swapped
      rw [key_of_negative hxs, key_of_negative hys, sign_of_negative hxs, sign_of_negative hys,
        neg_le_neg_iff, Nat.cast_le, ← Nat.isGE_compare, ← hcompare, ← Ordering.isLE_swap]
      rfl

end Bits

namespace Scaled

/-- Magnitudes are in the order of their bits, zeros included. -/
theorem magnitude_mono {x y : Float} (hy : y.isFinite = true)
    (h : magnitudeBits x ≤ magnitudeBits y) :
    ((ofFloat x).mantissa : ℚ) * 2 ^ (ofFloat x).exponent ≤
      (ofFloat y).mantissa * 2 ^ (ofFloat y).exponent := by
  by_cases hm : (ofFloat y).mantissa = 0
  · have hzero : (ofFloat x).mantissa = 0 := by
      rw [Bits.magnitudeBits_eq_zero hm, magnitudeBits_eq] at h
      omega
    rw [hzero, hm]
    simp
  · rw [← Bits.bits_ofFloat y] at h
    exact magnitude_ofFloat_le (canonical_ofFloat hy hm) h

theorem mantissa_of_magnitudeBits_eq_zero {x : Float} (h : magnitudeBits x = 0) :
    (ofFloat x).mantissa = 0 := by
  rw [magnitudeBits_eq] at h
  omega

theorem floorMagnitude_eq_floor (s : Scaled) :
    s.floorMagnitude = ⌊(s.mantissa : ℚ) * 2 ^ s.exponent⌋₊ := by
  rw [← quotient_toFloat, Nat.floor_div_eq_div, floorMagnitude, Nat.shiftRight_eq_div_pow,
    Nat.one_shiftLeft]

end Scaled

/-! ## Products -/

namespace Bits

/-- A factor keeps the order of magnitudes. -/
theorem magnitudeBits_mul_mono {x y c : Float} (hx : x.isFinite = true) (hy : y.isFinite = true)
    (hc : c.isFinite = true) (h : magnitudeBits x ≤ magnitudeBits y) :
    magnitudeBits (x * c) ≤ magnitudeBits (y * c) := by
  have hpos (e : Int) : 0 < 1 <<< (-e).toNat := by
    rw [Nat.one_shiftLeft]
    positivity
  rw [mul_eq_toFloat hx hc, mul_eq_toFloat hy hc]
  apply Scaled.magnitudeBits_nearest_mono _ _ (hpos _) (hpos _)
  rw [Scaled.quotient_toFloat ⟨false, _, _⟩, Scaled.quotient_toFloat ⟨false, _, _⟩]
  dsimp only
  rw [Nat.cast_mul, Nat.cast_mul, zpow_add₀ two_ne_zero, zpow_add₀ two_ne_zero, mul_mul_mul_comm,
    mul_mul_mul_comm ((Scaled.ofFloat y).mantissa : ℚ)]
  exact mul_le_mul_of_nonneg_right (Scaled.magnitude_mono hy h) (by positivity)

section Products

variable {x y c : Float} (hx : x.isFinite = true) (hc : c.isFinite = true)

include hx hc

theorem signBit_mul : signBit (x * c) = (signBit x != signBit c) := by
  rw [mul_eq_toFloat hx hc, Scaled.toFloat, Scaled.signBit_nearest_eq]

theorem neg_mul (hfinite : (x * c).isFinite = true) : -x * c = -(x * c) := by
  have hneg : (-x).isFinite = true := by rw [isFinite_neg, hx]
  have hmagnitude := magnitudeBits_neg hx
  apply eq_of_parts
  · rw [signBit_neg hfinite, signBit_mul hneg hc, signBit_mul hx hc, signBit_neg hx]
    cases signBit x <;> cases signBit c <;> rfl
  · rw [magnitudeBits_neg hfinite]
    exact Nat.le_antisymm (magnitudeBits_mul_mono hneg hx hc hmagnitude.le)
      (magnitudeBits_mul_mono hx hneg hc hmagnitude.ge)

/-- A positive factor keeps the order of doubles. -/
theorem mul_le_mul_right (hy : y.isFinite = true) (hcs : signBit c = false)
    (hxc : (x * c).isFinite = true) (hyc : (y * c).isFinite = true) (h : x ≤ y) :
    x * c ≤ y * c := by
  have hzero {z : Float} (hz : z.isFinite = true) (hm : magnitudeBits z = 0) :
      magnitudeBits (z * c) = 0 := by
    rw [mul_eq_toFloat hz hc, Scaled.toFloat, Scaled.mantissa_of_magnitudeBits_eq_zero hm,
      Nat.zero_mul, Nat.zero_shiftLeft, Scaled.magnitudeBits_nearest, if_pos rfl]
  rw [le_iff_key hx hy] at h
  rw [le_iff_key hxc hyc, key, key, signBit_mul hx hc, signBit_mul hy hc, hcs, Bool.bne_false,
    Bool.bne_false]
  exact signed_mono h (magnitudeBits_mul_mono hx hy hc) (magnitudeBits_mul_mono hy hx hc)
    (hzero hx) (hzero hy)

end Products

end Bits

/-! ## Integer parts -/

namespace Integral

open Scaled

theorem value_eq_signed (x : Float) :
    value x = signed (signBit x) (ofFloat x).floorMagnitude := rfl

theorem floorMagnitude_mono {x y : Float} (hy : y.isFinite = true)
    (h : magnitudeBits x ≤ magnitudeBits y) :
    (ofFloat x).floorMagnitude ≤ (ofFloat y).floorMagnitude := by
  rw [floorMagnitude_eq_floor, floorMagnitude_eq_floor]
  exact Nat.floor_mono (magnitude_mono hy h)

theorem value_neg {x : Float} (hx : x.isFinite = true) : value (-x) = -value x := by
  have hneg : (-x).isFinite = true := by rw [Bits.isFinite_neg, hx]
  have hmagnitude := Bits.magnitudeBits_neg hx
  rw [value_eq_signed, value_eq_signed, Bits.signBit_neg hx, signed_not,
    Nat.le_antisymm (floorMagnitude_mono hx hmagnitude.le) (floorMagnitude_mono hneg hmagnitude.ge)]

/-- Cutting off the fractions keeps the order of finite doubles. -/
theorem value_mono {x y : Float} (hx : x.isFinite = true) (hy : y.isFinite = true) (h : x ≤ y) :
    value x ≤ value y := by
  have hzero {z : Float} (hm : magnitudeBits z = 0) : (ofFloat z).floorMagnitude = 0 := by
    simp [floorMagnitude, mantissa_of_magnitudeBits_eq_zero hm]
  rw [Bits.le_iff_key hx hy] at h
  rw [value_eq_signed, value_eq_signed]
  exact signed_mono h (floorMagnitude_mono hy) (floorMagnitude_mono hx) hzero hzero

/-- Rounding to the even integer keeps the order of positive doubles. -/
theorem value_roundEven_mono {x y : Float} (hx : x.isFinite = true) (hy : y.isFinite = true)
    (hxs : signBit x = false) (hys : signBit y = false) (h : magnitudeBits x ≤ magnitudeBits y) :
    value (roundEven x) ≤ value (roundEven y) := by
  have hxden := one_shiftLeft_pos (-(ofFloat x).exponent).toNat
  have hyden := one_shiftLeft_pos (-(ofFloat y).exponent).toNat
  have hmagnitude := magnitude_mono hy h
  rw [← quotient_toFloat, ← quotient_toFloat, div_le_div_iff₀ (by exact_mod_cast hxden)
    (by exact_mod_cast hyden)] at hmagnitude
  rw [value_roundEven hx hxs, value_roundEven hy hys, Nat.cast_le]
  exact roundDiv_mono hxden hyden (by exact_mod_cast hmagnitude)

end Integral

/-! ## Rounding with a sign -/

namespace Scaled

/-- Doubles of one magnitude have one scaled form, but for the sign. -/
theorem parts_eq_of_magnitudeBits_eq {x y : Float} (h : magnitudeBits x = magnitudeBits y) :
    (ofFloat x).mantissa = (ofFloat y).mantissa ∧ (ofFloat x).exponent = (ofFloat y).exponent := by
  unfold magnitudeBits at h
  rw [twoTo_eq] at h
  unfold ofFloat
  simp only [twoTo_eq]
  have hfield : x.toBits.toNat / 2 ^ 52 % 2048 = y.toBits.toNat / 2 ^ 52 % 2048 := by omega
  have hfraction : x.toBits.toNat % 2 ^ 52 = y.toBits.toNat % 2 ^ 52 := by omega
  rw [hfield, hfraction]
  exact ⟨rfl, rfl⟩

theorem nearest_true (num den : Nat) : nearest true num den = -nearest false num den := by
  have hmagnitude : magnitudeBits (nearest true num den) = magnitudeBits (nearest false num den) := by
    rw [magnitudeBits_nearest, magnitudeBits_nearest]
  apply Bits.eq_of_parts
  · cases hfinite : (nearest false num den).isFinite with
    | true => rw [Bits.signBit_neg hfinite, signBit_nearest_eq, signBit_nearest_eq, Bool.not_false]
    | false =>
      rw [signBit_nearest_eq, nearest_eq_infinity hfinite]
      decide +kernel
  · cases hfinite : (nearest false num den).isFinite with
    | true => rw [Bits.magnitudeBits_neg hfinite, hmagnitude]
    | false =>
      rw [hmagnitude, nearest_eq_infinity hfinite]
      decide +kernel

end Scaled

/-- A decimal with a sign is read as the opposite of the decimal without. -/
theorem Decimal.toFloat_true (d : Decimal) : d.toFloat true = -d.toFloat false := by
  unfold Decimal.toFloat
  dsimp only
  split
  · exact Scaled.nearest_true 0 1
  · split
    · rfl
    · exact Scaled.nearest_true _ _

end Isotherm
