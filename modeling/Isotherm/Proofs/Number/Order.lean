import Isotherm.Proofs.Number.Bounds

/-!
# The order of magnitudes

The arithmetic of doubles works on unpacked numbers: zero, or a sign with a mantissa and an exponent.
These are the mantissa and the exponent of the scaled form, so comparing two positive doubles is
comparing their bit patterns.
-/

namespace Isotherm

/-- Canonical forms are ordered by exponent first, and so are their bits. -/
theorem Scaled.Canonical.compare_bits {s r : Scaled} (hs : s.Canonical) (hr : r.Canonical) :
    (compare s.exponent r.exponent).then (compare s.mantissa r.mantissa) =
      compare s.bits r.bits := by
  obtain ⟨-, hslt, hsleast, -, hsfull⟩ := hs
  obtain ⟨-, hrlt, hrleast, -, hrfull⟩ := hr
  unfold bits
  -- the larger exponent is that of a full mantissa, which makes up for any smaller one
  rcases lt_trichotomy s.exponent r.exponent with h | h | h
  · rw [compare_lt_iff_lt.mpr h, Ordering.lt_then, eq_comm, compare_lt_iff_lt]
    omega
  · rw [h, compare_eq_iff_eq.mpr rfl, Ordering.eq_then]
    generalize (r.exponent + 1074).toNat * 2 ^ 52 = base
    rcases lt_trichotomy s.mantissa r.mantissa with hm | hm | hm
    · rw [compare_lt_iff_lt.mpr hm, compare_lt_iff_lt.mpr (by omega)]
    · rw [hm, compare_eq_iff_eq.mpr rfl, compare_eq_iff_eq.mpr rfl]
    · rw [compare_gt_iff_gt.mpr hm, compare_gt_iff_gt.mpr (by omega)]
  · rw [compare_gt_iff_gt.mpr h, Ordering.gt_then, eq_comm, compare_gt_iff_gt]
    omega

namespace Bits

open Float.Model Float.Model.UnpackedFloat

theorem unpackExponent_ne_ones {x : Float} (hx : x.isFinite = true) :
    unpackExponent (word x) ≠ -1#11 := by
  rw [ne_eq, exponent_eq_ones_iff, Nat.not_le]
  exact (isFinite_iff x).mp hx

/-- The sign field of a double. -/
def sign (x : Float) : Sign :=
  Sign.ofBitVec (unpackSign (word x))

theorem sign_of_positive {x : Float} (h : signBit x = false) : sign x = .positive := by
  have hlt : ¬2 ^ 63 ≤ (word x).toNat := of_decide_eq_false h
  have hfield : unpackSign (word x) = 0#1 := by
    apply BitVec.eq_of_toNat_eq
    rw [toNat_unpackSign]
    show (word x).toNat / 2 ^ 63 = 0
    omega
  unfold sign
  rw [hfield]
  rfl

theorem ofFloat_eq_fields (x : Float) :
    (Scaled.ofFloat x).mantissa =
        (if (unpackExponent (word x)).toNat = 0 then 0 else 2 ^ 52) +
          (unpackMantissa (word x)).toNat ∧
      (Scaled.ofFloat x).exponent = (max (unpackExponent (word x)).toNat 1 : Nat) - 1075 := by
  rw [toNat_unpackExponent, toNat_unpackMantissa]
  change _ = (if x.toBits.toNat / 2 ^ 52 % 2048 = 0 then 0 else 2 ^ 52) + x.toBits.toNat % 2 ^ 52 ∧
    _ = ((max (x.toBits.toNat / 2 ^ 52 % 2048) 1 : Nat) : Int) - 1075
  unfold Scaled.ofFloat
  simp only [twoTo_eq]
  split <;> simp

theorem decode_of_ne_ones (s : Sign) {e : BitVec 11} (m : BitVec 52) (he : e ≠ -1#11) :
    (decode s e m = .zero s ∧ (if e.toNat = 0 then 0 else 2 ^ 52) + m.toNat = 0) ∨
      ∃ h, decode s e m = .finite s ((if e.toNat = 0 then 0 else 2 ^ 52) + m.toNat)
        ((max e.toNat 1 : Nat) - 1075) h := by
  unfold decode UnpackedFloat.unpack
  simp only [unpackMantissa_packComponents, unpackExponent_packComponents,
    unpackSign_packComponents, ofBitVec_toBitVec, if_neg he]
  by_cases hz : e = 0#11
  · subst hz
    by_cases hm : m = 0#52
    · subst hm
      exact .inl ⟨rfl, rfl⟩
    · have hpos : 0 < m.toNat := (BitVec.toNat_pos m).mpr ((BitVec.pos_iff_ne_zero m).mpr hm)
      refine .inr ⟨by simpa using hpos, ?_⟩
      rw [if_pos rfl, dif_neg hm]
      simp [Format.exponentBias]
  · have hne : e.toNat ≠ 0 := fun h => hz (BitVec.eq_of_toNat_eq h)
    have hmax : max e.toNat 1 = e.toNat := by omega
    have happend : (1#1 ++ m).toNat = 2 ^ 52 + m.toNat := by
      rw [toNat_append]
      simp
    refine .inr ⟨by simp [hne], ?_⟩
    rw [if_neg hz]
    simp [hne, happend, hmax, Format.exponentBias]

/-- A finite double unpacks to zero, or to the parts of its scaled form. -/
theorem unpack_word {x : Float} (hx : x.isFinite = true) :
    (unpack Format.binary64 (word x) = .zero (sign x) ∧ (Scaled.ofFloat x).mantissa = 0) ∨
      ∃ h, unpack Format.binary64 (word x) =
        .finite (sign x) (Scaled.ofFloat x).mantissa (Scaled.ofFloat x).exponent h := by
  obtain ⟨hmantissa, hexponent⟩ := ofFloat_eq_fields x
  rw [hmantissa, hexponent, unpack_eq_decode]
  exact decode_of_ne_ones (sign x) (unpackMantissa (word x)) (unpackExponent_ne_ones hx)

/-! ## Comparing -/

theorem bits_ofFloat (x : Float) : (Scaled.ofFloat x).bits = magnitudeBits x :=
  (Scaled.magnitudeBits_eq x).symm

theorem magnitudeBits_eq_zero {x : Float} (hm : (Scaled.ofFloat x).mantissa = 0) :
    magnitudeBits x = 0 := by
  obtain ⟨hmantissa, hexponent⟩ := ofFloat_eq_fields x
  have hfield : (unpackExponent (word x)).toNat = 0 := by
    by_contra hne
    rw [if_neg hne] at hmantissa
    omega
  rw [← bits_ofFloat, Scaled.bits, hm, hexponent, hfield]
  rfl

/-- Positive doubles are in the order of their bit patterns. -/
theorem compare_of_positive {x y : Float} (hx : x.isFinite = true) (hy : y.isFinite = true)
    (hxs : signBit x = false) (hys : signBit y = false) :
    (unpack Format.binary64 (word x)).compare (unpack Format.binary64 (word y)) =
      some (compare (magnitudeBits x) (magnitudeBits y)) := by
  have hpos {z : Float} (hm : 0 < (Scaled.ofFloat z).mantissa) : 0 < magnitudeBits z := by
    rw [← bits_ofFloat]
    exact Nat.lt_of_lt_of_le hm (Nat.le_add_left _ _)
  obtain ⟨hux, hmx⟩ | ⟨hmx, hux⟩ := unpack_word hx <;>
    obtain ⟨huy, hmy⟩ | ⟨hmy, huy⟩ := unpack_word hy <;>
    rw [hux, huy, sign_of_positive hxs, sign_of_positive hys]
  · rw [magnitudeBits_eq_zero hmx, magnitudeBits_eq_zero hmy]
    rfl
  · rw [magnitudeBits_eq_zero hmx, compare_lt_iff_lt.mpr (hpos hmy)]
    rfl
  · rw [magnitudeBits_eq_zero hmy, compare_gt_iff_gt.mpr (hpos hmx)]
    rfl
  · rw [← bits_ofFloat, ← bits_ofFloat, ← Scaled.Canonical.compare_bits
      (Scaled.canonical_ofFloat hx (Nat.ne_of_gt hmx))
      (Scaled.canonical_ofFloat hy (Nat.ne_of_gt hmy))]
    rfl

theorem lt_iff (x y : Float) :
    x < y ↔ (unpack Format.binary64 (word x)).compare (unpack Format.binary64 (word y)) =
      some .lt := by
  refine Iff.trans (decide_eq_true_iff (p := x.toModel < y.toModel)) ?_
  show (_ == some Ordering.lt) = true ↔ _
  rw [beq_iff_eq]
  rfl

theorem le_iff (x y : Float) :
    x ≤ y ↔ ((unpack Format.binary64 (word x)).compare (unpack Format.binary64 (word y))).any
      (·.isLE) = true :=
  decide_eq_true_iff (p := x.toModel ≤ y.toModel)

/-- A double that is not zero or less is positive or a NaN. -/
theorem not_le_zero_iff (v : Float) : ¬v ≤ 0.0 ↔ 0.0 < v ∨ v.isNaN = true := by
  have hword : word 0.0 = 0#64 := by decide +kernel
  have hzero : unpack Format.binary64 (word 0.0) = .zero .positive := by
    rw [hword]
    rfl
  have hnan : v.isNaN = (unpack Format.binary64 (word v)).isNaN := rfl
  rw [le_iff, lt_iff, hzero, hnan]
  cases unpack Format.binary64 (word v) with
  | notANumber => decide
  | zero s => cases s <;> decide
  | infinity s => cases s <;> decide
  | finite s m e h => cases s <;> simp [UnpackedFloat.compare, UnpackedFloat.isNaN]

theorem lt_iff_of_positive {x y : Float} (hx : x.isFinite = true) (hy : y.isFinite = true)
    (hxs : signBit x = false) (hys : signBit y = false) :
    x < y ↔ magnitudeBits x < magnitudeBits y := by
  rw [lt_iff, compare_of_positive hx hy hxs hys, Option.some_inj, compare_lt_iff_lt]

theorem le_iff_of_positive {x y : Float} (hx : x.isFinite = true) (hy : y.isFinite = true)
    (hxs : signBit x = false) (hys : signBit y = false) :
    x ≤ y ↔ magnitudeBits x ≤ magnitudeBits y := by
  rw [le_iff, compare_of_positive hx hy hxs hys, Option.any_some, Nat.isLE_compare]

/-! ## The magnitude as a double -/

theorem abs_decode (s : Sign) {e : BitVec 11} (m : BitVec 52) (he : e ≠ -1#11) :
    (decode s e m).abs = decode .positive e m := by
  unfold decode UnpackedFloat.unpack
  simp only [unpackMantissa_packComponents, unpackExponent_packComponents,
    unpackSign_packComponents, ofBitVec_toBitVec, if_neg he]
  split
  next => split <;> rfl
  next => rfl

theorem word_abs (x : Float) :
    word x.abs = pack Format.binary64 (unpack Format.binary64 (word x)).abs := rfl

/-- Taking the magnitude clears the sign field. -/
theorem toBits_abs {x : Float} (hx : x.isFinite = true) :
    x.abs.toBits.toNat = magnitudeBits x := by
  have hones := unpackExponent_ne_ones hx
  show (word x.abs).toNat = (word x).toNat % 2 ^ 63
  rw [word_abs, unpack_eq_decode, abs_decode _ _ hones,
    pack_decode _ _ _ (fun h => absurd h hones), toNat_packComponents, toNat_unpackExponent,
    toNat_unpackMantissa]
  have hpositive : Sign.positive.toBitVec.toNat = 0 := rfl
  rw [hpositive]
  omega

theorem magnitudeBits_abs {x : Float} (hx : x.isFinite = true) :
    magnitudeBits x.abs = magnitudeBits x := by
  have h := toBits_abs hx
  unfold magnitudeBits at h ⊢
  rw [h, twoTo_eq]
  omega

theorem signBit_abs {x : Float} (hx : x.isFinite = true) : signBit x.abs = false := by
  have h := toBits_abs hx
  unfold magnitudeBits at h
  unfold signBit
  rw [h, twoTo_eq, decide_eq_false_iff_not]
  omega

theorem isFinite_abs {x : Float} (hx : x.isFinite = true) : x.abs.isFinite = true := by
  rw [isFinite_iff, magnitudeBits_abs hx]
  exact (isFinite_iff x).mp hx

theorem abs_lt_iff {x y : Float} (hx : x.isFinite = true) (hy : y.isFinite = true)
    (hys : signBit y = false) : x.abs < y ↔ magnitudeBits x < magnitudeBits y := by
  rw [lt_iff_of_positive (isFinite_abs hx) hy (signBit_abs hx) hys, magnitudeBits_abs hx]

theorem le_abs_iff {x y : Float} (hx : x.isFinite = true) (hy : y.isFinite = true)
    (hys : signBit y = false) : y ≤ x.abs ↔ magnitudeBits y ≤ magnitudeBits x := by
  rw [le_iff_of_positive hy (isFinite_abs hx) hys (signBit_abs hx), magnitudeBits_abs hx]

end Bits
end Isotherm
