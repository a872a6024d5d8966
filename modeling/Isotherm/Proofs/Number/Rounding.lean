import Isotherm.Proofs.Number.Thresholds

/-!
# Rounding in order

Rounding keeps the order of quotients, whatever fractions they are written as, and leaves a double
where it is. So two quotients with two doubles between them are rounded to different doubles. The
sign of a rounded number is the one that it is rounded with.
-/

namespace Isotherm

namespace Scaled

/-! ## The order of rounded quotients -/

theorem roundDiv_mono {num den num' den' : Nat} (hden : 0 < den) (hden' : 0 < den')
    (h : num * den' ≤ num' * den) : roundDiv num den ≤ roundDiv num' den' := by
  have hnum := Nat.div_add_mod' num den
  have hnum' := Nat.div_add_mod' num' den'
  have hrest := Nat.mod_lt num hden
  have hrest' := Nat.mod_lt num' hden'
  have hquotient : num / den ≤ num' / den' := by
    rw [Nat.le_div_iff_mul_le hden']
    refine Nat.le_of_mul_le_mul_right ?_ hden
    calc num / den * den' * den = num / den * den * den' := Nat.mul_right_comm ..
      _ ≤ num * den' := Nat.mul_le_mul_right den' (Nat.div_mul_le_self num den)
      _ ≤ num' * den := h
  unfold roundDiv
  generalize num / den = quotient at *
  generalize num % den = rest at *
  generalize num' / den' = quotient' at *
  generalize num' % den' = rest' at *
  by_cases heq : quotient = quotient'
  · subst heq
    -- with one quotient, the rests are in the order of the quotients
    have hrests : rest * den' ≤ rest' * den := by
      rw [← hnum, ← hnum', Nat.add_mul, Nat.add_mul, Nat.mul_right_comm quotient den' den] at h
      exact Nat.le_of_add_le_add_left h
    have hover (hlt : den < 2 * rest) : den' < 2 * rest' := by
      by_contra hle
      have hlow := Nat.mul_lt_mul_of_pos_right hlt hden'
      have hhigh := Nat.mul_le_mul_right den (Nat.not_lt.mp hle)
      rw [Nat.mul_assoc] at hlow hhigh
      rw [Nat.mul_comm den den'] at hlow
      omega
    have htie (hle : den ≤ 2 * rest) : den' ≤ 2 * rest' := by
      by_contra hlt
      have hlow := Nat.mul_le_mul_right den' hle
      have hhigh := Nat.mul_lt_mul_of_pos_right (Nat.not_le.mp hlt) hden
      rw [Nat.mul_assoc] at hlow hhigh
      rw [Nat.mul_comm den den'] at hlow
      omega
    dsimp only
    split_ifs <;> omega
  · dsimp only
    split_ifs <;> omega

/-- The rounded number depends on the quotient alone. -/
theorem roundDiv_congr {num den num' den' : Nat} (hden : 0 < den) (hden' : 0 < den')
    (h : (num : ℚ) / den = num' / den') : roundDiv num den = roundDiv num' den' := by
  have hd : (den : ℚ) ≠ 0 := by exact_mod_cast hden.ne'
  have hd' : (den' : ℚ) ≠ 0 := by exact_mod_cast hden'.ne'
  rw [div_eq_div_iff hd hd'] at h
  have hcross : num * den' = num' * den := by exact_mod_cast h
  exact Nat.le_antisymm (roundDiv_mono hden hden' hcross.le) (roundDiv_mono hden' hden hcross.ge)

/-- A larger quotient is rounded to no smaller a magnitude. -/
theorem magnitudeBits_nearest_mono (negative negative' : Bool) {num den num' den' : Nat}
    (hden : 0 < den) (hden' : 0 < den') (h : (num : ℚ) / den ≤ num' / den') :
    magnitudeBits (nearest negative num den) ≤ magnitudeBits (nearest negative' num' den') := by
  rw [magnitudeBits_nearest, magnitudeBits_nearest]
  by_cases hzero : num = 0
  · rw [if_pos hzero]
    exact Nat.zero_le _
  have hnum := Nat.pos_of_ne_zero hzero
  have hnum' : 0 < num' := by
    have hd : (0 : ℚ) < den := by exact_mod_cast hden
    have hd' : (0 : ℚ) < den' := by exact_mod_cast hden'
    have hn : (0 : ℚ) < num := by exact_mod_cast hnum
    have hquotient := (div_pos hn hd).trans_le h
    rw [div_pos_iff_of_pos_right hd'] at hquotient
    exact_mod_cast hquotient
  rw [if_neg hzero, if_neg hnum'.ne']
  obtain ⟨own, hlast, hlow, -⟩ := lastPlace_spec hnum hden
  obtain ⟨own', hlast', hlow', hhigh'⟩ := lastPlace_spec hnum' hden'
  have hown : own + 52 < own' + 53 :=
    (zpow_lt_zpow_iff_right₀ one_lt_two).mp (hlow.trans_lt (h.trans_lt hhigh'))
  by_cases heq : lastPlace num den = lastPlace num' den'
  · have hround : roundDiv (num <<< (-lastPlace num den).toNat) (den <<< (lastPlace num den).toNat) ≤
        roundDiv (num' <<< (-lastPlace num den).toNat) (den' <<< (lastPlace num den).toNat) := by
      have hpos := Shortest.shifted_den_pos hden (lastPlace num den)
      have hpos' := Shortest.shifted_den_pos hden' (lastPlace num den)
      apply roundDiv_mono hpos hpos'
      have hle : ((num <<< (-lastPlace num den).toNat : Nat) : ℚ) /
          (den <<< (lastPlace num den).toNat : Nat) ≤
          (num' <<< (-lastPlace num den).toNat : Nat) /
            (den' <<< (lastPlace num den).toNat : Nat) := by
        rw [shifted_quotient, shifted_quotient]
        exact div_le_div_of_nonneg_right h (by positivity)
      rw [div_le_div_iff₀ (by exact_mod_cast hpos) (by exact_mod_cast hpos')] at hle
      exact_mod_cast hle
    rw [← heq]
    exact min_le_min_right _ (Nat.add_le_add_left hround _)
  · -- in a higher binade the mantissa is full, so even a carry does not reach it
    have hplace : own' = lastPlace num' den' := by omega
    have hfull := le_roundDiv_shifted hden' (lastPlace num' den') (by rwa [hplace] at hlow')
    have hcarry := roundDiv_lastPlace_le hnum hden
    apply min_le_min_right
    generalize roundDiv _ _ = carried at *
    generalize roundDiv _ _ = full at *
    omega

/-! ## Doubles stay where they are -/

theorem magnitudeBits_toFloat {s : Scaled} (hs : s.Canonical) : magnitudeBits s.toFloat = s.bits := by
  have hden : 0 < 1 <<< (-s.exponent).toNat := by
    rw [Nat.one_shiftLeft]
    positivity
  have hnum : 0 < s.mantissa <<< s.exponent.toNat := by
    rw [Nat.shiftLeft_eq]
    exact Nat.mul_pos hs.pos (by positivity)
  have hquotient := quotient_toFloat s
  have hunit : (0 : ℚ) < 2 ^ s.exponent := by positivity
  have hmantissa : ((s.mantissa <<< s.exponent.toNat : Nat) : ℚ) /
      (1 <<< (-s.exponent).toNat : Nat) / 2 ^ s.exponent = s.mantissa := by
    rw [hquotient, mul_div_cancel_right₀ _ hunit.ne']
  have hplace : lastPlace (s.mantissa <<< s.exponent.toNat) (1 <<< (-s.exponent).toNat) =
      s.exponent := by
    refine lastPlace_eq hnum hden hs.least ?_ ?_
    · refine hs.full.symm.imp_right fun hfull => ?_
      have hcast : (2 ^ 52 : ℚ) ≤ s.mantissa := by exact_mod_cast hfull
      rwa [hquotient, Shortest.zpow_add_le_iff, zpow_ofNat]
    · have hcast : (s.mantissa : ℚ) < 2 ^ 53 := by exact_mod_cast hs.lt
      rwa [hquotient, ← not_le, Shortest.zpow_add_le_iff, not_le, zpow_ofNat]
  have hlt := hs.bits_lt
  rw [toFloat, magnitudeBits_nearest, if_neg hnum.ne', hplace, roundDiv_eq_of_rat
    (Shortest.shifted_den_pos hden s.exponent) (m := s.mantissa)]
  · exact Nat.min_eq_left hlt.le
  all_goals
    rw [shifted_quotient, hmantissa]
    norm_num

/-- What is at least a double is rounded to at least that double. -/
theorem bits_le_magnitudeBits_nearest {s : Scaled} (hs : s.Canonical) (negative : Bool)
    {num den : Nat} (hden : 0 < den) (h : (s.mantissa : ℚ) * 2 ^ s.exponent ≤ num / den) :
    s.bits ≤ magnitudeBits (nearest negative num den) := by
  rw [← magnitudeBits_toFloat hs]
  refine magnitudeBits_nearest_mono _ _ ?_ hden (by rwa [quotient_toFloat])
  rw [Nat.one_shiftLeft]
  positivity

/-- Quotients with two doubles between them are not rounded to one double. -/
theorem magnitudeBits_nearest_lt {low high : Scaled} (hlow : low.Canonical) (hhigh : high.Canonical)
    (negative negative' : Bool) {num den num' den' : Nat} (hden : 0 < den) (hden' : 0 < den')
    (hbelow : (num : ℚ) / den ≤ low.mantissa * 2 ^ low.exponent)
    (hlt : (low.mantissa : ℚ) * 2 ^ low.exponent < high.mantissa * 2 ^ high.exponent)
    (habove : (high.mantissa : ℚ) * 2 ^ high.exponent ≤ num' / den') :
    magnitudeBits (nearest negative num den) < magnitudeBits (nearest negative' num' den') := by
  have hbits : low.bits < high.bits := by
    by_contra hle
    exact absurd (magnitude_le_of_bits_le hlow hhigh (not_lt.mp hle)) (not_le.mpr hlt)
  calc magnitudeBits (nearest negative num den)
      ≤ low.bits := magnitudeBits_nearest_le hlow negative hden hbelow
    _ < high.bits := hbits
    _ ≤ magnitudeBits (nearest negative' num' den') :=
      bits_le_magnitudeBits_nearest hhigh negative' hden' habove

/-! ## Signs -/

/-- The word of a rounded number: its magnitude with the sign bit in front. -/
theorem toNat_toBits_nearest (negative : Bool) (num den : Nat) :
    (nearest negative num den).toBits.toNat =
      magnitudeBits (nearest negative num den) + if negative then 2 ^ 63 else 0 := by
  have hle := magnitudeBits_nearest_le_infinity negative num den
  rw [magnitudeBits_nearest] at hle ⊢
  unfold nearest
  simp only [twoTo_eq, leastExponent, sub_neg_eq_add]
  generalize (if num = 0 then 0 else _ : Nat) = magnitude at *
  change magnitude ≤ 2047 * 2 ^ 52 at hle
  have hword : (UInt64.ofNat (magnitude + if negative then 2 ^ 63 else 0)).toNat =
      magnitude + if negative then 2 ^ 63 else 0 := by
    rw [UInt64.toNat_ofNat', Nat.mod_eq_of_lt]
    split <;> omega
  rw [Bits.toBits_ofBits, hword]
  rw [hword]
  show _ ≤ 2047 * 2 ^ 52
  split <;> omega

theorem signBit_nearest_eq (negative : Bool) (num den : Nat) :
    signBit (nearest negative num den) = negative := by
  have hle := magnitudeBits_nearest_le_infinity negative num den
  change _ ≤ 2047 * 2 ^ 52 at hle
  unfold signBit
  rw [toNat_toBits_nearest, twoTo_eq]
  cases negative
  · simp only [Bool.false_eq_true, if_false, decide_eq_false_iff_not]
    omega
  · simp only [if_true, decide_eq_true_eq]
    omega

end Scaled

/-- A double is its sign and its magnitude. -/
theorem Bits.eq_of_parts {x y : Float} (hs : signBit x = signBit y)
    (hm : magnitudeBits x = magnitudeBits y) : x = y := by
  unfold signBit at hs
  unfold magnitudeBits at hm
  rw [twoTo_eq] at hs hm
  have hword : x.toBits.toNat = y.toBits.toNat := by
    have hiff := decide_eq_decide.mp hs
    have hx : x.toBits.toNat < 2 ^ 64 := x.toBits.toNat_lt
    have hy : y.toBits.toNat < 2 ^ 64 := y.toBits.toNat_lt
    omega
  apply word_injective
  exact BitVec.eq_of_toNat_eq hword

/-- The rounded number depends on the quotient and the sign alone. -/
theorem Scaled.nearest_congr (negative : Bool) {num den num' den' : Nat} (hden : 0 < den)
    (hden' : 0 < den') (h : (num : ℚ) / den = num' / den') :
    nearest negative num den = nearest negative num' den' := by
  apply Bits.eq_of_parts
  · rw [signBit_nearest_eq, signBit_nearest_eq]
  · exact Nat.le_antisymm (magnitudeBits_nearest_mono _ _ hden hden' h.le)
      (magnitudeBits_nearest_mono _ _ hden' hden h.ge)

end Isotherm
