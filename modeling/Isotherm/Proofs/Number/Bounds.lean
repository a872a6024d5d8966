import Isotherm.Proofs.Number.Integers

/-!
# Rounding passes no double

A quotient that is at most a double is rounded to at most that double. Bit patterns carry this: they
are in the order of the magnitudes, within a binade and from one binade to the next.
-/

namespace Isotherm

namespace Scaled

/-- The bits of the magnitude with a mantissa and an exponent. -/
def bits (s : Scaled) : Nat :=
  (s.exponent + 1074).toNat * 2 ^ 52 + s.mantissa

theorem Canonical.bits_lt {s : Scaled} (hs : s.Canonical) : s.bits < infinityBits := by
  obtain ⟨-, hlt, hleast, hmost, -⟩ := hs
  show (s.exponent + 1074).toNat * 2 ^ 52 + s.mantissa < 2047 * 2 ^ 52
  omega

theorem roundDiv_le {num den m : Nat} (hden : 0 < den) (h : num ≤ m * den) :
    roundDiv num den ≤ m := by
  have hnum := Nat.div_add_mod' num den
  have hrest := Nat.mod_lt num hden
  unfold roundDiv
  generalize num / den = quotient at *
  generalize num % den = rest at *
  have hle : quotient ≤ m := by
    by_contra hlt
    have hmul := Nat.mul_le_mul_right den (Nat.lt_of_not_le hlt)
    rw [Nat.succ_mul] at hmul
    omega
  by_cases heq : quotient = m
  · subst heq
    dsimp only
    split_ifs <;> omega
  · dsimp only
    split_ifs <;> omega

/-- A quotient over a place is bounded where the quotient is. -/
theorem roundDiv_shifted_le {num den : Nat} (hden : 0 < den) {place : Int} {m : Nat}
    (h : (num : ℚ) / den ≤ m * 2 ^ place) :
    roundDiv (num <<< (-place).toNat) (den <<< place.toNat) ≤ m := by
  have hpos : 0 < den <<< place.toNat := by
    rw [Nat.shiftLeft_eq]
    positivity
  have hq : (0 : ℚ) < (den <<< place.toNat : Nat) := by exact_mod_cast hpos
  have hp : (0 : ℚ) < 2 ^ place := by positivity
  refine roundDiv_le hpos ?_
  have hle : ((num <<< (-place).toNat : Nat) : ℚ) / (den <<< place.toNat : Nat) ≤ m := by
    rw [shifted_quotient, div_le_iff₀ hp]
    exact h
  rw [div_le_iff₀ hq] at hle
  exact_mod_cast hle

theorem magnitudeBits_ofBits {magnitude : Nat} (h : magnitude ≤ infinityBits) (negative : Bool) :
    magnitudeBits (Float.ofBits (UInt64.ofNat (magnitude + if negative then twoTo 63 else 0))) =
      magnitude := by
  change magnitude ≤ 2047 * 2 ^ 52 at h
  generalize hn : (magnitude + if negative then twoTo 63 else 0) = n
  have hmod : n < 2 ^ 64 ∧ n % 2 ^ 63 = magnitude := by
    rw [twoTo_eq] at hn
    split at hn <;> omega
  have hword : (UInt64.ofNat n).toNat = n := by
    rw [UInt64.toNat_ofNat', Nat.mod_eq_of_lt hmod.1]
  unfold magnitudeBits
  rw [Bits.toBits_ofBits, hword, twoTo_eq, hmod.2]
  rw [hword, hmod.2]
  exact h

/-- The last place of a quotient is that of no larger double. -/
theorem lastPlace_le {s : Scaled} (hs : s.Canonical) {num den : Nat} (hnum : 0 < num)
    (hden : 0 < den) (h : (num : ℚ) / den ≤ s.mantissa * 2 ^ s.exponent) :
    lastPlace num den ≤ s.exponent := by
  obtain ⟨place, hplace, hlow, -⟩ := lastPlace_spec hnum hden
  have hbelow : (2 : ℚ) ^ (place + 52) < 2 ^ (s.exponent + 53) := calc
    (2 : ℚ) ^ (place + 52) ≤ num / den := hlow
    _ ≤ s.mantissa * 2 ^ s.exponent := h
    _ < 2 ^ 53 * 2 ^ s.exponent := by
      have hm : (s.mantissa : ℚ) < 2 ^ 53 := by exact_mod_cast hs.lt
      exact mul_lt_mul_of_pos_right hm (by positivity)
    _ = 2 ^ (s.exponent + 53) := by
      rw [zpow_add₀ two_ne_zero, mul_comm]
      rfl
  have hexponent := (zpow_lt_zpow_iff_right₀ (one_lt_two (α := ℚ))).mp hbelow
  have hleast := hs.least
  omega

/-- The mantissa of a rounded quotient has at most 53 bits, but for a carry. -/
theorem roundDiv_lastPlace_le {num den : Nat} (hnum : 0 < num) (hden : 0 < den) :
    roundDiv (num <<< (-lastPlace num den).toNat) (den <<< (lastPlace num den).toNat) ≤
      2 ^ 53 := by
  obtain ⟨place, hplace, -, hhigh⟩ := lastPlace_spec hnum hden
  refine roundDiv_shifted_le hden ?_
  have hle : place ≤ lastPlace num den := by omega
  calc (num : ℚ) / den ≤ 2 ^ (place + 53) := hhigh.le
    _ ≤ 2 ^ (lastPlace num den + 53) := zpow_le_zpow_right₀ one_le_two (by omega)
    _ = (2 ^ 53 : Nat) * 2 ^ lastPlace num den := by
      rw [zpow_add₀ two_ne_zero, mul_comm]
      norm_num

/-- What is at most a double is rounded to at most that double. -/
theorem magnitudeBits_nearest_le {s : Scaled} (hs : s.Canonical) (negative : Bool) {num den : Nat}
    (hden : 0 < den) (h : (num : ℚ) / den ≤ s.mantissa * 2 ^ s.exponent) :
    magnitudeBits (nearest negative num den) ≤ s.bits := by
  unfold nearest
  rw [magnitudeBits_ofBits]
  · by_cases hnum : num = 0
    · rw [if_pos hnum]
      exact Nat.zero_le _
    · rw [if_neg hnum]
      have hpos := Nat.pos_of_ne_zero hnum
      have hle := lastPlace_le hs hpos hden h
      refine Nat.le_trans (Nat.min_le_left _ _) ?_
      rw [twoTo_eq, leastExponent, sub_neg_eq_add]
      by_cases heq : lastPlace num den = s.exponent
      · have hround := roundDiv_shifted_le hden h
        rw [heq, bits]
        omega
      · have hround := roundDiv_lastPlace_le hpos hden
        have hleast : -1074 ≤ lastPlace num den := by
          obtain ⟨place, hplace, -⟩ := lastPlace_spec hpos hden
          omega
        obtain ⟨-, -, -, -, hfull⟩ := hs
        unfold bits
        omega
  · split
    · exact Nat.zero_le _
    · exact Nat.min_le_right _ _

/-! ## Bounds of values -/

/-- The magnitude of a scaled form as a quotient of natural numbers. -/
theorem quotient_toFloat (s : Scaled) :
    ((s.mantissa <<< s.exponent.toNat : Nat) : ℚ) / (1 <<< (-s.exponent).toNat : Nat) =
      s.mantissa * 2 ^ s.exponent := by
  have hquotient := shifted_quotient s.mantissa 1 (-s.exponent)
  rwa [neg_neg, Nat.cast_one, div_one, zpow_neg, div_inv_eq_mul] at hquotient

theorem floorMagnitude_le (s : Scaled) : (s.floorMagnitude : ℚ) ≤ s.mantissa * 2 ^ s.exponent := by
  rw [← quotient_toFloat, floorMagnitude, Nat.shiftRight_eq_div_pow, Nat.one_shiftLeft]
  exact Nat.cast_div_le

/-- Magnitudes are in the order of their bits. -/
theorem magnitude_le_of_bits_le {s r : Scaled} (hs : s.Canonical) (hr : r.Canonical)
    (h : r.bits ≤ s.bits) : (r.mantissa : ℚ) * 2 ^ r.exponent ≤ s.mantissa * 2 ^ s.exponent := by
  obtain ⟨-, hslt, hsleast, -, hsfull⟩ := hs
  obtain ⟨-, hrlt, hrleast, -, hrfull⟩ := hr
  unfold bits at h
  by_cases heq : r.exponent = s.exponent
  · have hm : (r.mantissa : ℚ) ≤ s.mantissa := by
      rw [heq] at h
      exact_mod_cast (by omega : r.mantissa ≤ s.mantissa)
    rw [heq]
    exact mul_le_mul_of_nonneg_right hm (by positivity)
  · have hlt : r.exponent + 1 ≤ s.exponent := by omega
    have hrm : (r.mantissa : ℚ) ≤ 2 ^ 53 := by exact_mod_cast hrlt.le
    have hsm : (2 ^ 52 : ℚ) ≤ s.mantissa := by
      exact_mod_cast (by omega : 2 ^ 52 ≤ s.mantissa)
    calc (r.mantissa : ℚ) * 2 ^ r.exponent
        ≤ 2 ^ 53 * 2 ^ r.exponent := mul_le_mul_of_nonneg_right hrm (by positivity)
      _ = 2 ^ 52 * 2 ^ (r.exponent + 1) := by
        rw [zpow_add₀ two_ne_zero]
        ring
      _ ≤ 2 ^ 52 * 2 ^ s.exponent :=
        mul_le_mul_of_nonneg_left (zpow_le_zpow_right₀ one_le_two hlt) (by positivity)
      _ ≤ s.mantissa * 2 ^ s.exponent := mul_le_mul_of_nonneg_right hsm (by positivity)

theorem isFinite_of_bits_le {s : Scaled} (hs : s.Canonical) {x : Float}
    (h : magnitudeBits x ≤ s.bits) : x.isFinite = true :=
  (Bits.isFinite_iff x).mpr (Nat.lt_of_le_of_lt h hs.bits_lt)

/-- The magnitude of a double is bounded where its bits are. -/
theorem magnitude_ofFloat_le {s : Scaled} (hs : s.Canonical) {x : Float}
    (h : magnitudeBits x ≤ s.bits) :
    ((ofFloat x).mantissa : ℚ) * 2 ^ (ofFloat x).exponent ≤ s.mantissa * 2 ^ s.exponent := by
  by_cases hm : (ofFloat x).mantissa = 0
  · rw [hm, Nat.cast_zero, zero_mul]
    positivity
  · have hx := canonical_ofFloat (isFinite_of_bits_le hs h) hm
    rw [magnitudeBits_eq] at h
    exact magnitude_le_of_bits_le hs hx h

/-! ## Past the largest double -/

/-- Nothing is rounded past infinity. -/
theorem magnitudeBits_nearest_le_infinity (negative : Bool) (num den : Nat) :
    magnitudeBits (nearest negative num den) ≤ infinityBits := by
  unfold nearest
  rw [magnitudeBits_ofBits]
  all_goals
    split
    · exact Nat.zero_le _
    · exact Nat.min_le_right _ _

end Scaled

theorem Bits.eq_infinity {x : Float} (hs : signBit x = false)
    (hm : magnitudeBits x = Scaled.infinityBits) : x = infinity := by
  have hinfinity : infinity = Float.ofBits (UInt64.ofNat Scaled.infinityBits) := rfl
  rw [hinfinity, ← hm, ← Bits.toNat_toBits_of_positive hs, UInt64.ofNat_toNat, Bits.ofBits_toBits]

/-- What is rounded past the largest double is infinity. -/
theorem Scaled.nearest_eq_infinity {num den : Nat}
    (h : (nearest false num den).isFinite = false) : nearest false num den = infinity := by
  refine Bits.eq_infinity (signBit_nearest num den) ?_
  have hle := magnitudeBits_nearest_le_infinity false num den
  have hnot : ¬magnitudeBits (nearest false num den) < infinityBits := by
    rw [← Bits.isFinite_iff, h]
    exact Bool.false_ne_true
  omega

/-- A decimal without a sign is read as a finite double or as infinity. -/
theorem Decimal.toFloat_eq_infinity {d : Decimal} (h : (d.toFloat false).isFinite = false) :
    d.toFloat false = infinity := by
  unfold Decimal.toFloat at h ⊢
  dsimp only at h ⊢
  split
  next hsmall =>
    rw [if_pos hsmall] at h
    exact Scaled.nearest_eq_infinity h
  next hsmall =>
    rw [if_neg hsmall] at h
    split
    next => exact if_neg Bool.false_ne_true
    next hlarge =>
      rw [if_neg hlarge] at h
      exact Scaled.nearest_eq_infinity h

end Isotherm
