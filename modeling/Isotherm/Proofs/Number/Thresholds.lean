import Isotherm.Proofs.Number.Bounds

/-!
# Where rounding reaches a power of two

A quotient is rounded to a power of two, or past it, from half of a last place below that power on.
So a double holds the integers up to half a last place above the largest double and no others.
-/

namespace Isotherm

namespace Scaled

/-- Half way below an even number a quotient goes up to it. -/
theorem roundDiv_lt_iff {num den m : Nat} (hden : 0 < den) (heven : m % 2 = 0) :
    roundDiv num den < m ↔ 2 * num + den < 2 * (m * den) := by
  have hnum := Nat.div_add_mod' num den
  have hrest := Nat.mod_lt num hden
  unfold roundDiv
  generalize num / den = quotient at *
  generalize num % den = rest at *
  have hscaled (k : Nat) (h : k ≤ quotient) : k * den ≤ quotient * den := Nat.mul_le_mul_right den h
  dsimp only
  by_cases hbelow : quotient + 1 < m
  · have hm : (quotient + 2) * den ≤ m * den := Nat.mul_le_mul_right den hbelow
    have hexpand : (quotient + 2) * den = quotient * den + 2 * den := Nat.add_mul quotient 2 den
    split
    · omega
    · split <;> omega
  · by_cases hnext : quotient + 1 = m
    · subst hnext
      have hexpand : (quotient + 1) * den = quotient * den + den := Nat.succ_mul quotient den
      split
      · omega
      · split <;> omega
    · have hm := hscaled m (by omega)
      split
      · omega
      · split <;> omega

theorem le_roundDiv {num den m : Nat} (hden : 0 < den) (h : m * den ≤ num) :
    m ≤ roundDiv num den := by
  have hquotient : m ≤ num / den := (Nat.le_div_iff_mul_le hden).mpr h
  unfold roundDiv
  dsimp only
  split
  · omega
  · split <;> omega

section Shifted

variable {num den : Nat} (hden : 0 < den) (place : Int)

include hden

theorem roundDiv_shifted_lt_iff :
    roundDiv (num <<< (-place).toNat) (den <<< place.toNat) < 2 ^ 53 ↔
      (num : ℚ) / den < (2 ^ 53 - 1 / 2) * 2 ^ place := by
  have hpos := Shortest.shifted_den_pos hden place
  have hq : (0 : ℚ) < (den <<< place.toNat : Nat) := by exact_mod_cast hpos
  have hplace : (0 : ℚ) < 2 ^ place := by positivity
  rw [roundDiv_lt_iff hpos (by norm_num), ← div_lt_iff₀ hplace, ← shifted_quotient,
    div_lt_iff₀ hq, ← Nat.cast_lt (α := ℚ)]
  push_cast
  constructor
  · intro h
    linarith
  · intro h
    linarith

theorem le_roundDiv_shifted (h : (2 : ℚ) ^ (place + 52) ≤ num / den) :
    2 ^ 52 ≤ roundDiv (num <<< (-place).toNat) (den <<< place.toNat) := by
  have hpos := Shortest.shifted_den_pos hden place
  have hq : (0 : ℚ) < (den <<< place.toNat : Nat) := by exact_mod_cast hpos
  have hplace : (0 : ℚ) < 2 ^ place := by positivity
  apply le_roundDiv hpos
  rw [add_comm, zpow_add₀ two_ne_zero, ← le_div_iff₀ hplace, ← shifted_quotient,
    le_div_iff₀ hq] at h
  exact_mod_cast h

end Shifted

theorem magnitudeBits_nearest (negative : Bool) (num den : Nat) :
    magnitudeBits (nearest negative num den) =
      if num = 0 then 0
      else min ((lastPlace num den + 1074).toNat * 2 ^ 52 +
        roundDiv (num <<< (-lastPlace num den).toNat) (den <<< (lastPlace num den).toNat))
        infinityBits := by
  unfold nearest
  rw [magnitudeBits_ofBits]
  · simp only [twoTo_eq, leastExponent, sub_neg_eq_add]
  · split
    · exact Nat.zero_le _
    · exact Nat.min_le_right _ _

/-- A quotient is rounded below `2 ^ (place + 53)` exactly where it lies more than half a last place
below it. -/
theorem magnitudeBits_nearest_lt_iff {place : Int} (hleast : -1074 ≤ place) (hmost : place ≤ 971)
    (negative : Bool) (num : Nat) {den : Nat} (hden : 0 < den) :
    magnitudeBits (nearest negative num den) < (place + 1076).toNat * 2 ^ 52 ↔
      (num : ℚ) / den < (2 ^ 53 - 1 / 2) * 2 ^ place := by
  rw [magnitudeBits_nearest]
  split
  next hzero =>
    refine iff_of_true (by omega) ?_
    rw [hzero, Nat.cast_zero, zero_div]
    exact mul_pos (by norm_num) (by positivity)
  next hne =>
  have hnum := Nat.pos_of_ne_zero hne
  obtain ⟨own, hlast, hlow, hhigh⟩ := lastPlace_spec hnum hden
  have hinfinity : (place + 1076).toNat * 2 ^ 52 ≤ infinityBits := by
    show _ ≤ 2047 * 2 ^ 52
    omega
  have hfull : (2 ^ 53 - 1 / 2) * (2 : ℚ) ^ place < 2 ^ (place + 53) := by
    rw [zpow_add₀ two_ne_zero, mul_comm]
    exact mul_lt_mul_of_pos_left (by norm_num) (by positivity)
  have hhalf : (2 : ℚ) ^ (place + 52) ≤ (2 ^ 53 - 1 / 2) * 2 ^ place := by
    rw [zpow_add₀ two_ne_zero, mul_comm]
    exact mul_le_mul_of_nonneg_right (by norm_num) (by positivity)
  rcases lt_trichotomy (lastPlace num den) place with hlt | heq | hgt
  · -- the quotient has a finer last place, and at most its carry reaches the next power
    have hround := roundDiv_lastPlace_le hnum hden
    have hown : own + 53 ≤ place + 52 := by omega
    refine iff_of_true (by omega) ?_
    calc (num : ℚ) / den < 2 ^ (own + 53) := hhigh
      _ ≤ 2 ^ (place + 52) := zpow_le_zpow_right₀ one_le_two hown
      _ ≤ (2 ^ 53 - 1 / 2) * 2 ^ place := hhalf
  · rw [← roundDiv_shifted_lt_iff hden place, heq]
    omega
  · have hown : own = lastPlace num den := by omega
    have hround := le_roundDiv_shifted hden (lastPlace num den) (by rwa [hown] at hlow)
    refine iff_of_false (by omega) (not_lt.mpr ?_)
    calc (2 ^ 53 - 1 / 2) * (2 : ℚ) ^ place ≤ 2 ^ (place + 53) := hfull.le
      _ ≤ 2 ^ (own + 52) := zpow_le_zpow_right₀ one_le_two (by omega)
      _ ≤ num / den := hlow

end Scaled

namespace Bits

open Float.Model Float.Model.UnpackedFloat

theorem isInf_iff (x : Float) : x.isInf = true ↔ magnitudeBits x = Scaled.infinityBits := by
  show (unpack Format.binary64 (word x)).isInf = true ↔
    (word x).toNat % 2 ^ 63 = Scaled.infinityBits
  have hbits : (word x).toNat % 2 ^ 63 = Scaled.infinityBits ↔
      unpackExponent (word x) = -1#11 ∧ unpackMantissa (word x) = 0#52 := by
    have hlt : (word x).toNat < 2 ^ 64 := (word x).isLt
    rw [exponent_eq_ones_iff, mantissa_eq_zero_iff]
    show _ = 2047 * 2 ^ 52 ↔ 2047 * 2 ^ 52 ≤ _ ∧ _
    omega
  rw [hbits]
  unfold UnpackedFloat.unpack
  dsimp only
  split
  next he =>
    split
    next hm => exact iff_of_true rfl ⟨he, hm⟩
    next hm => exact iff_of_false (by simp [UnpackedFloat.isInf]) fun h => hm h.2
  next he =>
    split
    next => split <;> exact iff_of_false (by simp [UnpackedFloat.isInf]) fun h => he h.1
    next => exact iff_of_false (by simp [UnpackedFloat.isInf]) fun h => he h.1

end Bits

/-- The least magnitude of an integer that is rounded past the largest double: half a last place
above that, or `2 ^ 1024 - 2 ^ 970`. -/
def leastUnreached : Nat := (2 ^ 54 - 1) * 2 ^ 970

theorem leastUnreached_eq : (leastUnreached : ℚ) = (2 ^ 53 - 1 / 2) * 2 ^ (971 : Int) := by
  have hscaled (n : Nat) : ((2 ^ 53 - 1 / 2) * 2 ^ (n + 1) : ℚ) = (2 ^ 54 - 1 : Nat) * 2 ^ n := by
    rw [pow_succ]
    norm_num
    ring
  have hpower : (2 : ℚ) ^ (971 : Int) = 2 ^ (970 + 1) := zpow_natCast 2 971
  rw [hpower, hscaled, leastUnreached, Nat.cast_mul, Nat.cast_pow, Nat.cast_ofNat]

/-- A quotient is rounded to a finite double exactly below that bound. -/
theorem isFinite_nearest_iff (negative : Bool) (num : Nat) {den : Nat} (hden : 0 < den) :
    (Scaled.nearest negative num den).isFinite = true ↔ (num : ℚ) / den < leastUnreached := by
  have hlt := @Scaled.magnitudeBits_nearest_lt_iff 971 (by decide) (by decide) negative num den hden
  rw [Bits.isFinite_iff, leastUnreached_eq]
  exact hlt

theorem isInf_nearest_iff (negative : Bool) (k : Nat) :
    (Scaled.nearest negative k 1).isInf = true ↔ leastUnreached ≤ k := by
  have hfinite := isFinite_nearest_iff negative k Nat.one_pos
  have hle := Scaled.magnitudeBits_nearest_le_infinity negative k 1
  rw [Bits.isFinite_iff, Nat.cast_one, div_one, Nat.cast_lt] at hfinite
  rw [Bits.isInf_iff]
  omega

end Isotherm
