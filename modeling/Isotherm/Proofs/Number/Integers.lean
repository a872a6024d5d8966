import Isotherm.Number.Integral
import Isotherm.Number.Scalar
import Isotherm.Proofs.Number.Nearest

/-!
# Integers as doubles

Every integer below `2 ^ 53` is a double. Rounding it changes nothing, and its value is read back.
-/

namespace Isotherm

namespace Scaled

/-- A canonical form is read back from the bits that it is written to. -/
theorem ofFloat_ofBits {s : Scaled} (hs : s.Canonical) :
    ofFloat (Float.ofBits (UInt64.ofNat ((s.exponent + 1074).toNat * 2 ^ 52 + s.mantissa +
      if s.negative then 2 ^ 63 else 0))) = s := by
  obtain ⟨negative, mantissa, exponent⟩ := s
  obtain ⟨hpos, hlt, hleast, hmost, hfull⟩ := hs
  generalize hn : (exponent + 1074).toNat * 2 ^ 52 + mantissa +
    (if negative then 2 ^ 63 else 0) = n
  have hword : (UInt64.ofNat n).toNat = n := by
    rw [UInt64.toNat_ofNat', Nat.mod_eq_of_lt]
    simp only at *
    split at hn <;> omega
  have hbits : (Float.ofBits (UInt64.ofNat n)).toBits.toNat = n := by
    rw [Bits.toBits_ofBits, hword]
    rw [hword]
    show n % 2 ^ 63 ≤ 2047 * 2 ^ 52
    simp only at *
    split at hn <;> omega
  unfold ofFloat
  simp only [hbits, twoTo_eq, mk.injEq] at *
  cases negative with
  | true =>
    simp only [if_true] at hn
    refine ⟨?_, ?_, ?_⟩
    · simp only [decide_eq_true_eq]
      omega
    · split <;> omega
    · omega
  | false =>
    simp only [Bool.false_eq_true, if_false, Nat.add_zero] at hn
    refine ⟨?_, ?_, ?_⟩
    · simp only [decide_eq_false_iff_not]
      omega
    · split <;> omega
    · omega

/-- A quotient that is a double is read back. -/
theorem ofFloat_nearest {s : Scaled} (hs : s.Canonical) {num den : Nat} (hnum : 0 < num)
    (hplace : lastPlace num den = s.exponent)
    (hround : roundDiv (num <<< (-s.exponent).toNat) (den <<< s.exponent.toNat) = s.mantissa) :
    ofFloat (nearest s.negative num den) = s := by
  have hmin : min ((s.exponent + 1074).toNat * 2 ^ 52 + s.mantissa) infinityBits =
      (s.exponent + 1074).toNat * 2 ^ 52 + s.mantissa := by
    obtain ⟨-, hlt, hleast, hmost, -⟩ := hs
    show min _ (2047 * 2 ^ 52) = _
    omega
  unfold nearest leastExponent
  simp only [if_neg (Nat.ne_of_gt hnum), hplace, hround, twoTo_eq, sub_neg_eq_add, hmin]
  exact ofFloat_ofBits hs

/-- The scaled form of a positive integer below `2 ^ 53`. -/
def ofMagnitude (negative : Bool) (k : Nat) : Scaled :=
  ⟨negative, k * 2 ^ (52 - k.log2), (k.log2 : Int) - 52⟩

theorem log2_le_of_lt {m n : Nat} (h : m < 2 ^ (n + 1)) : m.log2 ≤ n := by
  by_cases hz : m = 0
  · simp [hz]
  · exact Nat.le_of_lt_succ ((Nat.log2_lt hz).mpr h)

theorem canonical_ofMagnitude (negative : Bool) {k : Nat} (hk : 0 < k) (h : k < 2 ^ 53) :
    (ofMagnitude negative k).Canonical := by
  have hlog := log2_le_of_lt h
  have hlow : 2 ^ k.log2 ≤ k := Nat.log2_self_le (Nat.ne_of_gt hk)
  have hhigh : k < 2 ^ (k.log2 + 1) := Nat.lt_log2_self
  have hfull : 2 ^ 52 ≤ k * 2 ^ (52 - k.log2) := calc
    2 ^ 52 = 2 ^ k.log2 * 2 ^ (52 - k.log2) := by rw [← pow_add]; congr 1; omega
    _ ≤ k * 2 ^ (52 - k.log2) := Nat.mul_le_mul_right _ hlow
  have hlt : k * 2 ^ (52 - k.log2) < 2 ^ 53 := calc
    k * 2 ^ (52 - k.log2) < 2 ^ (k.log2 + 1) * 2 ^ (52 - k.log2) :=
      Nat.mul_lt_mul_of_pos_right hhigh (Nat.two_pow_pos _)
    _ = 2 ^ 53 := by rw [← pow_add]; congr 1; omega
  constructor <;> simp only [ofMagnitude] <;> omega

theorem ofFloat_nearest_one (negative : Bool) {k : Nat} (hk : 0 < k) (h : k < 2 ^ 53) :
    ofFloat (nearest negative k 1) = ofMagnitude negative k := by
  have hlog := log2_le_of_lt h
  obtain ⟨hlow, hhigh⟩ := log2_bounds hk
  refine ofFloat_nearest (canonical_ofMagnitude negative hk h) hk ?_ ?_
  · refine lastPlace_eq hk Nat.one_pos (by simp only [ofMagnitude]; omega) (.inr ?_) ?_
    · simpa [ofMagnitude] using hlow
    · have hexponent : (k.log2 : Int) - 52 + 53 = k.log2 + 1 := by omega
      simpa only [ofMagnitude, Nat.cast_one, div_one, hexponent] using hhigh
  · have hplace : (-((k.log2 : Int) - 52)).toNat = 52 - k.log2 := by omega
    have hzero : ((k.log2 : Int) - 52).toNat = 0 := by omega
    simp only [ofMagnitude, hplace, hzero, Nat.shiftLeft_eq]
    simp [roundDiv, Nat.mod_one]

end Scaled

namespace Integral

open Scaled

/-- An integer below `2 ^ 53` is a double. -/
theorem value_nearest (negative : Bool) {k : Nat} (h : k < 2 ^ 53) :
    value (nearest negative k 1) = if negative then -(k : Int) else k := by
  by_cases hk : k = 0
  · subst hk
    cases negative <;> decide +kernel
  · have hlog := log2_le_of_lt h
    unfold value
    rw [ofFloat_nearest_one negative (Nat.pos_of_ne_zero hk) h]
    have hplace : (-((k.log2 : Int) - 52)).toNat = 52 - k.log2 := by omega
    have hzero : ((k.log2 : Int) - 52).toNat = 0 := by omega
    have hfloor : (ofMagnitude negative k).floorMagnitude = k := by
      simp only [floorMagnitude, ofMagnitude, hplace, hzero, Nat.shiftLeft_zero]
      rw [Nat.shiftRight_eq_div_pow, Nat.mul_div_cancel _ (Nat.two_pow_pos _)]
    rw [toInt, hfloor]
    rfl

theorem isFinite_nearest_one (negative : Bool) {k : Nat} (h : k < 2 ^ 53) :
    (nearest negative k 1).isFinite = true := by
  by_cases hk : k = 0
  · subst hk
    cases negative <;> decide +kernel
  · have hpos := Nat.pos_of_ne_zero hk
    obtain ⟨-, hlt, hleast, hmost, -⟩ := canonical_ofMagnitude negative hpos h
    rw [Bits.isFinite_iff, magnitudeBits_eq, ofFloat_nearest_one negative hpos h]
    show _ < 2047 * 2 ^ 52
    omega

theorem value_ofInt {n : Int} (h : n.natAbs < 2 ^ 53) : value (ofInt n) = n := by
  unfold ofInt
  rw [value_nearest _ h]
  by_cases hn : n < 0
  · rw [if_pos (by simpa using hn)]
    omega
  · rw [if_neg (by simpa using hn)]
    omega

end Integral

theorem Scalar.toFloat?_integer {n : Int} (h : n.natAbs < 2 ^ 53) :
    (Scalar.integer n).toFloat? = some (Integral.ofInt n) := by
  have hfinite := Integral.isFinite_nearest_one (n < 0) h
  have hinf := Bits.not_isInf_of_isFinite hfinite
  simp only [toFloat?, hinf, Bool.false_eq_true, if_false, Integral.ofInt]

end Isotherm
