import Isotherm.Proofs.Number.FewestDigits
import Isotherm.Proofs.Number.Signed

/-!
# What it is to be rounded once

The double nearest to a quotient was computed from a last place and a mantissa. Here it is told by
its distance alone: no finite double is nearer, in a tie the mantissa is even, and from half a last
place past the largest double on the result is infinite. There is exactly one such double, and it is
the one that is computed. Past the range of doubles, on either side, quotients are rounded alike.
-/

namespace Isotherm

namespace Scaled

/-- The magnitude as a rational number. -/
def magnitude (s : Scaled) : ℚ :=
  s.mantissa * 2 ^ s.exponent

theorem magnitude_nonneg (s : Scaled) : 0 ≤ s.magnitude := by
  unfold magnitude
  positivity

theorem magnitude_eq_zero_iff {s : Scaled} : s.magnitude = 0 ↔ s.mantissa = 0 := by
  have hunit : (2 : ℚ) ^ s.exponent ≠ 0 := by positivity
  rw [magnitude, mul_eq_zero, or_iff_left hunit, Nat.cast_eq_zero]

/-! ## The order of magnitudes -/

theorem magnitude_eq_of_magnitudeBits_eq {x y : Float} (h : magnitudeBits x = magnitudeBits y) :
    (ofFloat x).magnitude = (ofFloat y).magnitude := by
  obtain ⟨hmantissa, hexponent⟩ := parts_eq_of_magnitudeBits_eq h
  rw [magnitude, hmantissa, hexponent, magnitude]

/-- The magnitude of a finite double is rounded to that magnitude. -/
theorem magnitudeBits_nearest_magnitude {x : Float} (hx : x.isFinite = true) (negative : Bool)
    {num den : Nat} (hden : 0 < den) (hq : (num : ℚ) / den = (ofFloat x).magnitude) :
    magnitudeBits (nearest negative num den) = magnitudeBits x := by
  by_cases hm : (ofFloat x).mantissa = 0
  · have hnum : num = 0 := by
      have hd : (den : ℚ) ≠ 0 := by exact_mod_cast hden.ne'
      rw [magnitude_eq_zero_iff.mpr hm, div_eq_zero_iff, or_iff_left hd] at hq
      exact_mod_cast hq
    rw [magnitudeBits_nearest, if_pos hnum, Bits.magnitudeBits_eq_zero hm]
  · have hs := canonical_ofFloat hx hm
    rw [← Bits.bits_ofFloat x]
    exact Nat.le_antisymm (magnitudeBits_nearest_le hs negative hden hq.le)
      (bits_le_magnitudeBits_nearest hs negative hden hq.ge)

theorem magnitudeBits_eq_of_magnitude_eq {x y : Float} (hx : x.isFinite = true)
    (hy : y.isFinite = true) (h : (ofFloat x).magnitude = (ofFloat y).magnitude) :
    magnitudeBits x = magnitudeBits y := by
  have hden := Integral.one_shiftLeft_pos (-(ofFloat x).exponent).toNat
  have hquotient := quotient_toFloat (ofFloat x)
  rw [← magnitudeBits_nearest_magnitude hx false hden hquotient,
    magnitudeBits_nearest_magnitude hy false hden (hquotient.trans h)]

/-- Finite magnitudes are in the order of their bits, without two of the same. -/
theorem magnitude_le_iff {x y : Float} (hx : x.isFinite = true) (hy : y.isFinite = true) :
    (ofFloat x).magnitude ≤ (ofFloat y).magnitude ↔ magnitudeBits x ≤ magnitudeBits y := by
  constructor
  · intro h
    by_contra hlt
    have hge := magnitude_mono hx (Nat.le_of_not_le hlt)
    exact hlt (magnitudeBits_eq_of_magnitude_eq hx hy (le_antisymm h hge)).le
  · exact magnitude_mono hy

theorem magnitude_lt_iff {x y : Float} (hx : x.isFinite = true) (hy : y.isFinite = true) :
    (ofFloat x).magnitude < (ofFloat y).magnitude ↔ magnitudeBits x < magnitudeBits y := by
  rw [← not_le, ← not_le, magnitude_le_iff hy hx]

/-! ## Rounding to the nearest natural number -/

/-- No natural number is nearer to a quotient than the rounded one, and in a tie that is even. -/
theorem roundDiv_nearest (num : Nat) {den : Nat} (hden : 0 < den) {k : Nat}
    (hk : k ≠ roundDiv num den) :
    |(num : ℚ) / den - roundDiv num den| ≤ |(num : ℚ) / den - k| ∧
      (|(num : ℚ) / den - roundDiv num den| = |(num : ℚ) / den - k| →
        roundDiv num den % 2 = 0) := by
  obtain ⟨hlow, hhigh, hodd⟩ := roundDiv_bounds num hden
  generalize roundDiv num den = rounded at *
  generalize (num : ℚ) / den = q at *
  have hnear : |q - rounded| ≤ 1 / 2 := by
    rw [abs_le]
    constructor <;> linarith
  have hfar : 1 / 2 ≤ |q - k| := by
    obtain hlt | hgt := Nat.lt_or_gt_of_ne hk
    · have hstep : (k : ℚ) + 1 ≤ rounded := by exact_mod_cast hlt
      exact le_trans (by linarith) (le_abs_self _)
    · have hstep : (rounded : ℚ) + 1 ≤ k := by exact_mod_cast hgt
      exact le_trans (by linarith) (neg_le_abs _)
  refine ⟨hnear.trans hfar, fun htie => ?_⟩
  -- an odd number is only rounded to from strictly nearer than a half
  obtain heven | hone := Nat.mod_two_eq_zero_or_one rounded
  · exact heven
  · obtain ⟨hl, hh⟩ := hodd hone
    have hstrict : |q - rounded| < 1 / 2 := by
      rw [abs_lt]
      constructor <;> linarith
    linarith

end Scaled

open Scaled

/-! ## The nearest double -/

/-- `y` is `±q` rounded once. It has the sign, also as a zero. -/
structure RoundsTo (negative : Bool) (q : ℚ) (y : Float) : Prop where
  sign : signBit y = negative
  infinite : leastUnreached ≤ q → y.isInf = true
  finite : q < leastUnreached → y.isFinite = true
  closest : q < leastUnreached → ∀ z : Float, z.isFinite = true →
    |q - (ofFloat y).magnitude| ≤ |q - (ofFloat z).magnitude|
  even : q < leastUnreached → ∀ z : Float, z.isFinite = true →
    |q - (ofFloat y).magnitude| = |q - (ofFloat z).magnitude| →
    (ofFloat z).magnitude ≠ (ofFloat y).magnitude → (ofFloat y).mantissa % 2 = 0

namespace Scaled

/-- The magnitude that a mantissa makes at its place, also one that rounding has carried to the next
power of two. -/
theorem magnitude_of_bits {y : Float} (hy : y.isFinite = true) {place : Int} {m : Nat}
    (hbits : magnitudeBits y = (place + 1074).toNat * 2 ^ 52 + m) (hplace : -1074 ≤ place)
    (hfull : place = -1074 ∨ 2 ^ 52 ≤ m) (hm : m ≤ 2 ^ 53) :
    (ofFloat y).magnitude = m * 2 ^ place ∧ (m % 2 = 0 → (ofFloat y).mantissa % 2 = 0) := by
  have hparts := magnitudeBits_eq y
  by_cases hzero : (ofFloat y).mantissa = 0
  · have hbitszero := Bits.magnitudeBits_eq_zero hzero
    obtain rfl : m = 0 := by omega
    rw [magnitude_eq_zero_iff.mpr hzero, hzero]
    simp
  · obtain ⟨-, hlt, hleast, -, hown⟩ := canonical_ofFloat hy hzero
    unfold magnitude
    generalize ofFloat y = s at *
    by_cases hcarry : m = 2 ^ 53
    · obtain ⟨hexponent, hmantissa⟩ : s.exponent = place + 1 ∧ s.mantissa = 2 ^ 52 := by omega
      rw [hexponent, hmantissa, hcarry, zpow_add_one₀ two_ne_zero]
      refine ⟨?_, fun _ => by norm_num⟩
      push_cast
      ring
    · obtain ⟨hexponent, hmantissa⟩ : s.exponent = place ∧ s.mantissa = m := by omega
      rw [hexponent, hmantissa]
      exact ⟨rfl, id⟩

theorem least_le_exponent (x : Float) : -1074 ≤ (ofFloat x).exponent := by
  unfold ofFloat
  dsimp only
  omega

/-- A finite double is zero, or at least `2 ^ (-1074)`. -/
theorem least_le_magnitude {x : Float} (hm : (ofFloat x).mantissa ≠ 0) :
    (2 : ℚ) ^ (-1074 : Int) ≤ (ofFloat x).magnitude := by
  have hone : (1 : ℚ) ≤ (ofFloat x).mantissa := by exact_mod_cast Nat.pos_of_ne_zero hm
  calc (2 : ℚ) ^ (-1074 : Int) ≤ 2 ^ (ofFloat x).exponent :=
        zpow_le_zpow_right₀ one_le_two (least_le_exponent x)
    _ ≤ (ofFloat x).magnitude := le_mul_of_one_le_left (by positivity) hone

theorem magnitude_lt {x : Float} (hx : x.isFinite = true) :
    (ofFloat x).magnitude < 2 ^ (1024 : Int) := by
  by_cases hm : (ofFloat x).mantissa = 0
  · rw [magnitude_eq_zero_iff.mpr hm]
    positivity
  · have hs := canonical_ofFloat hx hm
    have hmantissa : ((ofFloat x).mantissa : ℚ) < 2 ^ (53 : Int) := by exact_mod_cast hs.lt
    calc (ofFloat x).magnitude < 2 ^ (53 : Int) * 2 ^ (ofFloat x).exponent :=
          mul_lt_mul_of_pos_right hmantissa (by positivity)
      _ = 2 ^ (53 + (ofFloat x).exponent) := (zpow_add₀ two_ne_zero ..).symm
      _ ≤ 2 ^ (1024 : Int) := zpow_le_zpow_right₀ one_le_two (by have := hs.most; omega)

/-- A positive quotient that is rounded to a finite double, in units of its last place. -/
theorem magnitude_nearest {negative : Bool} {num den : Nat} (hnum : 0 < num) (hden : 0 < den)
    (hfinite : (nearest negative num den).isFinite = true) :
    let place := lastPlace num den
    let m := roundDiv (num <<< (-place).toNat) (den <<< place.toNat)
    (ofFloat (nearest negative num den)).magnitude = m * 2 ^ place ∧
      (m % 2 = 0 → (ofFloat (nearest negative num den)).mantissa % 2 = 0) := by
  have hbits := magnitudeBits_nearest negative num den
  have hlt := (Bits.isFinite_iff _).mp hfinite
  obtain ⟨hplace, hnormal, -⟩ := Shortest.lastPlace_full hnum hden
  rw [if_neg hnum.ne'] at hbits
  refine magnitude_of_bits hfinite (by omega) hplace ?_ (roundDiv_lastPlace_le hnum hden)
  refine hnormal.imp_right fun hbinade => le_roundDiv_shifted hden _ ?_
  rwa [add_comm, zpow_add₀ two_ne_zero, zpow_ofNat, ← le_div_iff₀ (by positivity)]

/-- In units of a place, a finite double is a natural number, or it lies below all mantissas of that
place. -/
theorem magnitude_grid {z : Float} (hz : z.isFinite = true) {place : Int} (hplace : -1074 ≤ place) :
    (∃ k : Nat, (ofFloat z).magnitude = k * 2 ^ place) ∨
      (-1074 < place ∧ (ofFloat z).magnitude < 2 ^ 52 * 2 ^ place) := by
  by_cases hcoarse : place ≤ (ofFloat z).exponent
  · left
    refine ⟨(ofFloat z).mantissa * 2 ^ ((ofFloat z).exponent - place).toNat, ?_⟩
    have hsplit : (ofFloat z).exponent = ((ofFloat z).exponent - place).toNat + place := by omega
    conv_lhs => rw [magnitude, hsplit, zpow_add₀ two_ne_zero, zpow_natCast, ← mul_assoc]
    push_cast
    rfl
  · have hleast := least_le_exponent z
    have hmantissa : ((ofFloat z).mantissa : ℚ) < 2 ^ 53 := by exact_mod_cast mantissa_lt hz
    right
    refine ⟨by omega, ?_⟩
    calc (ofFloat z).magnitude < 2 ^ 53 * 2 ^ (ofFloat z).exponent :=
          mul_lt_mul_of_pos_right hmantissa (by positivity)
      _ ≤ 2 ^ 53 * 2 ^ (place - 1) :=
          mul_le_mul_of_nonneg_left (zpow_le_zpow_right₀ one_le_two (by omega)) (by positivity)
      _ = 2 ^ 52 * 2 ^ place := by
          rw [zpow_sub_one₀ two_ne_zero]
          ring

/-- Distances in units of a place. -/
theorem abs_sub_mul_zpow (q t : ℚ) (place : Int) :
    |q - t * 2 ^ place| = |q / 2 ^ place - t| * 2 ^ place := by
  have hunit : (0 : ℚ) < 2 ^ place := by positivity
  rw [← abs_of_pos hunit, ← abs_mul, abs_of_pos hunit, sub_mul, div_mul_cancel₀ _ hunit.ne']

/-- No other finite double is nearer to a positive quotient than the one that it is rounded to, and
in a tie that one is even. -/
theorem nearest_le_distance {negative : Bool} {num den : Nat} (hnum : 0 < num) (hden : 0 < den)
    (hfinite : (nearest negative num den).isFinite = true) {z : Float} (hz : z.isFinite = true)
    (hne : (ofFloat z).magnitude ≠ (ofFloat (nearest negative num den)).magnitude) :
    |(num : ℚ) / den - (ofFloat (nearest negative num den)).magnitude| ≤
        |(num : ℚ) / den - (ofFloat z).magnitude| ∧
      (|(num : ℚ) / den - (ofFloat (nearest negative num den)).magnitude| =
          |(num : ℚ) / den - (ofFloat z).magnitude| →
        (ofFloat (nearest negative num den)).mantissa % 2 = 0) := by
  obtain ⟨hmagnitude, heven⟩ := magnitude_nearest hnum hden hfinite
  obtain ⟨hplace, hnormal, -⟩ := Shortest.lastPlace_full hnum hden
  have hround (k : Nat) := roundDiv_nearest (num <<< (-lastPlace num den).toNat)
    (Shortest.shifted_den_pos hden (lastPlace num den)) (k := k)
  rw [shifted_quotient] at hround
  rw [hmagnitude] at hne ⊢
  generalize (ofFloat (nearest negative num den)).mantissa = mantissa at *
  generalize roundDiv _ _ = m at *
  generalize lastPlace num den = place at *
  generalize (num : ℚ) / den = q at *
  have hunit : (0 : ℚ) < 2 ^ place := by positivity
  obtain ⟨k, hk⟩ | ⟨hfine, hbelow⟩ := magnitude_grid hz hplace
  · rw [hk] at hne ⊢
    obtain ⟨hle, htie⟩ := hround k fun h => hne (by rw [h])
    rw [abs_sub_mul_zpow, abs_sub_mul_zpow, mul_left_inj' hunit.ne']
    exact ⟨mul_le_mul_of_nonneg_right hle hunit.le, fun h => heven (htie h)⟩
  · -- the least full mantissa lies between the double and the quotient, and is nearer
    have hbinade := hnormal.resolve_left (by omega)
    have hle : |q / 2 ^ place - m| ≤ q / 2 ^ place - 2 ^ 52 := by
      rw [← abs_of_nonneg (sub_nonneg.mpr hbinade)]
      by_cases hm : 2 ^ 52 = m
      · rw [← hm]
        push_cast
        exact le_rfl
      · have hnearer := (hround _ hm).1
        push_cast at hnearer
        exact hnearer
    have hlt : |q - m * 2 ^ place| < |q - (ofFloat z).magnitude| := calc
      |q - m * 2 ^ place| = |q / 2 ^ place - m| * 2 ^ place := abs_sub_mul_zpow ..
      _ ≤ (q / 2 ^ place - 2 ^ 52) * 2 ^ place := mul_le_mul_of_nonneg_right hle hunit.le
      _ = q - 2 ^ 52 * 2 ^ place := by rw [sub_mul, div_mul_cancel₀ _ hunit.ne']
      _ < q - (ofFloat z).magnitude := sub_lt_sub_left hbelow q
      _ ≤ |q - (ofFloat z).magnitude| := le_abs_self _
    exact ⟨hlt.le, fun h => absurd h hlt.ne⟩

end Scaled

namespace RoundsTo

/-- The computed double is the quotient rounded once. -/
theorem of_nearest (negative : Bool) (num : Nat) {den : Nat} (hden : 0 < den) :
    RoundsTo negative (num / den) (nearest negative num den) := by
  have hfinite := isFinite_nearest_iff negative num hden
  have hinfinite (h : (leastUnreached : ℚ) ≤ num / den) :
      (nearest negative num den).isInf = true := by
    have hle := magnitudeBits_nearest_le_infinity negative num den
    rw [← not_lt, ← hfinite, Bits.isFinite_iff] at h
    rw [Bits.isInf_iff]
    omega
  obtain rfl | hnum := Nat.eq_zero_or_pos num
  · have hzero : (ofFloat (nearest negative 0 den)).mantissa = 0 := by
      apply mantissa_of_magnitudeBits_eq_zero
      rw [magnitudeBits_nearest, if_pos rfl]
    refine ⟨signBit_nearest_eq .., hinfinite, hfinite.mpr, ?_, fun _ _ _ _ _ => by rw [hzero]⟩
    intro _ z _
    rw [magnitude_eq_zero_iff.mpr hzero]
    simp
  · refine ⟨signBit_nearest_eq .., hinfinite, hfinite.mpr, ?_, ?_⟩
    · intro hlt z hz
      by_cases hne : (ofFloat z).magnitude = (ofFloat (nearest negative num den)).magnitude
      · rw [hne]
      · exact (nearest_le_distance hnum hden (hfinite.mpr hlt) hz hne).1
    · intro hlt z hz htie hne
      exact (nearest_le_distance hnum hden (hfinite.mpr hlt) hz hne).2 htie

section

variable {negative : Bool} {q : ℚ} {y y' : Float}

/-- Between two doubles with even mantissas there is another, nearer to the middle of the two. -/
theorem magnitude_le (h : RoundsTo negative q y) (h' : RoundsTo negative q y')
    (hlt : q < leastUnreached) : (ofFloat y').magnitude ≤ (ofFloat y).magnitude := by
  by_contra hgt
  rw [not_le] at hgt
  have hy := h.finite hlt
  have hy' := h'.finite hlt
  have htie := le_antisymm (h.closest hlt y' hy') (h'.closest hlt y hy)
  have heven := h.even hlt y' hy' htie hgt.ne'
  have heven' := h'.even hlt y hy htie.symm hgt.ne
  have hbits := (magnitude_lt_iff hy hy').mp hgt
  have hfinite := (Bits.isFinite_iff y').mp hy'
  have hparts := magnitudeBits_eq y
  have hparts' := magnitudeBits_eq y'
  obtain ⟨z, hz⟩ : ∃ z : Float, magnitudeBits z = magnitudeBits y + 1 :=
    ⟨_, magnitudeBits_ofBits (by omega) false⟩
  have hzfinite : z.isFinite = true := (Bits.isFinite_iff z).mpr (by omega)
  have hlow := (magnitude_lt_iff hy hzfinite).mpr (by omega)
  have hhigh := (magnitude_lt_iff hzfinite hy').mpr (by omega)
  have hmiddle : q - (ofFloat y).magnitude = (ofFloat y').magnitude - q := by
    obtain hsame | hopposite := abs_eq_abs.mp htie
    · linarith
    · linarith
  refine absurd (h.closest hlt z hzfinite) (not_le.mpr ?_)
  calc |q - (ofFloat z).magnitude| < q - (ofFloat y).magnitude := by
        rw [abs_lt]
        constructor <;> linarith
    _ ≤ |q - (ofFloat y).magnitude| := le_abs_self _

/-- Only one double is the quotient rounded once. -/
theorem unique (h : RoundsTo negative q y) (h' : RoundsTo negative q y') : y = y' := by
  refine Bits.eq_of_parts (h.sign.trans h'.sign.symm) ?_
  obtain hlarge | hlt := le_or_gt (leastUnreached : ℚ) q
  · rw [(Bits.isInf_iff y).mp (h.infinite hlarge), (Bits.isInf_iff y').mp (h'.infinite hlarge)]
  · exact magnitudeBits_eq_of_magnitude_eq (h.finite hlt) (h'.finite hlt)
      (le_antisymm (h'.magnitude_le h hlt) (h.magnitude_le h' hlt))

/-! ## Past the range of doubles -/

/-- Quotients past the largest double are rounded alike. -/
theorem of_large {q' : ℚ} (h : RoundsTo negative q y) (hq : leastUnreached ≤ q)
    (hq' : leastUnreached ≤ q') : RoundsTo negative q' y where
  sign := h.sign
  infinite _ := h.infinite hq
  finite hlt := absurd hq' hlt.not_ge
  closest hlt := absurd hq' hlt.not_ge
  even hlt := absurd hq' hlt.not_ge

/-- Quotients below half of the least positive double are rounded alike, to zero. -/
theorem of_small {q' : ℚ} (h : RoundsTo negative q y) (hpos : 0 ≤ q) (hq : q < 2 ^ (-1075 : Int))
    (hpos' : 0 ≤ q') (hq' : q' < 2 ^ (-1075 : Int)) : RoundsTo negative q' y := by
  have hhalf : (2 : ℚ) ^ (-1074 : Int) = 2 ^ (-1075 : Int) * 2 := zpow_add_one₀ two_ne_zero (-1075)
  have hreached : (2 : ℚ) ^ (-1075 : Int) < leastUnreached := by
    have hone : 0 < leastUnreached := by
      unfold leastUnreached
      positivity
    exact (zpow_lt_one_of_neg₀ one_lt_two (by norm_num)).trans_le (by exact_mod_cast hone)
  have hlt := hq.trans hreached
  have hy : (ofFloat y).mantissa = 0 := by
    by_contra hm
    have hleast := least_le_magnitude hm
    have hzero : (ofFloat 0.0).magnitude = 0 := magnitude_eq_zero_iff.mpr (by decide +kernel)
    have hnear := h.closest hlt 0.0 (by decide +kernel)
    rw [hzero, sub_zero, abs_of_nonneg hpos, abs_le] at hnear
    linarith
  refine ⟨h.sign, fun hge => absurd (hq'.trans hreached) hge.not_gt, fun _ => h.finite hlt, ?_,
    fun _ _ _ _ _ => by rw [hy]⟩
  intro _ z hz
  rw [magnitude_eq_zero_iff.mpr hy, sub_zero, abs_of_nonneg hpos']
  by_cases hm : (ofFloat z).mantissa = 0
  · rw [magnitude_eq_zero_iff.mpr hm, sub_zero]
    exact le_abs_self _
  · have hleast := least_le_magnitude hm
    exact le_trans (by linarith) (neg_le_abs _)

end

end RoundsTo
end Isotherm
