import Isotherm.Proofs.Number.Multiplication

/-!
# Counts against shares of a total

A hundredth and nine tenths are no doubles, but the doubles nearest to them are a little larger. For a
total below `2 ^ 48` that surplus is far smaller than the distance of a share from the counts that it
does not equal, and where a count equals the share, rounding either takes the surplus away or leaves
it on the side that makes no difference. So counts compare with the rounded shares as they compare
with the exact ones.
-/

namespace Isotherm

namespace Scaled

/-! ## Counts in small fractions -/

/-- The scaled form of `k / 2 ^ places`. -/
def dyadic (k places : Nat) : Scaled :=
  ⟨false, (ofMagnitude false k).mantissa, (ofMagnitude false k).exponent - places⟩

theorem canonical_dyadic {k places : Nat} (hk : 0 < k) (hlt : k < 2 ^ 53) (hplaces : places ≤ 1000) :
    (dyadic k places).Canonical := by
  have hs := canonical_ofMagnitude false hk hlt
  have hexponent : (ofMagnitude false k).exponent = (k.log2 : Int) - 52 := rfl
  have hlog := log2_le_of_lt hlt
  obtain ⟨hpos, hmantissa, -, -, hfull⟩ := hs
  constructor <;> simp only [dyadic] <;> omega

theorem magnitude_dyadic {k : Nat} (hlt : k < 2 ^ 53) (places : Nat) :
    ((dyadic k places).mantissa : ℚ) * 2 ^ (dyadic k places).exponent = k / (2 ^ places : Nat) := by
  have hmagnitude := ofMagnitude_magnitude false hlt
  unfold dyadic
  dsimp only
  rw [zpow_sub₀ two_ne_zero, zpow_natCast, ← mul_div_assoc, hmagnitude, Nat.cast_pow, Nat.cast_ofNat]

/-- Different counts of a small fraction are different doubles. -/
theorem magnitudeBits_dyadic_lt {m n places : Nat} (h : m < n) (hlt : n < 2 ^ 53)
    (hplaces : places ≤ 1000) :
    magnitudeBits (nearest false m (2 ^ places)) < magnitudeBits (nearest false n (2 ^ places)) := by
  have hden : 0 < 2 ^ places := Nat.two_pow_pos places
  have hnpos : 0 < n := by omega
  have hn := canonical_dyadic hnpos hlt hplaces
  have hnmagnitude := magnitude_dyadic hlt places
  by_cases hm : m = 0
  · subst hm
    have hbits := bits_le_magnitudeBits_nearest hn false hden hnmagnitude.le
    have hpos : 0 < (dyadic n places).bits := Nat.lt_of_lt_of_le hn.pos (Nat.le_add_left _ _)
    rw [magnitudeBits_nearest false 0, if_pos rfl]
    omega
  · have hmlt : m < 2 ^ 53 := by omega
    have hmagnitude := magnitude_dyadic hmlt places
    refine magnitudeBits_nearest_lt (canonical_dyadic (Nat.pos_of_ne_zero hm) hmlt hplaces) hn false
      false hden hden hmagnitude.ge ?_ hnmagnitude.le
    rw [hmagnitude, hnmagnitude]
    exact div_lt_div_of_pos_right (by exact_mod_cast h) (by exact_mod_cast hden)

end Scaled

theorem Shortest.Basin.holds_of_strict {b : Basin} {q : ℚ} (hlow : b.low * 2 ^ b.place < q)
    (hhigh : q < b.high * 2 ^ b.place) : b.Holds q := by
  unfold Holds
  split
  · exact ⟨hlow.le, hhigh.le⟩
  · exact ⟨hlow, hhigh⟩

namespace Scaled

/-- What exceeds a double by less than half of its last place is rounded to it. -/
theorem nearest_eq_of_lt_half {k : Nat} (hk : 0 < k) (hlt : k < 2 ^ 53) {num den : Nat}
    (hnum : 0 < num) (hden : 0 < den) (hlow : (k : ℚ) ≤ num / den)
    (hhigh : (num : ℚ) / den < k + k / 2 ^ 54) :
    nearest false num den = nearest false k 1 := by
  have hs := canonical_ofMagnitude false hk hlt
  have hscaled := ofFloat_nearest_one false hk hlt
  have hmagnitude := ofMagnitude_magnitude false hlt
  refine Shortest.nearest_eq_of_holds (Integral.isFinite_nearest_one false hlt)
    (signBit_nearest k 1) (by rw [hscaled]; exact hs.pos.ne') hnum hden ?_
  rw [hscaled]
  generalize ofMagnitude false k = s at *
  have hunit : (0 : ℚ) < 2 ^ s.exponent := by positivity
  have hreach : (0 : ℚ) < Shortest.reach s := by
    unfold Shortest.reach
    split <;> norm_num
  have hlarge : (k : ℚ) / 2 ^ 54 < 2 ^ s.exponent / 2 := by
    have hm : (s.mantissa : ℚ) < 2 ^ 53 := by exact_mod_cast hs.lt
    rw [← hmagnitude]
    nlinarith
  apply Shortest.Basin.holds_of_strict
  · rw [Shortest.low_ofScaled hs.pos, sub_mul, hmagnitude]
    have hbelow := mul_pos hreach hunit
    linarith
  · rw [Shortest.high_ofScaled, add_mul, hmagnitude]
    linarith

end Scaled

namespace Bits

open Float.Model Float.Model.UnpackedFloat

/-! ## Comparing with what may be infinite -/

theorem unpack_infinity : unpack Format.binary64 (word infinity) = .infinity .positive := rfl

/-- Doubles without a sign are in the order of their bit patterns up to infinity. -/
theorem lt_iff_of_no_sign {x y : Float} (hxs : signBit x = false) (hys : signBit y = false)
    (hx : magnitudeBits x ≤ Scaled.infinityBits) (hy : magnitudeBits y ≤ Scaled.infinityBits) :
    x < y ↔ magnitudeBits x < magnitudeBits y := by
  have hinfinity : magnitudeBits infinity = Scaled.infinityBits := by decide +kernel
  rcases hx.lt_or_eq with hxlt | hxeq <;> rcases hy.lt_or_eq with hylt | hyeq
  · exact lt_iff_of_positive ((isFinite_iff x).mpr hxlt) ((isFinite_iff y).mpr hylt) hxs hys
  · have hxfinite := (isFinite_iff x).mpr hxlt
    rw [eq_infinity hys hyeq, hinfinity, lt_iff, unpack_infinity]
    refine iff_of_true ?_ hxlt
    obtain ⟨hux, -⟩ | ⟨hm, hux⟩ := unpack_word hxfinite
    · rw [hux]
      rfl
    · rw [hux]
      rfl
  · have hyfinite := (isFinite_iff y).mpr hylt
    rw [eq_infinity hxs hxeq, hinfinity, lt_iff, unpack_infinity]
    refine iff_of_false ?_ hylt.le.not_gt
    obtain ⟨huy, -⟩ | ⟨hm, huy⟩ := unpack_word hyfinite
    · rw [huy]
      exact fun h => by cases h
    · rw [huy]
      exact fun h => by cases h
  · rw [eq_infinity hxs hxeq, eq_infinity hys hyeq, lt_iff, unpack_infinity]
    refine iff_of_false (fun h => ?_) (lt_irrefl _)
    cases h

end Bits

namespace Scaled

theorem nearest_lt_iff (num den num' den' : Nat) :
    nearest false num den < nearest false num' den' ↔
      magnitudeBits (nearest false num den) < magnitudeBits (nearest false num' den') :=
  Bits.lt_iff_of_no_sign (signBit_nearest ..) (signBit_nearest ..)
    (magnitudeBits_nearest_le_infinity ..) (magnitudeBits_nearest_le_infinity ..)

/-! ## Shares -/

/-- A total times a share that is a double, rounded. -/
theorem ofNat_mul_eq_nearest {total num places : Nat} (htotal : total < 2 ^ 53) {share : Float}
    (hshare : ofFloat share = ⟨false, num, -(places : Int)⟩) (hfinite : share.isFinite = true) :
    Float.ofNat total * share = nearest false (total * num) (2 ^ places) := by
  have hsign : signBit share = false := congrArg Scaled.negative hshare
  have hquotient : ((total * num : Nat) : ℚ) / (2 ^ places : Nat) =
      (ofFloat (nearest false total 1)).mantissa * 2 ^ (ofFloat (nearest false total 1)).exponent *
        ((ofFloat share).mantissa * 2 ^ (ofFloat share).exponent) := by
    rw [Bits.magnitude_nearest_one false htotal, hshare, Nat.cast_mul, Nat.cast_pow, Nat.cast_ofNat,
      zpow_neg, zpow_natCast, mul_div_assoc, div_eq_mul_inv]
  rw [Bits.ofNat_eq_nearest, Bits.mul_eq_nearest (Integral.isFinite_nearest_one false htotal) hfinite
    (Nat.two_pow_pos places) hquotient, signBit_nearest, hsign]
  rfl

/-- The double `0.01` exceeds a hundredth by `12 / 100` of `2 ^ -59`. -/
theorem ofNat_mul_hundredth {total : Nat} (htotal : total < 2 ^ 53) :
    Float.ofNat total * 0.01 = nearest false (total * 5764607523034235) (2 ^ 59) :=
  ofNat_mul_eq_nearest htotal (by decide +kernel) (by decide +kernel)

/-- The double `0.90` exceeds nine tenths by `2 / 10` of `2 ^ -53`. -/
theorem ofNat_mul_nineTenths {total : Nat} (htotal : total < 2 ^ 53) :
    Float.ofNat total * 0.90 = nearest false (total * 8106479329266893) (2 ^ 53) :=
  ofNat_mul_eq_nearest htotal (by decide +kernel) (by decide +kernel)

/-- The surplus over a hundredth never lifts the share above a count that reaches it. -/
theorem hundredth_le_nearest {total count : Nat} (htotal : total < 2 ^ 48)
    (hle : total ≤ 100 * count) :
    magnitudeBits (nearest false (total * 5764607523034235) (2 ^ 59)) ≤
      magnitudeBits (nearest false count 1) := by
  have htotalQ : (total : ℚ) < 2 ^ 48 := by exact_mod_cast htotal
  by_cases hzero : total = 0
  · rw [hzero, Nat.zero_mul, magnitudeBits_nearest, if_pos rfl]
    exact Nat.zero_le _
  -- past `2 ^ 48` a larger count makes no difference
  obtain ⟨least, hleast, hmost, hshare⟩ : ∃ least, least ≤ count ∧ least ≤ 2 ^ 48 ∧
      total ≤ 100 * least := ⟨min count (2 ^ 48), by omega, by omega, by omega⟩
  have hleastQ : (least : ℚ) ≤ count := by exact_mod_cast hleast
  have hshareQ : (total : ℚ) ≤ 100 * least := by exact_mod_cast hshare
  have hpos : 0 < least := by omega
  have hposQ : (0 : ℚ) < least := by exact_mod_cast hpos
  -- the surplus is less than half a last place of the count
  have hsurplus : nearest false (least * (2 ^ 59 + 12)) (2 ^ 59) = nearest false least 1 := by
    apply nearest_eq_of_lt_half hpos (by omega) (by omega) (Nat.two_pow_pos 59)
    · push_cast
      linarith
    · push_cast
      linarith
  calc magnitudeBits (nearest false (total * 5764607523034235) (2 ^ 59))
      ≤ magnitudeBits (nearest false (least * (2 ^ 59 + 12)) (2 ^ 59)) := by
        apply magnitudeBits_nearest_mono _ _ (Nat.two_pow_pos 59) (Nat.two_pow_pos 59)
        push_cast
        linarith
    _ = magnitudeBits (nearest false least 1) := by rw [hsurplus]
    _ ≤ magnitudeBits (nearest false count 1) := by
        apply magnitudeBits_nearest_mono _ _ Nat.one_pos Nat.one_pos
        push_cast
        linarith

/-- A count and a 128th lie between a count and the share above it. -/
theorem nearest_lt_hundredth {total count : Nat} (htotal : total < 2 ^ 48)
    (hlt : 100 * count < total) :
    magnitudeBits (nearest false count 1) <
      magnitudeBits (nearest false (total * 5764607523034235) (2 ^ 59)) := by
  have hltQ : (100 * count + 1 : ℚ) ≤ total := by exact_mod_cast hlt
  have hcount : 128 * count + 1 < 2 ^ 53 := by omega
  calc magnitudeBits (nearest false count 1)
      ≤ magnitudeBits (nearest false (128 * count) (2 ^ 7)) := by
        apply magnitudeBits_nearest_mono _ _ Nat.one_pos (Nat.two_pow_pos 7)
        push_cast
        linarith
    _ < magnitudeBits (nearest false (128 * count + 1) (2 ^ 7)) :=
        magnitudeBits_dyadic_lt (Nat.lt_succ_self _) hcount (by decide)
    _ ≤ magnitudeBits (nearest false (total * 5764607523034235) (2 ^ 59)) := by
        apply magnitudeBits_nearest_mono _ _ (Nat.two_pow_pos 7) (Nat.two_pow_pos 59)
        push_cast
        linarith

/-- A count is rounded below a hundredth of a total where it lies below it. -/
theorem ofNat_lt_hundredth_iff {total : Nat} (htotal : total < 2 ^ 48) (count : Nat) :
    Float.ofNat count < Float.ofNat total * 0.01 ↔ 100 * count < total := by
  rw [ofNat_mul_hundredth (by omega), Bits.ofNat_eq_nearest count, nearest_lt_iff]
  refine ⟨fun h => ?_, nearest_lt_hundredth htotal⟩
  by_contra hge
  exact h.not_ge (hundredth_le_nearest htotal (Nat.le_of_not_lt hge))

/-- A count is rounded above nine tenths of a total where it lies above it. -/
theorem nineTenths_lt_ofNat_iff {total : Nat} (htotal : total < 2 ^ 48) (count : Nat) :
    Float.ofNat total * 0.90 < Float.ofNat count ↔ 9 * total < 10 * count := by
  rw [ofNat_mul_nineTenths (by omega), Bits.ofNat_eq_nearest count, nearest_lt_iff]
  have htotalQ : (total : ℚ) < 2 ^ 48 := by exact_mod_cast htotal
  constructor
  · contrapose!
    intro hle
    have hleQ : (10 * count : ℚ) ≤ 9 * total := by exact_mod_cast hle
    apply magnitudeBits_nearest_mono _ _ Nat.one_pos (Nat.two_pow_pos 53)
    push_cast
    linarith
  · intro hlt
    -- past `2 ^ 48` a larger count makes no difference
    obtain ⟨least, hleast, hmost, hshare⟩ : ∃ least, least ≤ count ∧ least ≤ 2 ^ 48 ∧
        9 * total < 10 * least := ⟨min count (2 ^ 48), by omega, by omega, by omega⟩
    have hshareQ : (9 * total + 1 : ℚ) ≤ 10 * least := by exact_mod_cast hshare
    have hleastQ : (least : ℚ) ≤ count := by exact_mod_cast hleast
    calc magnitudeBits (nearest false (total * 8106479329266893) (2 ^ 53))
        ≤ magnitudeBits (nearest false (16 * least - 1) (2 ^ 4)) := by
          apply magnitudeBits_nearest_mono _ _ (Nat.two_pow_pos 53) (Nat.two_pow_pos 4)
          rw [Nat.cast_sub (by omega)]
          push_cast
          linarith
      _ < magnitudeBits (nearest false (16 * least) (2 ^ 4)) :=
          magnitudeBits_dyadic_lt (by omega) (by omega) (by decide)
      _ ≤ magnitudeBits (nearest false count 1) := by
          apply magnitudeBits_nearest_mono _ _ (Nat.two_pow_pos 4) Nat.one_pos
          push_cast
          linarith

end Scaled

end Isotherm
