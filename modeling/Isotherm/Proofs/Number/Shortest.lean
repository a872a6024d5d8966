import Isotherm.Proofs.Number.Nearest

/-!
# The shortest digits read back

The digits that are found for a positive double lie in its basin, because one of the two decimals
around it always does once there are seventeen digits. A decimal in the basin rounds to the double,
whatever its significand and exponent are: only its value counts.
-/

namespace Isotherm

namespace Decimal

/-! ## The value of a decimal -/

/-- The rational number that a decimal stands for. -/
def value (d : Decimal) : ℚ :=
  d.significand * 10 ^ d.exponent

theorem value_trim (d : Decimal) : d.trim.value = d.value := by
  induction d using trim.induct with
  | case1 d h => rw [trim, dif_pos h]
  | case2 d h hten ih =>
    rw [trim, dif_neg h, if_pos hten, ih]
    have hd : d.significand = d.significand / 10 * 10 := by omega
    simp only [value]
    rw [zpow_add_one₀ (by norm_num), ← mul_assoc, mul_right_comm]
    congr 1
    exact_mod_cast hd.symm
  | case3 d h hten => rw [trim, dif_neg h, if_neg hten]

theorem lt_digitCount (n : Nat) : n < 10 ^ digitCount n := by
  induction n using digitCount.induct with
  | case1 => exact Nat.pow_pos (by decide)
  | case2 n hn ih =>
    rw [digitCount, if_neg hn, Nat.pow_succ]
    omega

theorem digitCount_le {n : Nat} (hn : n ≠ 0) : 10 ^ digitCount n ≤ 10 * n := by
  induction n using digitCount.induct with
  | case1 => exact absurd rfl hn
  | case2 n _ ih =>
    rw [digitCount, if_neg hn, Nat.pow_succ]
    by_cases h : n / 10 = 0
    · rw [h, digitCount, if_pos rfl]
      omega
    · have := ih h
      omega

theorem powerOfTen_eq (exponent : Int) :
    ((powerOfTen exponent).1 : ℚ) / (powerOfTen exponent).2 = 10 ^ exponent := by
  unfold powerOfTen
  simp only [Nat.pow_eq]
  push_cast
  rw [← zpow_natCast, ← zpow_natCast, ← zpow_sub₀ (by norm_num)]
  congr 1
  omega

theorem powerOfTen_pos (exponent : Int) :
    0 < (powerOfTen exponent).1 ∧ 0 < (powerOfTen exponent).2 :=
  ⟨Nat.pow_pos (by decide), Nat.pow_pos (by decide)⟩

/-- The exponent of a quotient does not exceed its decimal logarithm. -/
theorem zpow_exponentOf_le {num den : Nat} (hnum : 0 < num) (hden : 0 < den) :
    (10 : ℚ) ^ exponentOf num den ≤ num / den := by
  have hd : (0 : ℚ) < den := by exact_mod_cast hden
  unfold exponentOf
  split
  next h =>
    have hq : num / den ≠ 0 := (Nat.div_pos h hden).ne'
    have hle : ((10 ^ digitCount (num / den) : Nat) : ℚ) ≤ (10 * (num / den) : Nat) := by
      exact_mod_cast digitCount_le hq
    rw [zpow_sub_one₀ (by norm_num), zpow_natCast]
    push_cast at hle
    calc (10 : ℚ) ^ digitCount (num / den) * 10⁻¹
        ≤ ((num / den : Nat) : ℚ) := by linarith
      _ ≤ num / den := Nat.cast_div_le
  next h =>
    have hlt : den ≤ num * 10 ^ digitCount ((den - 1) / num) := by
      have hdiv := Nat.div_add_mod (den - 1) num
      have hmod := Nat.mod_lt (den - 1) hnum
      have := Nat.mul_le_mul_left num (lt_digitCount ((den - 1) / num))
      rw [Nat.succ_eq_add_one, Nat.mul_add] at this
      omega
    rw [zpow_neg, zpow_natCast, le_div_iff₀ hd, inv_mul_le_iff₀ (by positivity), mul_comm]
    exact_mod_cast hlt

end Decimal

namespace Shortest

open Scaled Decimal

/-! ## Comparison with the basin -/

theorem Basin.quotient_pos (b : Basin) (quarters : Nat) (exponent : Int) :
    0 < (b.quotient quarters exponent).2 := by
  unfold quotient
  simp only [Nat.shiftLeft_eq]
  exact Nat.mul_pos (powerOfTen_pos exponent).1 (Nat.pow_pos (by decide))

theorem Basin.quotient_eq (b : Basin) (quarters : Nat) (exponent : Int) :
    ((b.quotient quarters exponent).1 : ℚ) / (b.quotient quarters exponent).2 =
      quarters * 2 ^ b.place / 10 ^ exponent := by
  have hplace := shifted_quotient quarters 1 (-b.place)
  rw [neg_neg, zpow_neg, div_inv_eq_mul, Nat.cast_one, div_one, Nat.shiftLeft_eq 1,
    Nat.one_mul] at hplace
  rw [← powerOfTen_eq, ← hplace]
  unfold quotient
  simp only [Nat.shiftLeft_eq]
  push_cast
  rw [div_div_div_eq, mul_comm (2 ^ (-b.place).toNat : ℚ)]

/-- Whether a decimal belongs to the double, as the program compares it. -/
theorem Basin.contains_iff (b : Basin) (significand : Nat) (exponent : Int) :
    b.contains significand exponent = true ↔ b.Holds (significand * 10 ^ exponent) := by
  have hten : (0 : ℚ) < 10 ^ exponent := by positivity
  have hunit : (0 : ℚ) < (b.quotient b.low exponent).2 := by
    exact_mod_cast b.quotient_pos b.low exponent
  have hlow := b.quotient_eq b.low exponent
  have hhigh : ((b.quotient b.high exponent).1 : ℚ) / (b.quotient b.low exponent).2 =
    b.high * 2 ^ b.place / 10 ^ exponent := b.quotient_eq b.high exponent
  have hle : (b.quotient b.low exponent).1 ≤ significand * (b.quotient b.low exponent).2 ↔
      b.low * 2 ^ b.place ≤ (significand : ℚ) * 10 ^ exponent := by
    rw [← div_le_iff₀ hten, ← hlow, div_le_iff₀ hunit]
    norm_cast
  have hlt : (b.quotient b.low exponent).1 < significand * (b.quotient b.low exponent).2 ↔
      b.low * 2 ^ b.place < (significand : ℚ) * 10 ^ exponent := by
    rw [← div_lt_iff₀ hten, ← hlow, div_lt_iff₀ hunit]
    norm_cast
  have hge : significand * (b.quotient b.low exponent).2 ≤ (b.quotient b.high exponent).1 ↔
      (significand : ℚ) * 10 ^ exponent ≤ b.high * 2 ^ b.place := by
    rw [← le_div_iff₀ hten, ← hhigh, le_div_iff₀ hunit]
    norm_cast
  have hgt : significand * (b.quotient b.low exponent).2 < (b.quotient b.high exponent).1 ↔
      (significand : ℚ) * 10 ^ exponent < b.high * 2 ^ b.place := by
    rw [← lt_div_iff₀ hten, ← hhigh, lt_div_iff₀ hunit]
    norm_cast
  unfold contains Holds
  dsimp only
  split
  · rw [Bool.and_eq_true, decide_eq_true_iff, decide_eq_true_iff, hle, hge]
  · rw [Bool.and_eq_true, decide_eq_true_iff, decide_eq_true_iff, hlt, hgt]

/-! ## Reading decimals of the basin -/

theorem Basin.Holds.pos {s : Scaled} (hs : 0 < s.mantissa) {q : ℚ}
    (h : (Basin.ofScaled s).Holds q) : 2 ^ (s.exponent - 1) ≤ q := by
  have hlow := h.bounds.1
  have hone : (1 : ℚ) ≤ s.mantissa := by exact_mod_cast hs
  have hreach := reach_le s
  rw [low_ofScaled hs] at hlow
  refine le_trans ?_ hlow
  rw [zpow_sub_one₀ two_ne_zero, mul_comm]
  exact mul_le_mul_of_nonneg_right (by norm_num; linarith) (by positivity)

theorem significand_ne_zero_of_holds {s : Scaled} (hs : 0 < s.mantissa) {d : Decimal}
    (h : (Basin.ofScaled s).Holds d.value) : d.significand ≠ 0 := by
  intro hzero
  have hpos : (0 : ℚ) < 2 ^ (s.exponent - 1) := by positivity
  have hle := h.pos hs
  rw [value, hzero, Nat.cast_zero, zero_mul] at hle
  exact absurd hle (not_le.mpr hpos)

/-- No decimal of the basin of a double is cut off as too small. -/
theorem magnitude_gt {s : Scaled} (hs : s.Canonical) {d : Decimal}
    (h : (Basin.ofScaled s).Holds d.value) :
    -324 < (digitCount d.significand : Int) + d.exponent := by
  by_contra hle
  have hvalue : d.value ≤ 10 ^ ((digitCount d.significand : Int) + d.exponent) := by
    rw [value, zpow_add₀ (by norm_num), zpow_natCast]
    refine mul_le_mul_of_nonneg_right ?_ (by positivity)
    exact_mod_cast (lt_digitCount d.significand).le
  have hsmall : (10 : ℚ) ^ ((digitCount d.significand : Int) + d.exponent) ≤ 10 ^ (-324 : Int) :=
    zpow_le_zpow_right₀ (by norm_num) (not_lt.mp hle)
  have hlow : (2 : ℚ) ^ (-1075 : Int) ≤ 2 ^ (s.exponent - 1) :=
    zpow_le_zpow_right₀ (by norm_num) (by have := hs.least; omega)
  have hgap : (10 : ℚ) ^ (-324 : Int) < 2 ^ (-1075 : Int) := by
    have hpow : 2 ^ 1075 < 10 ^ 324 := by decide +kernel
    rw [zpow_neg, zpow_neg, inv_lt_inv₀ (by positivity) (by positivity)]
    exact_mod_cast hpow
  exact absurd (hlow.trans ((h.pos hs.pos).trans (hvalue.trans hsmall))) (not_le.mpr hgap)

/-- No decimal of the basin of a double is cut off as too large. -/
theorem magnitude_le {s : Scaled} (hs : s.Canonical) {d : Decimal} (hd : d.significand ≠ 0)
    (h : (Basin.ofScaled s).Holds d.value) :
    (digitCount d.significand : Int) + d.exponent ≤ 309 := by
  by_contra hlt
  have hvalue : 10 ^ ((digitCount d.significand : Int) + d.exponent - 1) ≤ d.value := by
    rw [value, sub_eq_add_neg, add_assoc, zpow_add₀ (by norm_num), zpow_natCast,
      zpow_add₀ (by norm_num), mul_comm ((10 : ℚ) ^ d.exponent), ← mul_assoc]
    refine mul_le_mul_of_nonneg_right ?_ (by positivity)
    have : ((10 ^ digitCount d.significand : Nat) : ℚ) ≤ (10 * d.significand : Nat) := by
      exact_mod_cast digitCount_le hd
    push_cast at this
    rw [zpow_neg_one, ← div_eq_mul_inv, div_le_iff₀ (by norm_num)]
    linarith
  have hlarge : (10 : ℚ) ^ (309 : Int) ≤ 10 ^ ((digitCount d.significand : Int) + d.exponent - 1) :=
    zpow_le_zpow_right₀ (by norm_num) (by omega)
  have hhigh : d.value ≤ 2 ^ (53 : Int) * 2 ^ (971 : Int) := by
    refine le_trans h.bounds.2 ?_
    rw [high_ofScaled]
    have hm : (s.mantissa : ℚ) + 1 ≤ 2 ^ 53 := by exact_mod_cast hs.lt
    refine mul_le_mul ?_ (zpow_le_zpow_right₀ (by norm_num) hs.most) (by positivity) (by positivity)
    rw [zpow_ofNat]
    linarith
  have hgap : (2 : ℚ) ^ (53 : Int) * 2 ^ (971 : Int) < 10 ^ (309 : Int) := by
    have hpow : 2 ^ 53 * 2 ^ 971 < 10 ^ 309 := by decide +kernel
    exact_mod_cast hpow
  exact absurd (hlarge.trans (hvalue.trans hhigh)) (not_le.mpr hgap)

/-- A decimal is read as the double in whose basin it lies. -/
theorem toFloat_eq_of_holds {x : Float} (hx : x.isFinite = true) (hs : signBit x = false)
    (hm : (ofFloat x).mantissa ≠ 0) {d : Decimal}
    (h : (Basin.ofScaled (ofFloat x)).Holds d.value) : d.toFloat false = x := by
  have hcan := canonical_ofFloat hx hm
  have hd := significand_ne_zero_of_holds hcan.pos h
  have hgt := magnitude_gt hcan h
  have hle := magnitude_le hcan hd h
  have hquotient : ((d.significand * (powerOfTen d.exponent).1 : Nat) : ℚ) /
      (powerOfTen d.exponent).2 = d.value := by
    rw [value, ← powerOfTen_eq, Nat.cast_mul, mul_div_assoc]
  unfold Decimal.toFloat
  simp only [hd, decide_false, Bool.false_or, decide_eq_true_eq, if_neg (not_le.mpr hgt),
    if_neg (not_lt.mpr hle)]
  apply nearest_eq_of_holds hx hs hm
  · exact Nat.mul_pos (Nat.pos_of_ne_zero hd) (powerOfTen_pos d.exponent).1
  · exact (powerOfTen_pos d.exponent).2
  · rwa [hquotient]

/-! ## The digits that are found -/

theorem roundDiv_mem (num den : Nat) :
    roundDiv num den = num / den ∨ roundDiv num den = num / den + 1 := by
  unfold roundDiv
  dsimp only
  split_ifs <;> omega

/-- What is found over a unit lies in the basin. -/
theorem Basin.nearest?_holds {b : Basin} {exponent : Int} {d : Decimal}
    (h : b.nearest? exponent = some d) : b.Holds d.value := by
  unfold nearest? at h
  dsimp only at h
  split at h
  next hbelow habove =>
    cases h
    rcases roundDiv_mem (b.quotient b.value exponent).1 (b.quotient b.value exponent).2
      with hr | hr
    · rw [value, hr]
      exact (b.contains_iff _ _).mp hbelow
    · rw [value, hr]
      exact (b.contains_iff _ _).mp habove
  next hbelow _ =>
    cases h
    exact (b.contains_iff _ _).mp hbelow
  next habove =>
    cases h
    exact (b.contains_iff _ _).mp habove
  next => cases h

theorem Basin.le_low {b : Basin} {q : ℚ} (h : ¬b.Holds q) (hq : q < b.high * 2 ^ b.place) :
    q ≤ b.low * 2 ^ b.place := by
  by_contra hlt
  rw [not_le] at hlt
  apply h
  unfold Holds
  split
  · exact ⟨hlt.le, hq.le⟩
  · exact ⟨hlt, hq⟩

theorem Basin.high_le {b : Basin} {q : ℚ} (h : ¬b.Holds q) (hq : b.low * 2 ^ b.place < q) :
    b.high * 2 ^ b.place ≤ q := by
  by_contra hlt
  rw [not_le] at hlt
  apply h
  unfold Holds
  split
  · exact ⟨hq.le, hlt.le⟩
  · exact ⟨hq, hlt⟩

theorem reach_pos (s : Scaled) : 0 < reach s := by
  unfold reach
  split <;> norm_num

/-- The multiples of a unit on both sides of a double; the one that is found is one of them. -/
theorem neighbours {s : Scaled} (exponent : Int) :
    ∃ below : Nat, (below : ℚ) * 10 ^ exponent ≤ s.mantissa * 2 ^ s.exponent ∧
      s.mantissa * 2 ^ s.exponent < ((below + 1 : Nat) : ℚ) * 10 ^ exponent ∧
      match (Basin.ofScaled s).nearest? exponent with
      | some d => d = ⟨below, exponent⟩ ∨ d = ⟨below + 1, exponent⟩
      | none => ¬(Basin.ofScaled s).Holds (below * 10 ^ exponent) ∧
          ¬(Basin.ofScaled s).Holds ((below + 1 : Nat) * 10 ^ exponent) := by
  have hten : (0 : ℚ) < 10 ^ exponent := by positivity
  have hquotient := (Basin.ofScaled s).quotient_eq (Basin.ofScaled s).value exponent
  have hpos := (Basin.ofScaled s).quotient_pos (Basin.ofScaled s).value exponent
  rw [value_ofScaled] at hquotient
  unfold Basin.nearest?
  dsimp only
  generalize ((Basin.ofScaled s).quotient (Basin.ofScaled s).value exponent).1 = num at *
  generalize ((Basin.ofScaled s).quotient (Basin.ofScaled s).value exponent).2 = den at *
  refine ⟨num / den, ?_, ?_, ?_⟩
  · rw [← le_div_iff₀ hten, ← hquotient]
    exact Nat.cast_div_le
  · rw [← div_lt_iff₀ hten, ← hquotient, div_lt_iff₀ (by exact_mod_cast hpos)]
    exact_mod_cast Nat.lt_mul_of_div_lt (Nat.lt_succ_self _) hpos
  · cases hbelow : (Basin.ofScaled s).contains (num / den) exponent <;>
      cases habove : (Basin.ofScaled s).contains (num / den + 1) exponent
    · rw [← Bool.not_eq_true, Basin.contains_iff] at hbelow habove
      exact ⟨hbelow, habove⟩
    · exact .inr rfl
    · exact .inl rfl
    · rcases roundDiv_mem num den with hr | hr
      · exact .inl (by rw [hr])
      · exact .inr (by rw [hr])

/-- Where neither neighbour of the double over a unit rounds to it, the basin is no wider than the
unit. -/
theorem width_le_of_nearest?_eq_none {s : Scaled} (hs : 0 < s.mantissa) {exponent : Int}
    (h : (Basin.ofScaled s).nearest? exponent = none) :
    (reach s + 1 / 2) * 2 ^ s.exponent ≤ (10 : ℚ) ^ exponent := by
  have hunit : (0 : ℚ) < 2 ^ s.exponent := by positivity
  have hreach := reach_pos s
  have hlow := low_ofScaled hs
  have hhigh := high_ofScaled s
  obtain ⟨below, hfloor, hceil, hmissed⟩ := neighbours (s := s) exponent
  rw [h] at hmissed
  obtain ⟨hbelow, habove⟩ := hmissed
  have hle := Basin.le_low hbelow
    (hfloor.trans_lt (hhigh ▸ mul_lt_mul_of_pos_right (by linarith) hunit))
  have hge := Basin.high_le habove
    (lt_trans (hlow ▸ mul_lt_mul_of_pos_right (by linarith) hunit) hceil)
  rw [hlow] at hle
  rw [hhigh] at hge
  push_cast at hge hle
  linarith

theorem zpow_exponent_le {s : Scaled} (hs : 0 < s.mantissa) :
    (10 : ℚ) ^ (Basin.ofScaled s).exponent ≤ s.mantissa * 2 ^ s.exponent := by
  have hquotient := (Basin.ofScaled s).quotient_eq (Basin.ofScaled s).value 0
  rw [value_ofScaled, zpow_zero, div_one] at hquotient
  rw [← hquotient]
  apply zpow_exponentOf_le
  · refine Nat.mul_pos ?_ (powerOfTen_pos 0).2
    rw [Nat.shiftLeft_eq]
    exact Nat.mul_pos (Nat.mul_pos (by decide) hs) (Nat.pow_pos (by decide))
  · exact Basin.quotient_pos _ (Basin.ofScaled s).value 0

/-- Seventeen digits are enough to tell any two doubles apart. -/
theorem nearest?_seventeen {s : Scaled} (hs : s.Canonical) :
    (Basin.ofScaled s).nearest? ((Basin.ofScaled s).exponent - 16) ≠ none := by
  intro h
  have hwidth := width_le_of_nearest?_eq_none hs.pos h
  have hlead := zpow_exponent_le hs.pos
  have hunit : (0 : ℚ) < 2 ^ s.exponent := by positivity
  rw [zpow_sub₀ (by norm_num), le_div_iff₀ (by positivity), zpow_ofNat] at hwidth
  have hlt := hwidth.trans hlead
  rw [mul_right_comm] at hlt
  have hle := le_of_mul_le_mul_right hlt hunit
  unfold reach at hle
  split at hle
  next hlowest =>
    rw [hlowest.1] at hle
    norm_num at hle
  next =>
    have hm : (s.mantissa : ℚ) ≤ 2 ^ 53 := by exact_mod_cast hs.lt.le
    norm_num at hle hm
    linarith

/-- The digits of a double lie in its basin. -/
theorem digits_holds {s : Scaled} (hs : s.Canonical) :
    (Basin.ofScaled s).Holds (digits s).value := by
  unfold digits
  dsimp only
  rw [value_trim]
  cases hfound : (List.range mostDigits).findSome? fun n : Nat =>
      (Basin.ofScaled s).nearest? ((Basin.ofScaled s).exponent - n) with
  | some d =>
    obtain ⟨n, -, hn⟩ := List.exists_of_findSome?_eq_some hfound
    exact Basin.nearest?_holds hn
  | none =>
    have hall := List.findSome?_eq_none_iff.mp hfound 16 (by decide)
    exact absurd hall (nearest?_seventeen hs)

/-- Any decimal with the value of the digits of a double is read as the double. -/
theorem toFloat_eq_of_value_eq {x : Float} (hx : x.isFinite = true) (hs : signBit x = false)
    (hm : (ofFloat x).mantissa ≠ 0) {d : Decimal} (h : d.value = (digits (ofFloat x)).value) :
    d.toFloat false = x := by
  apply toFloat_eq_of_holds hx hs hm
  rw [h]
  exact digits_holds (canonical_ofFloat hx hm)

end Shortest

/-- A decimal that is read without a sign has none, unless it is past the largest double. -/
theorem Decimal.signBit_toFloat {d : Decimal} (h : (d.toFloat false).isFinite = true) :
    signBit (d.toFloat false) = false := by
  have hinfinity : infinity.isFinite = false := rfl
  unfold Decimal.toFloat at h ⊢
  dsimp only at h ⊢
  split
  next => exact Scaled.signBit_nearest 0 1
  next hsmall =>
    rw [if_neg hsmall] at h
    split
    next hlarge =>
      rw [if_pos hlarge, if_neg Bool.false_ne_true, hinfinity] at h
      cases h
    next => exact Scaled.signBit_nearest _ _

end Isotherm
