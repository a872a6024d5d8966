import Isotherm.Proofs.Number.Shortest
import Isotherm.Proofs.Number.Thresholds

/-!
# No decimal with fewer digits

A quotient that rounds to a double lies in its basin, and the basin has no gaps. So where none of the
two decimals around the double over a unit rounds to it, no multiple of that unit does; and a decimal
with fewer digits than the one that is found would be such a multiple, or have a power of ten between
it and the double that is one.
-/

namespace Isotherm

namespace Scaled

/-- A quotient lies within a half of the number it is rounded to, and closer where that is odd. -/
theorem roundDiv_bounds (num : Nat) {den : Nat} (hden : 0 < den) :
    (roundDiv num den : ℚ) - 1 / 2 ≤ num / den ∧ (num : ℚ) / den ≤ roundDiv num den + 1 / 2 ∧
      (roundDiv num den % 2 = 1 →
        (roundDiv num den : ℚ) - 1 / 2 < num / den ∧ (num : ℚ) / den < roundDiv num den + 1 / 2) := by
  have hd : (0 : ℚ) < den := by exact_mod_cast hden
  have hnum := Nat.div_add_mod' num den
  have hrest := Nat.mod_lt num hden
  have hnat : 2 * (roundDiv num den * den) ≤ 2 * num + den ∧
      2 * num ≤ 2 * (roundDiv num den * den) + den ∧
      (roundDiv num den % 2 = 1 → 2 * (roundDiv num den * den) < 2 * num + den ∧
        2 * num < 2 * (roundDiv num den * den) + den) := by
    unfold roundDiv
    generalize num / den = quotient at *
    generalize num % den = rest at *
    have hsucc : (quotient + 1) * den = quotient * den + den := Nat.succ_mul ..
    dsimp only
    split_ifs with hbelow habove
    · omega
    · omega
    · obtain heven | hodd := Nat.mod_two_eq_zero_or_one quotient
      · rw [heven, Nat.add_zero]
        omega
      · rw [hodd]
        omega
  obtain ⟨hlow, hhigh, hodd⟩ := hnat
  rw [le_div_iff₀ hd, div_le_iff₀ hd, lt_div_iff₀ hd, div_lt_iff₀ hd]
  refine ⟨?_, ?_, fun h => ⟨?_, ?_⟩⟩
  · have hcast : (2 * (roundDiv num den * den) : ℚ) ≤ 2 * num + den := by exact_mod_cast hlow
    linarith
  · have hcast : (2 * num : ℚ) ≤ 2 * (roundDiv num den * den) + den := by exact_mod_cast hhigh
    linarith
  · have hcast : (2 * (roundDiv num den * den) : ℚ) < 2 * num + den := by
      exact_mod_cast (hodd h).1
    linarith
  · have hcast : (2 * num : ℚ) < 2 * (roundDiv num den * den) + den := by
      exact_mod_cast (hodd h).2
    linarith

end Scaled

namespace Shortest

open Scaled Decimal

/-! ## Quotients that round to a double -/

/-- What lies within the reach of the mantissa, and not at its ends where that is odd, is in the
basin. -/
theorem Basin.holds_of_scaled {s : Scaled} (hs : 0 < s.mantissa) {q : ℚ}
    (hlow : s.mantissa - reach s ≤ q / 2 ^ s.exponent)
    (hhigh : q / 2 ^ s.exponent ≤ s.mantissa + 1 / 2)
    (hodd : s.mantissa % 2 = 1 →
      s.mantissa - reach s < q / 2 ^ s.exponent ∧ q / 2 ^ s.exponent < s.mantissa + 1 / 2) :
    (Basin.ofScaled s).Holds q := by
  have hu : (0 : ℚ) < 2 ^ s.exponent := by positivity
  rw [le_div_iff₀ hu] at hlow
  rw [div_le_iff₀ hu] at hhigh
  rw [lt_div_iff₀ hu, div_lt_iff₀ hu] at hodd
  have hclosed : (Basin.ofScaled s).closed = (s.mantissa % 2 == 0) := rfl
  unfold Holds
  rw [low_ofScaled hs, high_ofScaled, hclosed]
  split
  next => exact ⟨hlow, hhigh⟩
  next hne =>
    refine hodd ?_
    rw [beq_iff_eq] at hne
    omega

theorem reach_of_odd {s : Scaled} (h : s.mantissa % 2 = 1) : reach s = 1 / 2 :=
  if_neg fun hlowest => by omega

/-- The last place of a quotient leaves 53 bits, or it is the one of the subnormals. -/
theorem lastPlace_full {num den : Nat} (hnum : 0 < num) (hden : 0 < den) :
    -1074 ≤ lastPlace num den ∧
      (lastPlace num den = -1074 ∨ (2 : ℚ) ^ 52 ≤ num / den / 2 ^ lastPlace num den) ∧
      (num : ℚ) / den / 2 ^ lastPlace num den < 2 ^ 53 := by
  obtain ⟨own, hplace, hlow, hhigh⟩ := lastPlace_spec hnum hden
  have hunit : (0 : ℚ) < 2 ^ lastPlace num den := by positivity
  rw [le_div_iff₀ hunit, div_lt_iff₀ hunit, ← zpow_ofNat, ← zpow_ofNat, ← zpow_add₀ two_ne_zero,
    ← zpow_add₀ two_ne_zero, add_comm, add_comm 53]
  refine ⟨by omega, ?_, hhigh.trans_le (zpow_le_zpow_right₀ one_le_two (by omega))⟩
  by_cases hleast : lastPlace num den = -1074
  · exact .inl hleast
  · have hown : own = lastPlace num den := by omega
    exact .inr (hown ▸ hlow)

/-- What rounds to the mantissa in units of the last place. -/
theorem Basin.holds_of_rounded {s : Scaled} (hs : 0 < s.mantissa) {q : ℚ}
    (hnormal : s.exponent = -1074 ∨ (2 : ℚ) ^ 52 ≤ q / 2 ^ s.exponent)
    (hlow : s.mantissa - 1 / 2 ≤ q / 2 ^ s.exponent)
    (hhigh : q / 2 ^ s.exponent ≤ s.mantissa + 1 / 2)
    (hodd : s.mantissa % 2 = 1 →
      s.mantissa - 1 / 2 < q / 2 ^ s.exponent ∧ q / 2 ^ s.exponent < s.mantissa + 1 / 2) :
    (Basin.ofScaled s).Holds q := by
  apply Basin.holds_of_scaled hs _ hhigh
  · intro h
    rw [reach_of_odd h]
    exact hodd h
  · unfold reach
    split
    next hlowest =>
      have hbinade := hnormal.resolve_left (by omega)
      rw [hlowest.1]
      push_cast
      linarith
    next => exact hlow

/-- What is rounded up to the next binade lies below its lowest double, by half a unit at most. -/
theorem Basin.holds_of_carry {s : Scaled} {place : Int} {q : ℚ} (hleast : -1074 ≤ place)
    (hexponent : s.exponent = place + 1) (hmantissa : s.mantissa = 2 ^ 52)
    (hlow : 2 ^ 53 - 1 / 2 ≤ q / 2 ^ place) (hbelow : q / 2 ^ place < 2 ^ 53) :
    (Basin.ofScaled s).Holds q := by
  have hhalf : q / 2 ^ s.exponent = q / 2 ^ place / 2 := by
    rw [hexponent, zpow_add_one₀ two_ne_zero, div_mul_eq_div_div]
  have hreach : reach s = 1 / 4 := if_pos ⟨hmantissa, by omega⟩
  apply Basin.holds_of_scaled (by rw [hmantissa]; decide)
  · rw [hhalf, hreach, hmantissa]
    push_cast
    linarith
  · rw [hhalf, hmantissa]
    push_cast
    linarith
  · rw [hmantissa]
    intro h
    norm_num at h

/-- A quotient that rounds to a double lies in its basin. -/
theorem holds_of_nearest {x : Float} (hx : x.isFinite = true) (hm : (ofFloat x).mantissa ≠ 0)
    {negative : Bool} {num den : Nat} (hden : 0 < den) (h : nearest negative num den = x) :
    (Basin.ofScaled (ofFloat x)).Holds (num / den) := by
  obtain ⟨hpos, hlt, hleast, -, hfull⟩ := canonical_ofFloat hx hm
  have hbits := magnitudeBits_eq x
  have hfinite := (Bits.isFinite_iff x).mp hx
  rw [← h, magnitudeBits_nearest] at hfinite
  rw [← congrArg magnitudeBits h, magnitudeBits_nearest] at hbits
  generalize ofFloat x = s at *
  have hnum : num ≠ 0 := by
    rintro rfl
    rw [if_pos rfl] at hbits
    omega
  rw [if_neg hnum] at hbits hfinite
  rw [Nat.min_eq_left ((min_lt_iff.mp hfinite).resolve_right (lt_irrefl _)).le] at hbits
  obtain ⟨hplace, hnormal, hbelow⟩ := lastPlace_full (Nat.pos_of_ne_zero hnum) hden
  have hcarry := roundDiv_lastPlace_le (Nat.pos_of_ne_zero hnum) hden
  have hunits := shifted_den_pos hden (lastPlace num den)
  have hround := roundDiv_bounds (num <<< (-lastPlace num den).toNat) hunits
  have hrounded : lastPlace num den = -1074 ∨ 2 ^ 52 ≤ roundDiv
      (num <<< (-lastPlace num den).toNat) (den <<< (lastPlace num den).toNat) := by
    refine hnormal.imp_right fun hbinade => le_roundDiv_shifted hden _ ?_
    rwa [add_comm, zpow_add₀ two_ne_zero, zpow_ofNat, ← le_div_iff₀ (by positivity)]
  rw [shifted_quotient] at hround
  generalize roundDiv _ _ = rounded at *
  generalize lastPlace num den = place at *
  obtain ⟨hlow, hhigh, hodd⟩ := hround
  by_cases hfits : rounded < 2 ^ 53
  · obtain ⟨rfl, rfl⟩ : place = s.exponent ∧ rounded = s.mantissa := by omega
    exact Basin.holds_of_rounded hpos hnormal hlow hhigh hodd
  · obtain ⟨hexponent, hmantissa⟩ : s.exponent = place + 1 ∧ s.mantissa = 2 ^ 52 := by omega
    obtain rfl : rounded = 2 ^ 53 := by omega
    push_cast at hlow
    exact Basin.holds_of_carry hplace hexponent hmantissa hlow hbelow

/-- A decimal that is read as a double lies in its basin. -/
theorem holds_of_toFloat {x : Float} (hx : x.isFinite = true) (hm : (ofFloat x).mantissa ≠ 0)
    {negative : Bool} {d : Decimal} (h : d.toFloat negative = x) :
    (Basin.ofScaled (ofFloat x)).Holds d.value := by
  unfold Decimal.toFloat at h
  dsimp only at h
  split at h
  next =>
    have hbits := magnitudeBits_eq x
    rw [← congrArg magnitudeBits h, magnitudeBits_nearest, if_pos rfl] at hbits
    omega
  next =>
    split at h
    next =>
      rw [← h] at hx
      cases negative <;> cases hx
    next =>
      have hquotient : ((d.significand * (powerOfTen d.exponent).1 : Nat) : ℚ) /
          (powerOfTen d.exponent).2 = d.value := by
        rw [value, ← powerOfTen_eq, Nat.cast_mul, mul_div_assoc]
      rw [← hquotient]
      exact holds_of_nearest hx hm (powerOfTen_pos d.exponent).2 h

/-! ## The basin has no gaps -/

theorem Basin.Holds.between {b : Basin} {p q r : ℚ} (hp : b.Holds p) (hr : b.Holds r) (hpq : p ≤ q)
    (hqr : q ≤ r) : b.Holds q := by
  cases hclosed : b.closed
  · rw [Holds, hclosed, if_neg Bool.false_ne_true] at hp hr ⊢
    exact ⟨hp.1.trans_le hpq, hqr.trans_lt hr.2⟩
  · rw [Holds, hclosed, if_pos rfl] at hp hr ⊢
    exact ⟨hp.1.trans hpq, hqr.trans hr.2⟩

theorem Basin.holds_self {s : Scaled} (hs : 0 < s.mantissa) :
    (Basin.ofScaled s).Holds (s.mantissa * 2 ^ s.exponent) := by
  have hself : (s.mantissa : ℚ) * 2 ^ s.exponent / 2 ^ s.exponent = s.mantissa :=
    mul_div_cancel_right₀ _ (by positivity)
  have hreach := reach_pos s
  apply holds_of_scaled hs
  · rw [hself]
    linarith
  · rw [hself]
    linarith
  · intro _
    rw [hself]
    constructor <;> linarith

/-- Where neither neighbour of the double over a unit rounds to it, no multiple of the unit does. -/
theorem not_holds_of_nearest?_eq_none {s : Scaled} (hs : 0 < s.mantissa) {exponent : Int}
    (h : (Basin.ofScaled s).nearest? exponent = none) (multiple : Nat) :
    ¬(Basin.ofScaled s).Holds (multiple * 10 ^ exponent) := by
  have hten : (0 : ℚ) < 10 ^ exponent := by positivity
  obtain ⟨below, hfloor, hceil, hmissed⟩ := neighbours (s := s) exponent
  rw [h] at hmissed
  obtain ⟨hbelow, habove⟩ := hmissed
  have hself := Basin.holds_self hs
  intro hmultiple
  rcases Nat.lt_or_ge below multiple with hlt | hle
  · exact habove (hself.between hmultiple hceil.le
      (mul_le_mul_of_nonneg_right (by exact_mod_cast hlt) hten.le))
  · exact hbelow (hmultiple.between hself
      (mul_le_mul_of_nonneg_right (by exact_mod_cast hle) hten.le) hfloor)

end Shortest

namespace Decimal

/-! ## Counting digits -/

/-- A quotient lies below the power of ten that follows its exponent. -/
theorem lt_zpow_exponentOf {num den : Nat} (hnum : 0 < num) (hden : 0 < den) :
    (num : ℚ) / den < 10 ^ (exponentOf num den + 1) := by
  have hd : (0 : ℚ) < den := by exact_mod_cast hden
  unfold exponentOf
  split
  next =>
    have hlt := lt_digitCount (num / den)
    rw [Nat.div_lt_iff_lt_mul hden] at hlt
    rw [sub_add_cancel, zpow_natCast, div_lt_iff₀ hd]
    exact_mod_cast hlt
  next h =>
    have hquotient : (den - 1) / num ≠ 0 := (Nat.div_pos (by omega) hnum).ne'
    have hdigits := Nat.mul_le_mul_right num (digitCount_le hquotient)
    have hdiv := Nat.div_mul_le_self (den - 1) num
    have hlt : 10 ^ digitCount ((den - 1) / num) * num < 10 * den := by
      rw [Nat.mul_assoc] at hdigits
      omega
    rw [zpow_add_one₀ (by norm_num), zpow_neg, zpow_natCast, div_lt_iff₀ hd, mul_assoc,
      lt_inv_mul_iff₀ (by positivity)]
    exact_mod_cast hlt

/-- How many digits a decimal has, trailing zeros aside. -/
def significantDigits (d : Decimal) : Nat :=
  digitCount d.trim.significand

/-- The exponent of the first digit. -/
def leading (d : Decimal) : Int :=
  digitCount d.significand + d.exponent - 1

theorem digitCount_le_of_lt {n count : Nat} (h : n < 10 ^ count) : digitCount n ≤ count := by
  by_cases hn : n = 0
  · rw [hn, digitCount, if_pos rfl]
    exact Nat.zero_le _
  · have hle := digitCount_le hn
    have hlt : 10 ^ digitCount n < 10 ^ (count + 1) := by
      rw [Nat.pow_succ]
      omega
    exact Nat.le_of_lt_succ ((Nat.pow_lt_pow_iff_right (by decide)).mp hlt)

theorem value_lt_zpow_leading (d : Decimal) : d.value < 10 ^ (d.leading + 1) := by
  have hlt : (d.significand : ℚ) < 10 ^ digitCount d.significand := by
    exact_mod_cast lt_digitCount d.significand
  rw [leading, sub_add_cancel, zpow_add₀ (by norm_num), zpow_natCast]
  exact mul_lt_mul_of_pos_right hlt (by positivity)

theorem zpow_leading_le {d : Decimal} (hd : d.significand ≠ 0) : 10 ^ d.leading ≤ d.value := by
  have hle : (10 ^ digitCount d.significand : ℚ) ≤ 10 * d.significand := by
    exact_mod_cast digitCount_le hd
  rw [leading, add_sub_right_comm, zpow_add₀ (by norm_num), value, zpow_sub_one₀ (by norm_num),
    zpow_natCast]
  refine mul_le_mul_of_nonneg_right ?_ (by positivity)
  linarith

/-- The exponent of the first digit depends on the value alone. -/
theorem leading_eq_of_value_eq {d d' : Decimal} (hd : d.significand ≠ 0) (hd' : d'.significand ≠ 0)
    (h : d.value = d'.value) : d.leading = d'.leading := by
  have hbelow {a b : Decimal} (ha : a.significand ≠ 0) (hab : a.value = b.value) :
      a.leading < b.leading + 1 := by
    rw [← zpow_lt_zpow_iff_right₀ (show (1 : ℚ) < 10 by norm_num)]
    exact (zpow_leading_le ha).trans_lt (hab ▸ value_lt_zpow_leading b)
  have hle := hbelow hd h
  have hge := hbelow hd' h.symm
  omega

theorem trim_significand {d : Decimal} (hd : d.significand ≠ 0) : d.trim.significand % 10 ≠ 0 := by
  induction d using trim.induct with
  | case1 d h => exact absurd h hd
  | case2 d h hten ih =>
    rw [trim, dif_neg h, if_pos hten]
    exact ih (by simp only; omega)
  | case3 d h hten => rwa [trim, dif_neg h, if_neg hten]

theorem significantDigits_trim (d : Decimal) : d.trim.significantDigits = d.significantDigits := by
  unfold significantDigits
  by_cases hd : d.significand = 0
  · have htrim : d.trim = d := by rw [trim, dif_pos hd]
    rw [htrim, htrim]
  · have hlast := trim_significand hd
    have hpositive : d.trim.significand ≠ 0 := by omega
    rw [trim, dif_neg hpositive, if_neg hlast]

/-- A multiple of a unit as a multiple of a finer one. -/
theorem mul_zpow_eq_of_le (m : Nat) {k e : Int} (h : k ≤ e) :
    (m : ℚ) * 10 ^ e = (m * 10 ^ (e - k).toNat : Nat) * 10 ^ k := by
  have hexponent : e = (e - k).toNat + k := by omega
  rw [hexponent, zpow_add₀ (by norm_num), zpow_natCast, ← mul_assoc, ← hexponent]
  push_cast
  rfl

theorem eq_of_mul_zpow_eq {m n : Nat} {k : Int} (h : (m : ℚ) * 10 ^ k = n * 10 ^ k) : m = n := by
  have hten : (10 : ℚ) ^ k ≠ 0 := by positivity
  exact_mod_cast mul_right_cancel₀ hten h

/-- A decimal has no more digits than any other way to write its value. -/
theorem significantDigits_le {d : Decimal} (hd : d.significand ≠ 0) {m count : Nat} {k : Int}
    (h : d.value = m * 10 ^ k) (hm : m < 10 ^ count) : d.significantDigits ≤ count := by
  have hlast := trim_significand hd
  rw [← value_trim, value] at h
  apply digitCount_le_of_lt
  rcases Int.lt_or_le d.trim.exponent k with hfiner | hcoarser
  · -- otherwise the last digit would be a zero
    rw [mul_zpow_eq_of_le m hfiner.le] at h
    have hpositive : (k - d.trim.exponent).toNat ≠ 0 := by omega
    have hten : 10 ∣ 10 ^ (k - d.trim.exponent).toNat := dvd_pow_self 10 hpositive
    rw [eq_of_mul_zpow_eq h] at hlast
    exact absurd (Nat.mod_eq_zero_of_dvd (hten.mul_left m)) hlast
  · rw [mul_zpow_eq_of_le _ hcoarser] at h
    rw [← eq_of_mul_zpow_eq h] at hm
    exact (Nat.le_mul_of_pos_right _ (by positivity)).trans_lt hm

theorem significantDigits_le_of_value_eq {d d' : Decimal} (hd : d.significand ≠ 0)
    (h : d.value = d'.value) : d.significantDigits ≤ d'.significantDigits := by
  rw [← value_trim d'] at h
  exact significantDigits_le hd h (lt_digitCount d'.trim.significand)

end Decimal

namespace Shortest

open Scaled Decimal

theorem findSome?_range {α : Type} {f : Nat → Option α} {count : Nat} {found : α}
    (h : (List.range count).findSome? f = some found) :
    ∃ n, f n = some found ∧ ∀ k < n, f k = none := by
  induction count with
  | zero => cases h
  | succ count ih =>
    rw [List.range_succ, List.findSome?_append, Option.or_eq_some_iff] at h
    rcases h with h | ⟨hnone, hlast⟩
    · exact ih h
    · rw [List.findSome?_eq_none_iff] at hnone
      exact ⟨count, by simpa using hlast, fun k hk => hnone k (List.mem_range.mpr hk)⟩

theorem lt_zpow_exponent {s : Scaled} (hs : 0 < s.mantissa) :
    (s.mantissa : ℚ) * 2 ^ s.exponent < 10 ^ ((Basin.ofScaled s).exponent + 1) := by
  have hquotient := (Basin.ofScaled s).quotient_eq (Basin.ofScaled s).value 0
  rw [value_ofScaled, zpow_zero, div_one] at hquotient
  rw [← hquotient]
  apply lt_zpow_exponentOf
  · refine Nat.mul_pos ?_ (powerOfTen_pos 0).2
    rw [Nat.shiftLeft_eq]
    exact Nat.mul_pos (Nat.mul_pos (by decide) hs) (Nat.pow_pos (by decide))
  · exact Basin.quotient_pos _ (Basin.ofScaled s).value 0

/-- The digits are those of the first unit with a multiple in the basin. -/
theorem digits_eq {s : Scaled} (hs : s.Canonical) :
    ∃ (n : Nat) (d : Decimal), digits s = d.trim ∧
      (Basin.ofScaled s).nearest? ((Basin.ofScaled s).exponent - n) = some d ∧
      ∀ k < n, (Basin.ofScaled s).nearest? ((Basin.ofScaled s).exponent - k) = none := by
  unfold digits
  dsimp only
  cases hfound : (List.range mostDigits).findSome? fun n : Nat =>
      (Basin.ofScaled s).nearest? ((Basin.ofScaled s).exponent - n) with
  | some d =>
    obtain ⟨n, hn, hbefore⟩ := findSome?_range hfound
    exact ⟨n, d, rfl, hn, hbefore⟩
  | none =>
    have hall := List.findSome?_eq_none_iff.mp hfound 16 (by decide)
    exact absurd hall (nearest?_seventeen hs)

/-- What is found over a unit has at most the digits from the first of the double down to the unit. -/
theorem significantDigits_le_of_nearest? {s : Scaled} (hs : 0 < s.mantissa) {n : Nat} {d : Decimal}
    (h : (Basin.ofScaled s).nearest? ((Basin.ofScaled s).exponent - n) = some d)
    (hd : d.significand ≠ 0) : d.significantDigits ≤ n + 1 := by
  have hlt := lt_zpow_exponent hs
  have hten : (0 : ℚ) < 10 ^ ((Basin.ofScaled s).exponent - n) := by positivity
  obtain ⟨below, hfloor, -, hfound⟩ := neighbours (s := s) ((Basin.ofScaled s).exponent - n)
  rw [h] at hfound
  have hbelow : below < 10 ^ (n + 1) := by
    have hexponent : (Basin.ofScaled s).exponent + 1 =
        (n + 1 : Nat) + ((Basin.ofScaled s).exponent - n) := by omega
    rw [hexponent, zpow_add₀ (by norm_num), zpow_natCast] at hlt
    exact_mod_cast lt_of_mul_lt_mul_right (hfloor.trans_lt hlt) hten.le
  have hvalue : d.value = d.significand * 10 ^ ((Basin.ofScaled s).exponent - n) := by
    rcases hfound with rfl | rfl <;> rfl
  have hle : d.significand ≤ 10 ^ (n + 1) := by
    rcases hfound with rfl | rfl
    · exact hbelow.le
    · exact hbelow
  rcases hle.lt_or_eq with hfits | hfull
  · exact significantDigits_le hd hvalue hfits
  · -- ten to the power of the digits is a single one
    have hone : d.value = (1 : Nat) * 10 ^ ((Basin.ofScaled s).exponent + 1) := by
      have hexponent : (Basin.ofScaled s).exponent + 1 - ((Basin.ofScaled s).exponent - n) =
          (n + 1 : Nat) := by omega
      rw [hvalue, hfull, mul_zpow_eq_of_le 1 (k := (Basin.ofScaled s).exponent - n) (by omega),
        hexponent, Int.toNat_natCast, Nat.one_mul]
    exact significantDigits_le hd hone (Nat.one_lt_pow (Nat.succ_ne_zero n) (by decide))

/-- A decimal of the basin with so many digits, or a power of ten, is a multiple of the unit with as
many places down from the first digit of the double. -/
theorem exists_multiple {s : Scaled} (hs : 0 < s.mantissa) {d : Decimal}
    (h : (Basin.ofScaled s).Holds d.value) {count : Nat}
    (hcount : d.trim.significand < 10 ^ (count + 1)) :
    ∃ multiple : Nat,
      (Basin.ofScaled s).Holds (multiple * 10 ^ ((Basin.ofScaled s).exponent - count)) := by
  rw [← value_trim, value] at h
  rcases Int.lt_or_le d.trim.exponent ((Basin.ofScaled s).exponent - count) with hbelow | hunit
  · -- the decimal lies below a power of ten that the double does not lie below
    have hpower : (d.trim.significand : ℚ) * 10 ^ d.trim.exponent ≤
        10 ^ (Basin.ofScaled s).exponent := by
      have hfits : (d.trim.significand : ℚ) ≤ 10 ^ (count + 1) := by exact_mod_cast hcount.le
      calc (d.trim.significand : ℚ) * 10 ^ d.trim.exponent
          ≤ 10 ^ (count + 1) * 10 ^ d.trim.exponent :=
            mul_le_mul_of_nonneg_right hfits (by positivity)
        _ = 10 ^ ((count + 1 : Nat) + d.trim.exponent) := by
            rw [zpow_add₀ (by norm_num), zpow_natCast]
        _ ≤ 10 ^ (Basin.ofScaled s).exponent :=
            zpow_le_zpow_right₀ (by norm_num) (by omega)
    refine ⟨1 * 10 ^ ((Basin.ofScaled s).exponent - ((Basin.ofScaled s).exponent - count)).toNat, ?_⟩
    rw [← mul_zpow_eq_of_le 1 (by omega), Nat.cast_one, one_mul]
    exact h.between (Basin.holds_self hs) hpower (zpow_exponent_le hs)
  · refine ⟨d.trim.significand *
      10 ^ (d.trim.exponent - ((Basin.ofScaled s).exponent - count)).toNat, ?_⟩
    rwa [← mul_zpow_eq_of_le _ hunit]

/-- No decimal that rounds to a double has fewer digits than the one that is found for it. -/
theorem significantDigits_digits_le {s : Scaled} (hs : s.Canonical) {d : Decimal}
    (h : (Basin.ofScaled s).Holds d.value) :
    (digits s).significantDigits ≤ d.significantDigits := by
  obtain ⟨n, found, hdigits, hfound, hbefore⟩ := digits_eq hs
  have hholds := Basin.nearest?_holds hfound
  have hmost := significantDigits_le_of_nearest? hs.pos hfound
    (significand_ne_zero_of_holds hs.pos hholds)
  rw [hdigits, significantDigits_trim]
  by_contra hfewer
  have hlast := trim_significand (significand_ne_zero_of_holds hs.pos h)
  have hlt : d.trim.significand < 10 ^ d.significantDigits := lt_digitCount d.trim.significand
  have hpositive : 0 < d.significantDigits := by
    rw [Nat.pos_iff_ne_zero]
    intro hzero
    rw [hzero] at hlt
    omega
  have hcount : d.trim.significand < 10 ^ (d.significantDigits - 1 + 1) := by
    rwa [Nat.sub_add_cancel hpositive]
  obtain ⟨multiple, hmultiple⟩ := exists_multiple hs.pos h hcount
  exact not_holds_of_nearest?_eq_none hs.pos (hbefore _ (by omega)) multiple hmultiple

end Shortest
end Isotherm
