import Isotherm.Number.Shortest
import Isotherm.Proofs.Number.Bits

/-!
# The double nearest to a quotient

A positive finite double is `mantissa · 2 ^ exponent` for exactly one canonical pair, and its bit
pattern is linear in the two. `Basin.Holds` says in rational numbers which quotients belong to the
double. Rounding any quotient of the basin gives the double back, also where the quotient lies below
a power of two and is rounded on the finer grid there.
-/

namespace Isotherm

theorem twoTo_eq (n : Nat) : twoTo n = 2 ^ n := by
  rw [twoTo, Nat.shiftLeft_eq, Nat.one_mul]

namespace Scaled

/-! ## Canonical scaled forms -/

/-- The scaled forms of positive finite doubles: a full mantissa, or the least exponent. -/
structure Canonical (s : Scaled) : Prop where
  pos : 0 < s.mantissa
  lt : s.mantissa < 2 ^ 53
  least : -1074 ≤ s.exponent
  most : s.exponent ≤ 971
  full : 2 ^ 52 ≤ s.mantissa ∨ s.exponent = -1074

/-- The bit pattern of a magnitude is linear in its mantissa and its exponent. -/
theorem magnitudeBits_eq (x : Float) :
    magnitudeBits x = ((ofFloat x).exponent + 1074).toNat * 2 ^ 52 + (ofFloat x).mantissa := by
  unfold magnitudeBits ofFloat
  simp only [twoTo_eq]
  have hlt : x.toBits.toNat < 2 ^ 64 := x.toBits.toNat_lt
  split <;> omega

theorem canonical_ofFloat {x : Float} (hx : x.isFinite = true) (hm : (ofFloat x).mantissa ≠ 0) :
    (ofFloat x).Canonical := by
  have hbits := (Bits.isFinite_iff x).mp hx
  unfold infinityBits magnitudeBits at hbits
  unfold ofFloat at hm ⊢
  simp only [twoTo_eq] at hm hbits ⊢
  by_cases hz : x.toBits.toNat / 2 ^ 52 % 2048 = 0
  · rw [if_pos hz] at hm ⊢
    constructor <;> simp only <;> omega
  · rw [if_neg hz] at hm ⊢
    constructor <;> simp only <;> omega

/-! ## Rounding to a natural number -/

/-- The nearest natural number, and in a tie the even one. -/
theorem roundDiv_eq {num den m : Nat} (hden : 0 < den) (hlow : 2 * (m * den) ≤ 2 * num + den)
    (hhigh : 2 * num ≤ 2 * (m * den) + den)
    (hodd : m % 2 = 1 → 2 * (m * den) < 2 * num + den ∧ 2 * num < 2 * (m * den) + den) :
    roundDiv num den = m := by
  have hnum := Nat.div_add_mod' num den
  have hrest := Nat.mod_lt num hden
  unfold roundDiv
  generalize num / den = quotient at *
  generalize num % den = rest at *
  have hle : quotient ≤ m := by
    by_contra hlt
    have := Nat.mul_le_mul_right den (Nat.lt_of_not_le hlt)
    rw [Nat.succ_mul] at this
    omega
  have hge : m ≤ quotient + 1 := by
    by_contra hlt
    have := Nat.mul_le_mul_right den (Nat.lt_of_not_le hlt)
    rw [Nat.succ_mul, Nat.succ_mul] at this
    omega
  obtain rfl | rfl : m = quotient ∨ m = quotient + 1 := by omega
  · dsimp only
    split_ifs <;> omega
  · have hsucc : (quotient + 1) * den = quotient * den + den := Nat.succ_mul ..
    dsimp only
    split_ifs <;> omega

/-- The same over the rational numbers. -/
theorem roundDiv_eq_of_rat {num den m : Nat} (hden : 0 < den)
    (hlow : (m : ℚ) - 1 / 2 ≤ num / den) (hhigh : (num : ℚ) / den ≤ m + 1 / 2)
    (hodd : m % 2 = 1 → (m : ℚ) - 1 / 2 < num / den ∧ (num : ℚ) / den < m + 1 / 2) :
    roundDiv num den = m := by
  have hd : (0 : ℚ) < den := by exact_mod_cast hden
  rw [le_div_iff₀ hd] at hlow
  rw [div_le_iff₀ hd] at hhigh
  rw [lt_div_iff₀ hd, div_lt_iff₀ hd] at hodd
  apply roundDiv_eq hden
  · have : (2 * (m * den) : ℚ) ≤ 2 * num + den := by linarith
    exact_mod_cast this
  · have : (2 * num : ℚ) ≤ 2 * (m * den) + den := by linarith
    exact_mod_cast this
  · intro hm
    obtain ⟨hl, hh⟩ := hodd hm
    constructor
    · have : (2 * (m * den) : ℚ) < 2 * num + den := by linarith
      exact_mod_cast this
    · have : (2 * num : ℚ) < 2 * (m * den) + den := by linarith
      exact_mod_cast this

/-! ## The place that a quotient is rounded at -/

/-- A quotient over the unit `2 ^ place`. -/
theorem shifted_quotient (num den : Nat) (place : Int) :
    ((num <<< (-place).toNat : Nat) : ℚ) / (den <<< place.toNat : Nat) =
      num / den / 2 ^ place := by
  have hp : (2 : ℚ) ^ place = 2 ^ place.toNat / 2 ^ (-place).toNat := by
    rw [← zpow_natCast, ← zpow_natCast, ← zpow_sub₀ two_ne_zero]
    congr 1
    omega
  rw [Nat.shiftLeft_eq, Nat.shiftLeft_eq, hp]
  push_cast
  rw [div_div_div_eq]

theorem log2_bounds {n : Nat} (hn : 0 < n) :
    (2 : ℚ) ^ (n.log2 : Int) ≤ n ∧ (n : ℚ) < 2 ^ ((n.log2 : Int) + 1) := by
  constructor
  · rw [zpow_natCast]
    exact_mod_cast Nat.log2_self_le (Nat.ne_of_gt hn)
  · have h : n < 2 ^ (n.log2 + 1) := Nat.lt_log2_self
    rw [← Nat.cast_succ, zpow_natCast]
    exact_mod_cast h

/-- The difference of the logarithms tells the binary exponent of a quotient up to one. -/
theorem quotient_bounds {num den : Nat} (hnum : 0 < num) (hden : 0 < den) :
    (2 : ℚ) ^ ((num.log2 : Int) - den.log2 - 1) ≤ num / den ∧
      (num : ℚ) / den < 2 ^ ((num.log2 : Int) - den.log2 + 1) := by
  obtain ⟨hnl, hnh⟩ := log2_bounds hnum
  obtain ⟨hdl, hdh⟩ := log2_bounds hden
  have hd : (0 : ℚ) < den := by exact_mod_cast hden
  have hpos (k : Int) : (0 : ℚ) < 2 ^ k := by positivity
  constructor
  · rw [le_div_iff₀ hd]
    calc (2 : ℚ) ^ ((num.log2 : Int) - den.log2 - 1) * den
        ≤ 2 ^ ((num.log2 : Int) - den.log2 - 1) * 2 ^ ((den.log2 : Int) + 1) :=
          mul_le_mul_of_nonneg_left hdh.le (hpos _).le
      _ = 2 ^ (num.log2 : Int) := by
          rw [← zpow_add₀ two_ne_zero]
          congr 1
          omega
      _ ≤ num := hnl
  · rw [div_lt_iff₀ hd]
    calc (num : ℚ) < 2 ^ ((num.log2 : Int) + 1) := hnh
      _ = 2 ^ ((num.log2 : Int) - den.log2 + 1) * 2 ^ (den.log2 : Int) := by
          rw [← zpow_add₀ two_ne_zero]
          congr 1
          omega
      _ ≤ 2 ^ ((num.log2 : Int) - den.log2 + 1) * den :=
          mul_le_mul_of_nonneg_left hdl (hpos _).le

/-- Without the bound of the subnormals, the last place leaves a mantissa of 53 bits. -/
theorem lastPlace_spec {num den : Nat} (hnum : 0 < num) (hden : 0 < den) :
    ∃ place, lastPlace num den = max place (-1074) ∧ (2 : ℚ) ^ (place + 52) ≤ num / den ∧
      (num : ℚ) / den < 2 ^ (place + 53) := by
  obtain ⟨hlow, hhigh⟩ := quotient_bounds hnum hden
  have hshort (place : Int) :
      num <<< (-place).toNat < twoTo 53 * (den <<< place.toNat) ↔
        (num : ℚ) / den < 2 ^ (place + 53) := by
    have hpos : (0 : ℚ) < (den <<< place.toNat : Nat) := by
      rw [Nat.shiftLeft_eq]
      positivity
    rw [zpow_add₀ two_ne_zero, ← div_lt_iff₀' (by positivity), ← shifted_quotient,
      div_lt_iff₀ hpos, ← @Nat.cast_lt ℚ, twoTo_eq]
    push_cast
    rfl
  unfold lastPlace
  dsimp only
  split
  next h =>
    refine ⟨_, rfl, (le_of_eq ?_).trans hlow, (hshort _).mp h⟩
    congr 1
    omega
  next h =>
    rw [hshort, not_lt] at h
    refine ⟨_, rfl, (le_of_eq ?_).trans h, hhigh.trans_le (le_of_eq ?_)⟩
    · congr 1
      omega
    · congr 1
      omega

/-- The last place is the exponent of the binade of the quotient, or that of the subnormals. -/
theorem lastPlace_eq {num den : Nat} (hnum : 0 < num) (hden : 0 < den) {e : Int}
    (hleast : -1074 ≤ e) (hlow : e = -1074 ∨ (2 : ℚ) ^ (e + 52) ≤ num / den)
    (hhigh : (num : ℚ) / den < 2 ^ (e + 53)) : lastPlace num den = e := by
  obtain ⟨place, heq, hl, hh⟩ := lastPlace_spec hnum hden
  have hle : place + 52 < e + 53 :=
    (zpow_lt_zpow_iff_right₀ one_lt_two).mp (lt_of_le_of_lt hl hhigh)
  rw [heq]
  rcases hlow with rfl | hlow
  · omega
  · have hge : e + 52 < place + 53 :=
      (zpow_lt_zpow_iff_right₀ one_lt_two).mp (lt_of_le_of_lt hlow hh)
    omega

/-- A positive quotient is rounded on the grid of its last place. -/
theorem nearest_eq_of_lastPlace {x : Float} (hx : x.isFinite = true) (hs : signBit x = false)
    {num den : Nat} (hnum : 0 < num) (place : Int) (mantissa : Nat)
    (hplace : lastPlace num den = place)
    (hround : roundDiv (num <<< (-place).toNat) (den <<< place.toNat) = mantissa)
    (hbits : (place + 1074).toNat * 2 ^ 52 + mantissa = magnitudeBits x) :
    nearest false num den = x := by
  have hlt := (Bits.isFinite_iff x).mp hx
  have hmin : min (magnitudeBits x) infinityBits = magnitudeBits x := by omega
  unfold nearest leastExponent
  simp only [if_neg (Nat.ne_of_gt hnum), hplace, hround, twoTo_eq, sub_neg_eq_add, hbits, hmin,
    Bool.false_eq_true, ↓reduceIte, Nat.add_zero]
  rw [← Bits.toNat_toBits_of_positive hs, UInt64.ofNat_toNat, Bits.ofBits_toBits]

/-- Rounding a magnitude leaves the sign bit clear. -/
theorem signBit_nearest (num den : Nat) : signBit (nearest false num den) = false := by
  unfold nearest
  generalize hm : (if num = 0 then 0 else _ : Nat) = magnitude
  have hle : magnitude ≤ infinityBits := by
    subst hm
    split
    · exact Nat.zero_le _
    · exact Nat.min_le_right _ _
  have hword : (UInt64.ofNat magnitude).toNat = magnitude := by
    rw [UInt64.toNat_ofNat', Nat.mod_eq_of_lt]
    exact Nat.lt_of_le_of_lt hle (by decide)
  have hlt : magnitude < 2 ^ 63 := Nat.lt_of_le_of_lt hle (by decide)
  unfold signBit
  simp only [Bool.false_eq_true, ↓reduceIte, Nat.add_zero]
  rw [Bits.toBits_ofBits (by rw [hword]; exact Nat.le_trans (Nat.mod_le _ _) hle), hword,
    decide_eq_false_iff_not, Nat.not_le]
  exact hlt

end Scaled

namespace Shortest

open Scaled

/-! ## The quotients that belong to a double -/

/-- The quotient `q` rounds to the double of the basin. -/
def Basin.Holds (b : Basin) (q : ℚ) : Prop :=
  if b.closed then b.low * 2 ^ b.place ≤ q ∧ q ≤ b.high * 2 ^ b.place
  else b.low * 2 ^ b.place < q ∧ q < b.high * 2 ^ b.place

theorem Basin.Holds.bounds {b : Basin} {q : ℚ} (h : b.Holds q) :
    b.low * 2 ^ b.place ≤ q ∧ q ≤ b.high * 2 ^ b.place := by
  unfold Holds at h
  split at h
  · exact h
  · exact ⟨h.1.le, h.2.le⟩

theorem Basin.Holds.strict {b : Basin} {q : ℚ} (h : b.Holds q) (hc : b.closed = false) :
    b.low * 2 ^ b.place < q ∧ q < b.high * 2 ^ b.place := by
  unfold Holds at h
  rwa [hc, if_neg Bool.false_ne_true] at h

/-- How far the basin reaches below a double, in units of its last place: half of it, or a quarter
where the double is the lowest of its binade and the next one below is on a finer grid. -/
def reach (s : Scaled) : ℚ :=
  if s.mantissa = 2 ^ 52 ∧ -1074 < s.exponent then 1 / 4 else 1 / 2

theorem zpow_place (s : Scaled) (quarters : ℚ) :
    quarters * 2 ^ (Basin.ofScaled s).place = quarters / 4 * 2 ^ s.exponent := by
  show quarters * 2 ^ (s.exponent - 2) = _
  rw [zpow_sub₀ two_ne_zero, zpow_ofNat]
  linarith

theorem low_ofScaled {s : Scaled} (hs : 0 < s.mantissa) :
    (Basin.ofScaled s).low * (2 : ℚ) ^ (Basin.ofScaled s).place =
      (s.mantissa - reach s) * 2 ^ s.exponent := by
  rw [zpow_place]
  congr 1
  unfold Basin.ofScaled reach leastExponent
  simp only [twoTo_eq, Bool.and_eq_true, beq_iff_eq, decide_eq_true_eq]
  split
  · rw [Nat.cast_sub (by omega)]
    push_cast
    linarith
  · rw [Nat.cast_sub (by omega)]
    push_cast
    linarith

theorem value_ofScaled (s : Scaled) :
    (Basin.ofScaled s).value * (2 : ℚ) ^ (Basin.ofScaled s).place =
      s.mantissa * 2 ^ s.exponent := by
  rw [zpow_place]
  congr 1
  unfold Basin.ofScaled
  push_cast
  linarith

theorem high_ofScaled (s : Scaled) :
    (Basin.ofScaled s).high * (2 : ℚ) ^ (Basin.ofScaled s).place =
      (s.mantissa + 1 / 2) * 2 ^ s.exponent := by
  rw [zpow_place]
  congr 1
  unfold Basin.ofScaled
  push_cast
  linarith

/-- The quotients of the basin lie within the reach of the mantissa, and not at its ends where the
mantissa is odd. -/
theorem Basin.Holds.scaled {s : Scaled} (hs : 0 < s.mantissa) {q : ℚ}
    (h : (Basin.ofScaled s).Holds q) :
    s.mantissa - reach s ≤ q / 2 ^ s.exponent ∧ q / 2 ^ s.exponent ≤ s.mantissa + 1 / 2 ∧
      (s.mantissa % 2 = 1 →
        s.mantissa - reach s < q / 2 ^ s.exponent ∧ q / 2 ^ s.exponent < s.mantissa + 1 / 2) := by
  have hu : (0 : ℚ) < 2 ^ s.exponent := by positivity
  rw [le_div_iff₀ hu, div_le_iff₀ hu, lt_div_iff₀ hu, div_lt_iff₀ hu, ← low_ofScaled hs,
    ← high_ofScaled]
  refine ⟨h.bounds.1, h.bounds.2, fun hodd => h.strict ?_⟩
  show (s.mantissa % 2 == 0) = false
  rw [hodd]
  rfl

theorem reach_le (s : Scaled) : reach s ≤ 1 / 2 := by
  unfold reach
  split <;> norm_num

/-- A power of two times a quotient in units of a last place. -/
theorem zpow_add_le_iff (e k : Int) (t : ℚ) :
    (2 : ℚ) ^ (e + k) ≤ t * 2 ^ e ↔ (2 : ℚ) ^ k ≤ t := by
  rw [zpow_add₀ two_ne_zero, mul_comm]
  exact mul_le_mul_iff_left₀ (by positivity)

section Grids

variable {x : Float} {s : Scaled} {num den : Nat}

theorem shifted_den_pos (hden : 0 < den) (place : Int) : 0 < den <<< place.toNat := by
  rw [Nat.shiftLeft_eq]
  positivity

theorem quotient_eq_scaled (s : Scaled) (q : ℚ) : q = q / 2 ^ s.exponent * 2 ^ s.exponent := by
  rw [div_mul_cancel₀ _ (by positivity)]

/-- Just below a power of two a quotient is rounded one place further down, and carries. -/
theorem nearest_eq_of_carry (hx : x.isFinite = true) (hs : signBit x = false)
    (hbits : magnitudeBits x = (s.exponent + 1074).toNat * 2 ^ 52 + s.mantissa)
    (hlowest : s.mantissa = 2 ^ 52 ∧ -1074 < s.exponent) (hnum : 0 < num) (hden : 0 < den)
    (hlow : (2 : ℚ) ^ 52 - 1 / 4 ≤ num / den / 2 ^ s.exponent)
    (hbelow : (num : ℚ) / den / 2 ^ s.exponent < 2 ^ 52) : nearest false num den = x := by
  have hq := quotient_eq_scaled s ((num : ℚ) / den)
  have htwice : (num : ℚ) / den / 2 ^ (s.exponent - 1) = 2 * (num / den / 2 ^ s.exponent) := by
    rw [zpow_sub_one₀ two_ne_zero, div_mul_eq_div_div, div_inv_eq_mul, mul_comm]
  generalize (num : ℚ) / den / 2 ^ s.exponent = t at *
  apply nearest_eq_of_lastPlace hx hs hnum (s.exponent - 1) (2 ^ 53)
  · apply lastPlace_eq hnum hden (by omega)
    · right
      have hexp : s.exponent - 1 + 52 = s.exponent + 51 := by omega
      rw [hq, hexp, zpow_add_le_iff, zpow_ofNat]
      linarith
    · have hexp : s.exponent - 1 + 53 = s.exponent + 52 := by omega
      rw [hq, hexp, ← not_le, zpow_add_le_iff, not_le]
      rwa [zpow_ofNat]
  · apply roundDiv_eq_of_rat (shifted_den_pos hden _)
    · rw [shifted_quotient, htwice]
      push_cast
      linarith
    · rw [shifted_quotient, htwice]
      push_cast
      linarith
    · intro hmod
      norm_num at hmod
  · rw [hbits, hlowest.1]
    omega

/-- Everywhere else it is rounded on the grid of the double itself. -/
theorem nearest_eq_of_grid (hx : x.isFinite = true) (hs : signBit x = false)
    (hbits : magnitudeBits x = (s.exponent + 1074).toNat * 2 ^ 52 + s.mantissa)
    (hcan : s.Canonical) (hnum : 0 < num) (hden : 0 < den)
    (hfull : s.exponent = -1074 ∨ (2 : ℚ) ^ 52 ≤ num / den / 2 ^ s.exponent)
    (hlow : (s.mantissa : ℚ) - 1 / 2 ≤ num / den / 2 ^ s.exponent)
    (hhigh : (num : ℚ) / den / 2 ^ s.exponent ≤ s.mantissa + 1 / 2)
    (hodd : s.mantissa % 2 = 1 → (s.mantissa : ℚ) - 1 / 2 < num / den / 2 ^ s.exponent ∧
      (num : ℚ) / den / 2 ^ s.exponent < s.mantissa + 1 / 2) : nearest false num den = x := by
  have hq := quotient_eq_scaled s ((num : ℚ) / den)
  generalize ht : (num : ℚ) / den / 2 ^ s.exponent = t at *
  apply nearest_eq_of_lastPlace hx hs hnum s.exponent s.mantissa
  · apply lastPlace_eq hnum hden hcan.least
    · rcases hfull with he | hfull
      · exact .inl he
      · right
        rwa [hq, zpow_add_le_iff, zpow_ofNat]
    · rw [hq, ← not_le, zpow_add_le_iff, not_le, zpow_ofNat]
      have : (s.mantissa : ℚ) + 1 ≤ 2 ^ 53 := by exact_mod_cast hcan.lt
      linarith
  · apply roundDiv_eq_of_rat (shifted_den_pos hden _)
    · rwa [shifted_quotient, ht]
    · rwa [shifted_quotient, ht]
    · rwa [shifted_quotient, ht]
  · exact hbits.symm

end Grids

/-- Rounding gives a double back from every quotient of its basin. -/
theorem nearest_eq_of_holds {x : Float} (hx : x.isFinite = true) (hs : signBit x = false)
    (hm : (ofFloat x).mantissa ≠ 0) {num den : Nat} (hnum : 0 < num) (hden : 0 < den)
    (h : (Basin.ofScaled (ofFloat x)).Holds (num / den)) : nearest false num den = x := by
  have hcan := canonical_ofFloat hx hm
  have hbits := magnitudeBits_eq x
  generalize ofFloat x = s at *
  obtain ⟨hlow, hhigh, hodd⟩ := h.scaled hcan.pos
  have hreach := reach_le s
  by_cases hfine : (s.mantissa = 2 ^ 52 ∧ -1074 < s.exponent) ∧
      (num : ℚ) / den / 2 ^ s.exponent < 2 ^ 52
  · obtain ⟨hlowest, hbelow⟩ := hfine
    rw [reach, if_pos hlowest, hlowest.1] at hlow
    push_cast at hlow
    exact nearest_eq_of_carry hx hs hbits hlowest hnum hden hlow hbelow
  · refine nearest_eq_of_grid hx hs hbits hcan hnum hden ?_ (by linarith) hhigh ?_
    · by_cases he : s.exponent = -1074
      · exact .inl he
      · right
        have hfull : 2 ^ 52 ≤ s.mantissa := hcan.full.resolve_right he
        have hleast := hcan.least
        by_cases hlowest : s.mantissa = 2 ^ 52
        · exact not_lt.mp fun hbelow => hfine ⟨⟨hlowest, by omega⟩, hbelow⟩
        · have : ((2 ^ 52 + 1 : Nat) : ℚ) ≤ s.mantissa := by exact_mod_cast (by omega)
          push_cast at this
          linarith
    · intro hmod
      obtain ⟨hl, hh⟩ := hodd hmod
      exact ⟨by linarith, hh⟩

end Shortest
end Isotherm
