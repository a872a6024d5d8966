import Isotherm.Proofs.Number.Products
import Isotherm.Symbolic.Amount

/-!
# Doubles without a fraction

A finite double that cutting off its fraction does not change is an integer. Its rational number is
the integer that it is read as, however large it is.
-/

namespace Isotherm

namespace Bits

open Float.Model Float.Model.UnpackedFloat

theorem sign_of_negative {x : Float} (h : signBit x = true) : sign x = .negative := by
  have hle : 2 ^ 63 ≤ (word x).toNat := of_decide_eq_true h
  have hlt : (word x).toNat < 2 ^ 64 := (word x).isLt
  have hfield : unpackSign (word x) = 1#1 := by
    apply BitVec.eq_of_toNat_eq
    rw [toNat_unpackSign]
    show (word x).toNat / 2 ^ 63 = 1
    omega
  unfold sign
  rw [hfield]
  rfl

theorem signBit_of_sign_eq {x y : Float} (h : sign x = sign y) : signBit x = signBit y := by
  cases hx : signBit x <;> cases hy : signBit y
  · rfl
  · cases (sign_of_positive hx).symm.trans (h.trans (sign_of_negative hy))
  · cases (sign_of_negative hx).symm.trans (h.trans (sign_of_positive hy))
  · rfl

theorem parts_of_compare_finite {s s' : Sign} {m m' : Nat} {e e' : Int} {hm : 0 < m} {hm' : 0 < m'}
    (h : (finite s m e hm).compare (finite s' m' e' hm') = some .eq) :
    s = s' ∧ m = m' ∧ e = e' := by
  cases s <;> cases s' <;> simp_all [UnpackedFloat.compare, Ordering.then_eq_eq]

/-- Equal doubles that are finite are both zero, or they are the same double. -/
theorem ofFloat_of_beq {x y : Float} (hx : x.isFinite = true) (hy : y.isFinite = true)
    (h : (x == y) = true) :
    (Scaled.ofFloat x).mantissa = 0 ∧ (Scaled.ofFloat y).mantissa = 0 ∨
      Scaled.ofFloat x = Scaled.ofFloat y := by
  rw [beq_iff] at h
  obtain ⟨hux, hmx⟩ | ⟨hmx, hux⟩ := unpack_word hx <;>
    obtain ⟨huy, hmy⟩ | ⟨hmy, huy⟩ := unpack_word hy <;>
    rw [hux, huy] at h
  · exact .inl ⟨hmx, hmy⟩
  · cases hs : sign y <;> rw [hs] at h <;> cases h
  · cases hs : sign x <;> rw [hs] at h <;> cases h
  · obtain ⟨hsign, hmantissa, hexponent⟩ := parts_of_compare_finite h
    right
    show Scaled.mk (signBit x) (Scaled.ofFloat x).mantissa (Scaled.ofFloat x).exponent =
      Scaled.mk (signBit y) (Scaled.ofFloat y).mantissa (Scaled.ofFloat y).exponent
    rw [signBit_of_sign_eq hsign, hmantissa, hexponent]

theorem beq_zero_iff {x : Float} (hx : x.isFinite = true) :
    (x == 0.0) = true ↔ (Scaled.ofFloat x).mantissa = 0 := by
  constructor
  · intro h
    obtain ⟨hm, -⟩ | hsame := ofFloat_of_beq hx (by decide +kernel) h
    · exact hm
    · rw [hsame]
      decide +kernel
  · intro hm
    rw [beq_iff]
    obtain ⟨hux, -⟩ | ⟨hpos, -⟩ := unpack_word hx
    · rw [hux]
      rfl
    · exact absurd hm hpos.ne'

end Bits

namespace Scaled

theorem mantissa_nearest_zero (negative : Bool) :
    (ofFloat (nearest negative 0 1)).mantissa = 0 := by
  cases negative <;> decide +kernel

/-- The magnitude of a natural number that is a double. -/
theorem ofMagnitude_magnitude (negative : Bool) {k : Nat} (h : k < 2 ^ 53) :
    ((ofMagnitude negative k).mantissa : ℚ) * 2 ^ (ofMagnitude negative k).exponent = k := by
  have hlog := log2_le_of_lt h
  have hplaces : ((52 - k.log2 : ℕ) : ℤ) + ((k.log2 : ℤ) - 52) = 0 := by omega
  simp only [ofMagnitude, Nat.cast_mul, Nat.cast_pow, Nat.cast_ofNat]
  rw [← zpow_natCast, mul_assoc, ← zpow_add₀ two_ne_zero, hplaces, zpow_zero, mul_one]

end Scaled

namespace Integral

open Scaled

/-- Finite, without a fraction. -/
def IsWhole (v : Float) : Prop :=
  v.isFinite = true ∧ (truncate v == v) = true

instance (v : Float) : Decidable (IsWhole v) :=
  inferInstanceAs (Decidable (_ ∧ _))

theorem IsWhole.floorMagnitude_eq {v : Float} (h : IsWhole v) :
    ((ofFloat v).floorMagnitude : ℚ) = (ofFloat v).mantissa * 2 ^ (ofFloat v).exponent := by
  obtain ⟨hfinite, htruncate⟩ := h
  by_cases hexponent : 0 ≤ (ofFloat v).exponent
  · exact floorMagnitude_of_integer hexponent
  · have hlt : (ofFloat v).floorMagnitude < 2 ^ 53 :=
      (floorMagnitude_lt hfinite hexponent).trans (by decide)
    rw [truncate_eq_nearest hfinite hexponent] at htruncate
    by_cases hmantissa : (ofFloat v).mantissa = 0
    · simp [floorMagnitude, hmantissa]
    · obtain ⟨-, hzero⟩ | hsame :=
        Bits.ofFloat_of_beq (isFinite_nearest_one _ hlt) hfinite htruncate
      · exact absurd hzero hmantissa
      · have hpos : 0 < (ofFloat v).floorMagnitude := by
          refine Nat.pos_of_ne_zero fun hfloor => hmantissa ?_
          rw [hfloor] at hsame
          rw [← hsame, mantissa_nearest_zero]
        rw [ofFloat_nearest_one _ hpos hlt] at hsame
        have hmagnitude := ofMagnitude_magnitude (signBit v) hlt
        rw [hsame] at hmagnitude
        exact hmagnitude.symm

/-- A double without a fraction is the integer that it is read as. -/
theorem IsWhole.rational_eq {v : Float} (h : IsWhole v) : Amount.rational v = value v := by
  simp only [Amount.rational, value, toInt, ← h.floorMagnitude_eq]
  cases (ofFloat v).negative <;> simp

end Integral
end Isotherm
