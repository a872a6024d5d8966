import Isotherm.Proofs.Colour.Buckets
import Isotherm.Proofs.Number.Signed

/-!
# Buckets on both sides of zero

In the band the bucket of a residual is an odd function that never decreases. Multiplying by the
number of buckets rounds, but it rounds both signs alike and keeps the order; cutting off the
fraction and moving the result into range do the same. So opposite residuals have the colours of one
another with red and blue exchanged.
-/

namespace Isotherm

/-- The colour with its red and blue channels exchanged. -/
def Colour.exchanged (c : Colour) : Colour := ⟨c.blue, c.green, c.red⟩

namespace Heat

/-- Residuals that have no bucket. -/
def OutsideBand (residual : Float) : Prop :=
  residual.isFinite = false ∨ 1.0 ≤ residual.abs

theorem inBand_eq_false_iff (residual : Float) :
    Raster.inBand residual = false ↔ OutsideBand residual := by
  unfold OutsideBand
  rw [← Bool.not_eq_true, Raster.inBand_iff]
  cases hfinite : residual.isFinite with
  | false => simp
  | true =>
    rw [one_le_abs_iff hfinite]
    simp

theorem inBand_neg (residual : Float) : Raster.inBand (-residual) = Raster.inBand residual := by
  rw [Bool.eq_iff_iff, Raster.inBand_iff, Raster.inBand_iff, Bits.isFinite_neg]
  exact and_congr_right fun h => by rw [Bits.magnitudeBits_neg h]

/-! ## Multiples -/

section Multiples

variable {count : Int} (hlow : 1 ≤ count) (hhigh : count ≤ 2 ^ 53) {residual : Float}

include hlow in
theorem signBit_ofInt : signBit (Integral.ofInt count) = false := by
  rw [Integral.ofInt, Scaled.signBit_nearest_eq, decide_eq_false_iff_not]
  omega

include hlow hhigh

theorem isFinite_multiple (h : Raster.inBand residual = true) :
    (residual * Integral.ofInt count).isFinite = true := by
  have hresidual := exponent_of_inBand h
  obtain ⟨hcount, hexponent⟩ := exponent_ofInt hlow hhigh
  exact (Bits.exponent_mul_le ((Raster.inBand_iff residual).mp h).1 hcount (k := 10) (by omega)
    (by decide) (by decide)).1

theorem bucketInBand_neg (h : Raster.inBand residual = true) :
    bucketInBand count (-residual) = -bucketInBand count residual := by
  obtain ⟨hcount, -⟩ := exponent_ofInt hlow hhigh
  have hproduct := isFinite_multiple hlow hhigh h
  unfold bucketInBand
  rw [Bits.neg_mul ((Raster.inBand_iff residual).mp h).1 hcount hproduct,
    Integral.value_neg hproduct]
  unfold clamp
  omega

/-- A larger residual has no smaller a bucket. -/
theorem bucketInBand_mono {residual' : Float} (h : Raster.inBand residual = true)
    (h' : Raster.inBand residual' = true) (hle : residual ≤ residual') :
    bucketInBand count residual ≤ bucketInBand count residual' := by
  obtain ⟨hcount, -⟩ := exponent_ofInt hlow hhigh
  have hproduct := isFinite_multiple hlow hhigh h
  have hproduct' := isFinite_multiple hlow hhigh h'
  have hmultiple := Bits.mul_le_mul_right ((Raster.inBand_iff residual).mp h).1 hcount
    ((Raster.inBand_iff residual').mp h').1 (signBit_ofInt hlow) hproduct hproduct' hle
  have hvalue := Integral.value_mono hproduct hproduct' hmultiple
  unfold bucketInBand clamp
  omega

theorem bucket?_neg (residual : Float) :
    bucket? count (-residual) = (bucket? count residual).map fun bucket => -bucket := by
  rw [bucket?_eq, bucket?_eq, inBand_neg]
  by_cases h : Raster.inBand residual = true
  · rw [if_pos h, if_pos h, bucketInBand_neg hlow hhigh h]
    rfl
  · rw [if_neg h, if_neg h]
    rfl

end Multiples

/-! ## Colours -/

theorem fade_neg (count bucket : Int) : fade count (-bucket) = fade count bucket := by
  unfold fade share
  rw [Int.natAbs_neg]

theorem ofBucket_neg (count bucket : Int) :
    ofBucket count (-bucket) = (ofBucket count bucket).exchanged := by
  unfold ofBucket
  rw [fade_neg]
  rcases lt_trichotomy bucket 0 with h | rfl | h
  · rw [if_neg (by omega), if_pos (by omega), if_neg (by omega), if_neg (by omega)]
    rfl
  · rfl
  · rw [if_neg (by omega), if_neg (by omega), if_neg (by omega), if_pos h]
    rfl

theorem colour?_neg {count : Int} (hlow : 1 ≤ count) (hhigh : count ≤ 2 ^ 53) (residual : Float) :
    colour? count (-residual) = (colour? count residual).map Colour.exchanged := by
  unfold colour?
  rw [bucket?_neg hlow hhigh, Option.map_map, Option.map_map]
  exact congrArg (Option.map · _) (funext (ofBucket_neg count))

/-- For any number of buckets that is a double, exactly the residuals of the band have a bucket. It
is in range, the opposite residual has the opposite bucket, and a larger one no smaller a bucket. The
colours of opposite residuals are one another's with red and blue exchanged. -/
theorem buckets_odd_and_ordered {count : Int} (hlow : 1 ≤ count) (hhigh : count ≤ 2 ^ 53)
    (residual : Float) :
    (checkedBucket count residual = .ok none ↔ OutsideBand residual) ∧
      (¬OutsideBand residual → ∃ bucket,
        checkedBucket count residual = .ok (some bucket) ∧
        -(count - 1) ≤ bucket ∧ bucket ≤ count - 1 ∧
        checkedBucket count (-residual) = .ok (some (-bucket)) ∧
        ∀ residual' bucket', residual ≤ residual' →
          checkedBucket count residual' = .ok (some bucket') → bucket ≤ bucket') ∧
      ∃ colour, checkedResidualColour count residual = .ok colour ∧
        checkedResidualColour count (-residual) = .ok (colour.map Colour.exchanged) := by
  have hbucket (r : Float) : checkedBucket count r = .ok (bucket? count r) :=
    checkedBucket_of_held hlow hhigh r
  refine ⟨?_, fun hinside => ?_, colour? count residual, ?_, ?_⟩
  · rw [hbucket, bucket?_eq, ← inBand_eq_false_iff]
    cases Raster.inBand residual <;> simp
  · have hband : Raster.inBand residual = true := by
      rwa [← inBand_eq_false_iff, Bool.not_eq_false] at hinside
    have hsome : bucket? count residual = some (bucketInBand count residual) := by
      rw [bucket?_eq, if_pos hband]
    obtain ⟨hleast, hmost⟩ := clamp_mem hlow (Integral.value (residual * Integral.ofInt count))
    refine ⟨bucketInBand count residual, by rw [hbucket, hsome], hleast, hmost, ?_, ?_⟩
    · rw [hbucket, bucket?_neg hlow hhigh, hsome]
      rfl
    · intro residual' bucket' hle h'
      rw [hbucket, Except.ok.injEq, bucket?_eq, Option.ite_none_right_eq_some] at h'
      obtain ⟨hband', heq⟩ := h'
      rw [← Option.some.inj heq]
      exact bucketInBand_mono hlow hhigh hband hband' hle
  · exact checkedResidualColour_of_held hlow hhigh residual
  · rw [← colour?_neg hlow hhigh]
    exact checkedResidualColour_of_held hlow hhigh (-residual)

/-- With eight buckets on each side, `-0.3` has the bucket opposite to that of `0.3`. -/
theorem buckets_odd_and_ordered_eight :
    (1 : Int) ≤ 8 ∧ (8 : Int) ≤ 2 ^ 53 ∧ checkedBucket 8 0.3 = .ok (some 2) ∧
      checkedBucket 8 (-0.3) = .ok (some (-2)) := by
  have hinside : ¬OutsideBand 0.3 := by
    rw [← inBand_eq_false_iff]
    decide +kernel
  obtain ⟨bucket, hbucket, -, -, hopposite, -⟩ :=
    (@buckets_odd_and_ordered 8 (by decide) (by decide) 0.3).2.1 hinside
  have htwo : checkedBucket 8 0.3 = .ok (some 2) := by decide +kernel
  rw [htwo] at hbucket
  cases hbucket
  exact ⟨by decide, by decide, htwo, hopposite⟩

end Heat
end Isotherm
