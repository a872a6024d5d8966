import Isotherm.Colour.Raster
import Isotherm.Proofs.Number.Products

/-!
# One residual, two ways to its colour

The colour of a residual is computed from its bucket, or looked up in a palette at an index that a
64-bit integer holds. The two agree as long as every integer up to the number of buckets is a double:
a residual in the band times that number stays far within the range of the integers.
-/

namespace Isotherm

/-- A colour whose channels are bytes. -/
structure Colour.IsBytes (c : Colour) : Prop where
  red : 0 ≤ c.red ∧ c.red ≤ 255
  green : 0 ≤ c.green ∧ c.green ≤ 255
  blue : 0 ≤ c.blue ∧ c.blue ≤ 255

/-! ## The band -/

theorem Bits.isFinite_eq_false_iff (x : Float) :
    x.isFinite = false ↔ x.isNaN = true ∨ x.isInf = true := by
  show (Float.Model.UnpackedFloat.unpack _ (word x)).isFinite = false ↔
    (Float.Model.UnpackedFloat.unpack _ (word x)).isNaN = true ∨
      (Float.Model.UnpackedFloat.unpack _ (word x)).isInf = true
  cases Float.Model.UnpackedFloat.unpack Float.Model.Format.binary64 (word x) <;>
    simp [Float.Model.UnpackedFloat.isFinite, Float.Model.UnpackedFloat.isNaN,
      Float.Model.UnpackedFloat.isInf]

/-- The bit pattern of one. -/
def oneBits : Nat := 1023 * 2 ^ 52

theorem magnitudeBits_one : magnitudeBits 1.0 = oneBits := by
  decide +kernel

theorem abs_lt_one_iff {x : Float} (hx : x.isFinite = true) :
    x.abs < 1.0 ↔ magnitudeBits x < oneBits := by
  rw [Bits.abs_lt_iff hx (by decide +kernel) (by decide +kernel), magnitudeBits_one]

theorem one_le_abs_iff {x : Float} (hx : x.isFinite = true) :
    1.0 ≤ x.abs ↔ oneBits ≤ magnitudeBits x := by
  rw [Bits.le_abs_iff hx (by decide +kernel) (by decide +kernel), magnitudeBits_one]

namespace Raster

theorem inBand_iff (residual : Float) :
    inBand residual = true ↔ residual.isFinite = true ∧ magnitudeBits residual < oneBits := by
  unfold inBand
  rw [Bool.and_eq_true, decide_eq_true_iff]
  exact and_congr_right abs_lt_one_iff

end Raster

namespace Heat

/-- Both ways leave out the same residuals. -/
theorem bucket?_eq (count : Int) (residual : Float) :
    bucket? count residual =
      if Raster.inBand residual then some (bucketInBand count residual) else none := by
  unfold bucket? Raster.inBand
  cases hfinite : residual.isFinite with
  | false => rfl
  | true =>
    have hone := one_le_abs_iff hfinite
    have hband := abs_lt_one_iff hfinite
    simp only [Bool.not_true, Bool.false_or, Bool.true_and, hone, hband]
    by_cases h : magnitudeBits residual < oneBits
    · simp [h]
    · simp [h]

theorem colour?_eq_none_iff (count : Int) (residual : Float) :
    colour? count residual = none ↔
      residual.isNaN = true ∨ residual.isInf = true ∨ 1.0 ≤ residual.abs := by
  unfold colour? bucket?
  rw [← or_assoc, ← Bits.isFinite_eq_false_iff]
  cases residual.isFinite <;> simp

/-! ## The bucket as a 64-bit integer -/

theorem exponent_of_inBand {residual : Float} (h : Raster.inBand residual = true) :
    (Scaled.ofFloat residual).exponent ≤ -52 := by
  have hlt := ((Raster.inBand_iff residual).mp h).2
  refine Scaled.exponent_le_of_bits_lt (by decide) (hlt.trans_le ?_)
  decide

/-- A number of buckets is a double of a small exponent. -/
theorem exponent_ofInt {count : Int} (hlow : 1 ≤ count) (hhigh : count ≤ 2 ^ 53) :
    (Integral.ofInt count).isFinite = true ∧
      (Scaled.ofFloat (Integral.ofInt count)).exponent ≤ 2 := by
  have hs : (⟨false, 2 ^ 52, 1⟩ : Scaled).Canonical := by
    constructor <;> decide
  have hle : (count.natAbs : ℚ) / (1 : Nat) ≤ (2 ^ 52 : Nat) * 2 ^ (1 : Int) := calc
    (count.natAbs : ℚ) / (1 : Nat) = count.natAbs := by rw [Nat.cast_one, div_one]
    _ ≤ (2 ^ 53 : Nat) := Nat.cast_le.mpr (by omega)
    _ = (2 ^ 52 : Nat) * 2 ^ (1 : Int) := by norm_num
  have hbits := Scaled.magnitudeBits_nearest_le hs (count < 0) Nat.one_pos hle
  refine ⟨Scaled.isFinite_of_bits_le hs hbits, ?_⟩
  refine Scaled.exponent_le_of_bits_lt (by decide) (hbits.trans_lt ?_)
  decide

/-- In the band, keeping the bucket as a 64-bit integer changes nothing. -/
theorem value_toInt64_mul {count : Int} (hlow : 1 ≤ count) (hhigh : count ≤ 2 ^ 53)
    {residual : Float} (h : Raster.inBand residual = true) :
    Integral.value (Integral.toInt64 (residual * Integral.ofInt count)) =
      Integral.value (residual * Integral.ofInt count) := by
  have hfinite := ((Raster.inBand_iff residual).mp h).1
  have hresidual := exponent_of_inBand h
  obtain ⟨hcount, hexponent⟩ := exponent_ofInt hlow hhigh
  -- `-52 + 2` and the places of a product: far below those of `2 ^ 63`
  obtain ⟨hproduct, hplace⟩ :=
    Bits.exponent_mul_le hfinite hcount (k := 10) (by omega) (by decide) (by decide)
  exact Integral.value_toInt64 hproduct hplace

theorem clamp_mem {count : Int} (h : 1 ≤ count) (bucket : Int) :
    -(count - 1) ≤ clamp count bucket ∧ clamp count bucket ≤ count - 1 := by
  unfold clamp
  omega

/-! ## Channels -/

section Share

variable {count bucket : Int}

theorem magnitude_ofMagnitude_255 : ((Scaled.ofMagnitude false 255).mantissa : ℚ) *
    2 ^ (Scaled.ofMagnitude false 255).exponent = (255 : Nat) := by
  have hlog : Nat.log2 255 = 7 := by decide
  unfold Scaled.ofMagnitude
  rw [hlog]
  norm_num

theorem canonical_ofMagnitude_255 : (Scaled.ofMagnitude false 255).Canonical :=
  Scaled.canonical_ofMagnitude false (by decide) (by decide)

/-- The share of a bucket in range is at most the whole way. -/
theorem magnitudeBits_share_le (hcount : count ≠ 1) (hlow : -(count - 1) ≤ bucket)
    (hhigh : bucket ≤ count - 1) :
    magnitudeBits (share count bucket) ≤ (Scaled.ofMagnitude false 255).bits := by
  have hden : 0 < (count - 1).natAbs := by omega
  have hle : ((255 * bucket.natAbs : Nat) : ℚ) / (count - 1).natAbs ≤
      (Scaled.ofMagnitude false 255).mantissa * 2 ^ (Scaled.ofMagnitude false 255).exponent := by
    rw [magnitude_ofMagnitude_255, div_le_iff₀ (by exact_mod_cast hden)]
    have hnat : 255 * bucket.natAbs ≤ 255 * (count - 1).natAbs :=
      Nat.mul_le_mul_left 255 (by omega)
    exact_mod_cast hnat
  exact Scaled.magnitudeBits_nearest_le canonical_ofMagnitude_255 false hden hle

theorem isFinite_share (hlow : -(count - 1) ≤ bucket) (hhigh : bucket ≤ count - 1) :
    (share count bucket).isFinite = true := by
  by_cases hcount : count = 1
  · -- the only bucket is zero, which has come no way
    subst hcount
    obtain rfl : bucket = 0 := by omega
    decide +kernel
  · exact Scaled.isFinite_of_bits_le canonical_ofMagnitude_255
      (magnitudeBits_share_le hcount hlow hhigh)

/-- What is left of the other colour fits a byte. -/
theorem fade_mem (hcount : count ≠ 1) (hlow : -(count - 1) ≤ bucket)
    (hhigh : bucket ≤ count - 1) : 0 ≤ fade count bucket ∧ fade count bucket ≤ 255 := by
  have hbits := magnitudeBits_share_le hcount hlow hhigh
  have hshare := Integral.value_roundEven_le (isFinite_share hlow hhigh)
    (Scaled.signBit_nearest _ _) (k := 255)
    ((Scaled.magnitude_ofFloat_le canonical_ofMagnitude_255 hbits).trans
      magnitude_ofMagnitude_255.le)
  unfold fade
  omega

/-- A bucket in range has a colour; it never divides by the number of buckets less one if that is
zero. -/
theorem checkedColour_eq (hlow : -(count - 1) ≤ bucket) (hhigh : bucket ≤ count - 1) :
    checkedColour count bucket = .ok (ofBucket count bucket) := by
  have hcount : ¬count < 1 := by omega
  have hsingle : ¬(bucket ≠ 0 ∧ count = 1) := by omega
  have hinf := Bits.not_isInf_of_isFinite (isFinite_share hlow hhigh)
  unfold checkedColour counted
  rw [if_neg hcount, if_neg hsingle, hinf]
  rfl

end Share

/-- The colours of buckets can be told in bytes. -/
theorem isBytes_ofBucket {count bucket : Int} (hlow : -(count - 1) ≤ bucket)
    (hhigh : bucket ≤ count - 1) : (ofBucket count bucket).IsBytes := by
  unfold ofBucket
  by_cases hzero : bucket = 0
  · rw [if_pos hzero]
    constructor <;> decide
  · obtain ⟨hleast, hmost⟩ := fade_mem (by omega) hlow hhigh
    rw [if_neg hzero]
    split <;> constructor <;> dsimp only <;> omega

theorem isBytes_colour? {count : Int} (hcount : 1 ≤ count) {residual : Float} {colour : Colour}
    (h : colour? count residual = some colour) : colour.IsBytes := by
  unfold colour? at h
  obtain ⟨bucket, hbucket, rfl⟩ := Option.map_eq_some_iff.mp h
  rw [bucket?_eq, Option.ite_none_right_eq_some] at hbucket
  obtain rfl := Option.some.inj hbucket.2
  obtain ⟨hleast, hmost⟩ := clamp_mem hcount (Integral.value (residual * Integral.ofInt count))
  exact isBytes_ofBucket hleast hmost

/-! ## Checked buckets -/

theorem counted_of_pos {α : Type} {count : Int} (h : 1 ≤ count) (value : α) :
    counted count value = .ok value := by
  unfold counted
  rw [if_neg (by omega)]

/-- A residual outside the band is never multiplied, and any other one has a bucket unless no double
holds the number of buckets. -/
theorem checkedBucket_eq {count : Int} (h : 1 ≤ count) (residual : Float) :
    checkedBucket count residual =
      if Raster.inBand residual && (Integral.ofInt count).isInf then .error .countOverflow
      else .ok (bucket? count residual) := by
  unfold checkedBucket
  rw [counted_of_pos h, bucket?_eq]
  cases Raster.inBand residual <;> rfl

/-- The bucket of a residual always has a colour. -/
theorem checkedResidualColour_eq {count : Int} (h : 1 ≤ count) (residual : Float) :
    checkedResidualColour count residual =
      if Raster.inBand residual && (Integral.ofInt count).isInf then .error .countOverflow
      else .ok (colour? count residual) := by
  unfold checkedResidualColour colour?
  rw [checkedBucket_eq h, bucket?_eq]
  cases Raster.inBand residual with
  | false => rfl
  | true =>
    cases (Integral.ofInt count).isInf with
    | true => rfl
    | false =>
      obtain ⟨hleast, hmost⟩ := clamp_mem h (Integral.value (residual * Integral.ofInt count))
      have hcolour : checkedColour count (bucketInBand count residual) =
          .ok (ofBucket count (bucketInBand count residual)) := checkedColour_eq hleast hmost
      simp only [Bool.true_and, Bool.false_eq_true, if_false, if_true, bind, Except.bind, hcolour]
      rfl

section Held

variable {count : Int} (hlow : 1 ≤ count) (hhigh : count ≤ 2 ^ 53)

include hlow hhigh

theorem not_isInf_ofInt : (Integral.ofInt count).isInf = false :=
  Bits.not_isInf_of_isFinite (exponent_ofInt hlow hhigh).1

theorem checkedBucket_of_held (residual : Float) :
    checkedBucket count residual = .ok (bucket? count residual) := by
  rw [checkedBucket_eq hlow, not_isInf_ofInt hlow hhigh, Bool.and_false]
  rfl

theorem checkedResidualColour_of_held (residual : Float) :
    checkedResidualColour count residual = .ok (colour? count residual) := by
  rw [checkedResidualColour_eq hlow, not_isInf_ofInt hlow hhigh, Bool.and_false]
  rfl

end Held

/-! ## The palette -/

theorem checkedPalette_eq {count : Int} (h : 1 ≤ count) :
    checkedPalette count = .ok (palette count) :=
  counted_of_pos h _

theorem getElem?_palette {count : Int} {i : Nat} (h : i < (2 * count - 1).toNat) :
    (palette count)[i]? = some (ofBucket count (i - (count - 1))) := by
  unfold palette
  rw [Array.getElem?_map, Array.getElem?_range, if_pos h]
  rfl

end Heat

namespace Raster

theorem clip_eq_clamp {count : Int} (h : 1 ≤ count) (bucket : Int) :
    clip (-(count - 1)) (count - 1) bucket = Heat.clamp count bucket := by
  unfold clip Heat.clamp
  omega

/-- The palette has the colour of every bucket at the place that the bucket is looked up at. -/
theorem entry_palette {count bucket : Int} (hlow : -(count - 1) ≤ bucket)
    (hhigh : bucket ≤ count - 1) :
    entry (Heat.palette count) (bucket + count - 1) = .ok (Heat.ofBucket count bucket) := by
  have hplace : ((bucket + count - 1).toNat : Int) - (count - 1) = bucket := by omega
  have hpositive : ¬bucket + count - 1 < 0 := by omega
  unfold entry
  simp only [if_neg hpositive]
  rw [Heat.getElem?_palette (by omega), hplace]

/-- Looking a residual up gives the colour of its bucket, and white where it has none. -/
theorem pixel_palette {count : Int} (hlow : 1 ≤ count) (hhigh : count ≤ 2 ^ 53)
    (residual : Float) :
    pixel count (Heat.palette count) residual =
      .ok ((Heat.colour? count residual).getD .white) := by
  unfold pixel Heat.colour?
  rw [Heat.bucket?_eq]
  by_cases h : inBand residual = true
  · obtain ⟨hleast, hmost⟩ :=
      Heat.clamp_mem hlow (Integral.value (residual * Integral.ofInt count))
    simp only [if_pos h, Heat.value_toInt64_mul hlow hhigh h, clip_eq_clamp hlow]
    exact entry_palette hleast hmost
  · rw [if_neg h, if_neg h]
    rfl

end Raster
end Isotherm
