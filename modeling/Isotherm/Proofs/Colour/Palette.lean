import Isotherm.Proofs.Colour.BucketOrder
import Isotherm.Proofs.Colour.Raster
import Isotherm.Proofs.Number.Thresholds

/-!
# The palette of any number of buckets

However many buckets there are, their colours are one table of bytes. It is black in the middle, one
half is the other with red and blue exchanged, and outwards less and less of the other colour is
left, none of it at the ends. A residual has the colour at the place of its bucket; only where no
double holds the number of buckets can a residual of the band not be told its bucket.
-/

namespace Isotherm
namespace Heat

/-! ## The other colour -/

section Fade

variable {count bucket bucket' : Int}

/-- The farther out, the less is left. -/
theorem fade_antitone (hfirst : 1 ≤ bucket) (hle : bucket ≤ bucket') (hlast : bucket' ≤ count - 1) :
    fade count bucket' ≤ fade count bucket := by
  have hden : 0 < (count - 1).natAbs := by omega
  have hshare : magnitudeBits (share count bucket) ≤ magnitudeBits (share count bucket') := by
    apply Scaled.magnitudeBits_nearest_mono false false hden hden
    have hnum : 255 * bucket.natAbs ≤ 255 * bucket'.natAbs := Nat.mul_le_mul_left 255 (by omega)
    exact div_le_div_of_nonneg_right (by exact_mod_cast hnum) (Nat.cast_nonneg _)
  have hnear : (share count bucket).isFinite = true := isFinite_share (by omega) (by omega)
  have hfar : (share count bucket').isFinite = true := isFinite_share (by omega) hlast
  have hround := Integral.value_roundEven_mono hnear hfar (Scaled.signBit_nearest _ _)
    (Scaled.signBit_nearest _ _) hshare
  unfold fade
  omega

/-- Nothing is left in the last bucket: its share is 255 of 255, whatever their number. -/
theorem fade_last (h : 2 ≤ count) : fade count (count - 1) = 0 := by
  have hden : 0 < (count - 1).natAbs := by omega
  have hquotient : ((255 * (count - 1).natAbs : Nat) : ℚ) / (count - 1).natAbs =
      (255 : Nat) / (1 : Nat) := by
    rw [Nat.cast_mul, mul_div_assoc, div_self (by exact_mod_cast hden.ne'), Nat.cast_one, mul_one,
      div_one]
  have hshare : share count (count - 1) = Scaled.nearest false 255 1 :=
    Scaled.nearest_congr false hden Nat.one_pos hquotient
  have hwhole : Integral.value (Integral.roundEven (Scaled.nearest false 255 1)) = 255 := by
    decide +kernel
  unfold fade
  rw [hshare, hwhole]
  rfl

end Fade

/-! ## The table of all buckets -/

/-- All buckets, the lowest first. -/
def buckets (count : Int) : List Int :=
  (List.range (2 * count - 1).toNat).map fun (i : Nat) => i - (count - 1)

theorem mem_buckets {count bucket : Int} (h : bucket ∈ buckets count) :
    -(count - 1) ≤ bucket ∧ bucket ≤ count - 1 := by
  unfold buckets at h
  obtain ⟨i, hi, rfl⟩ := List.mem_map.mp h
  rw [List.mem_range] at hi
  omega

theorem toList_palette (count : Int) :
    (palette count).toList = (buckets count).map (ofBucket count) := by
  rw [palette, Array.toList_map, Array.toList_range, buckets, List.map_map]
  rfl

/-- Buckets in range are coloured one after the other without a failure. -/
theorem mapM_checkedColour {count : Int} {below : List Int}
    (h : ∀ bucket ∈ below, -(count - 1) ≤ bucket ∧ bucket ≤ count - 1) :
    below.mapM (checkedColour count) = .ok (below.map (ofBucket count)) := by
  induction below with
  | nil => rfl
  | cons bucket below ih =>
    obtain ⟨hlow, hhigh⟩ := h bucket List.mem_cons_self
    have hbelow := ih fun other hother => h other (List.mem_cons_of_mem bucket hother)
    rw [List.mapM_cons, checkedColour_eq hlow hhigh, hbelow]
    rfl

theorem palette_eq_tabulate (count : Int) :
    palette count =
      tabulate (2 * count - 1).toNat fun i => ofBucket count ((i : Int) - (count - 1)) :=
  eq_tabulate (by simp [palette]) fun i hi => by simp [palette]

/-- Turning the palette around exchanges red and blue. -/
theorem reverse_palette (count : Int) :
    (palette count).reverse = (palette count).map Colour.exchanged := by
  rw [palette_eq_tabulate, reverse_tabulate, map_tabulate]
  refine tabulate_congr fun i hi => ?_
  have hopposite : (((2 * count - 1).toNat - 1 - i : Nat) : Int) - (count - 1) =
      -((i : Int) - (count - 1)) := by omega
  rw [hopposite, ofBucket_neg]

/-- The palette has a colour for every bucket, at the place where it is looked up. -/
structure Covers (palette : Array Colour) (count : Int) : Prop where
  size : (palette.size : Int) = 2 * count - 1
  colours : ∀ bucket, -(count - 1) ≤ bucket → bucket ≤ count - 1 →
    ∃ colour, checkedColour count bucket = .ok colour ∧ colour.IsBytes ∧
      palette[(bucket + count - 1).toNat]? = some colour

theorem covers_palette {count : Int} (h : 1 ≤ count) : Covers (palette count) count where
  size := by
    rw [palette, Array.size_map, Array.size_range]
    omega
  colours := by
    intro bucket hlow hhigh
    refine ⟨ofBucket count bucket, checkedColour_eq hlow hhigh, isBytes_ofBucket hlow hhigh, ?_⟩
    have hplace : ((bucket + count - 1).toNat : Int) - (count - 1) = bucket := by omega
    rw [getElem?_palette (by omega), hplace]

/-- A palette that is complete, symmetric and ordered outwards from its middle. -/
structure Ordered (palette : Array Colour) (count : Int) : Prop where
  /-- Every entry is the colour that its bucket has alone. -/
  computed : (buckets count).mapM (checkedColour count) = .ok palette.toList
  covers : Covers palette count
  bytes : ∀ colour ∈ palette, colour.IsBytes
  middle : palette[(count - 1).toNat]? = some .black
  reversed : palette.reverse = palette.map Colour.exchanged
  sides : ∀ bucket, 1 ≤ bucket → bucket ≤ count - 1 →
    palette[(count - 1 + bucket).toNat]? = some ⟨255, 0, fade count bucket⟩ ∧
      palette[(count - 1 - bucket).toNat]? = some ⟨fade count bucket, 0, 255⟩
  fading : ∀ bucket farther, 1 ≤ bucket → bucket ≤ farther → farther ≤ count - 1 →
    fade count farther ≤ fade count bucket
  last : 2 ≤ count → fade count (count - 1) = 0

theorem ordered_palette {count : Int} (h : 1 ≤ count) : Ordered (palette count) count where
  computed := by
    rw [toList_palette]
    exact mapM_checkedColour fun bucket => mem_buckets
  covers := covers_palette h
  bytes := by
    intro colour hcolour
    rw [← Array.mem_toList_iff, toList_palette] at hcolour
    obtain ⟨bucket, hbucket, rfl⟩ := List.mem_map.mp hcolour
    obtain ⟨hlow, hhigh⟩ := mem_buckets hbucket
    exact isBytes_ofBucket hlow hhigh
  middle := by
    have hplace : ((count - 1).toNat : Int) - (count - 1) = 0 := by omega
    rw [getElem?_palette (by omega), hplace]
    rfl
  reversed := reverse_palette count
  sides := by
    intro bucket hfirst hlast
    have habove : ((count - 1 + bucket).toNat : Int) - (count - 1) = bucket := by omega
    have hbelow : ((count - 1 - bucket).toNat : Int) - (count - 1) = -bucket := by omega
    have hside : ofBucket count bucket = ⟨255, 0, fade count bucket⟩ := by
      rw [ofBucket, if_neg (by omega), if_pos (by omega)]
    rw [getElem?_palette (by omega), getElem?_palette (by omega), habove, hbelow, ofBucket_neg,
      hside]
    exact ⟨rfl, rfl⟩
  fading := fun _ _ => fade_antitone
  last := fade_last

/-! ## Residuals -/

/-- The double nearest to a number of buckets is infinite from half a last place above the largest
double on. -/
theorem isInf_ofInt_iff {count : Int} :
    (Integral.ofInt count).isInf = true ↔ leastUnreached ≤ count.natAbs :=
  isInf_nearest_iff _ _

/-- A residual of the band is looked up in the palette at its bucket; any other has neither bucket
nor colour. -/
def LooksUp (palette : Array Colour) (count : Int) (residual : Float) : Prop :=
  OutsideBand residual ∧ checkedBucket count residual = .ok none ∧
      checkedResidualColour count residual = .ok none ∨
    ¬OutsideBand residual ∧ ∃ bucket colour, checkedBucket count residual = .ok (some bucket) ∧
      checkedResidualColour count residual = .ok (some colour) ∧
      -(count - 1) ≤ bucket ∧ bucket ≤ count - 1 ∧
      palette[(bucket + count - 1).toNat]? = some colour

theorem looksUp_palette {count : Int} (h : 1 ≤ count) {residual : Float}
    (hheld : (Raster.inBand residual && (Integral.ofInt count).isInf) = false) :
    LooksUp (palette count) count residual := by
  unfold LooksUp
  rw [checkedBucket_eq h, checkedResidualColour_eq h, hheld, colour?, bucket?_eq,
    ← inBand_eq_false_iff]
  cases Raster.inBand residual with
  | false => exact .inl ⟨rfl, rfl, rfl⟩
  | true =>
    obtain ⟨hlow, hhigh⟩ := clamp_mem h (Integral.value (residual * Integral.ofInt count))
    have hplace : ((bucketInBand count residual + count - 1).toNat : Int) - (count - 1) =
        bucketInBand count residual := by
      unfold bucketInBand
      omega
    refine .inr ⟨Bool.noConfusion, bucketInBand count residual, _, rfl, rfl, hlow, hhigh, ?_⟩
    rw [getElem?_palette (by unfold bucketInBand; omega), hplace]

/-- Any number of buckets has a palette, which holds the colour of every residual at the place of its
bucket. Only the residuals of the band fail to have one, and that where the number of buckets is
rounded past the largest double. -/
theorem palette_of_any_count {count : Int} (h : 1 ≤ count) :
    ∃ palette, checkedPalette count = .ok palette ∧ Ordered palette count ∧
      ∀ residual,
        (OutsideBand residual ∨ count.natAbs < leastUnreached →
          LooksUp palette count residual) ∧
        (¬OutsideBand residual → leastUnreached ≤ count.natAbs →
          checkedBucket count residual = .error .countOverflow ∧
            checkedResidualColour count residual = .error .countOverflow) := by
  refine ⟨palette count, checkedPalette_eq h, ordered_palette h, fun residual => ?_⟩
  have hband := inBand_eq_false_iff residual
  have hinf := @isInf_ofInt_iff count
  constructor
  · intro hheld
    apply looksUp_palette h
    rw [Bool.and_eq_false_iff]
    cases hheld with
    | inl houtside => exact .inl (hband.mpr houtside)
    | inr hlt => exact .inr (Bool.eq_false_iff.mpr fun hi => absurd (hinf.mp hi) (by omega))
  · intro hinside hunreached
    have hfails : (Raster.inBand residual && (Integral.ofInt count).isInf) = true := by
      rw [hinf.mpr hunreached, Bool.and_true, ← Bool.not_eq_false, hband]
      exact hinside
    rw [checkedBucket_eq h, checkedResidualColour_eq h, hfails]
    exact ⟨rfl, rfl⟩

/-- Half of 255 is a tie, and rounded up to the even 128. -/
theorem palette_of_any_count_three :
    let half : Array Colour := #[⟨0, 0, 255⟩, ⟨127, 0, 255⟩, .black, ⟨255, 0, 127⟩, ⟨255, 0, 0⟩]
    (1 : Int) ≤ 3 ∧ Ordered half 3 ∧ LooksUp half 3 (-0.4) := by
  intro half
  obtain ⟨palette, hpalette, hordered, hlooks⟩ := @palette_of_any_count 3 (by decide)
  have hhalf : checkedPalette 3 = .ok half := by decide +kernel
  obtain rfl : palette = half := Except.ok.inj (hpalette.symm.trans hhalf)
  exact ⟨by decide, hordered, (hlooks (-0.4)).1 (.inr (by decide +kernel))⟩

/-- No double holds as many buckets, so that not even residual zero can be looked up. -/
theorem not_looksUp_past_doubles :
    (1 : Int) ≤ 10 ^ 400 ∧ checkedBucket (10 ^ 400) 0.0 = .error .countOverflow ∧
      checkedResidualColour (10 ^ 400) 0.0 = .error .countOverflow ∧
      ∀ palette, ¬LooksUp palette (10 ^ 400) 0.0 := by
  have hcount : (1 : Int) ≤ 10 ^ 400 := by decide +kernel
  have hunreached : leastUnreached ≤ (10 ^ 400 : Int).natAbs := by decide +kernel
  have hband : Raster.inBand 0.0 = true := by decide +kernel
  have hbucket : checkedBucket (10 ^ 400) 0.0 = .error .countOverflow := by
    rw [checkedBucket_eq hcount, hband, isInf_ofInt_iff.mpr hunreached]
    rfl
  have hcolour : checkedResidualColour (10 ^ 400) 0.0 = .error .countOverflow := by
    rw [checkedResidualColour_eq hcount, hband, isInf_ofInt_iff.mpr hunreached]
    rfl
  refine ⟨hcount, hbucket, hcolour, ?_⟩
  intro palette hlooks
  obtain ⟨-, hnone, -⟩ | ⟨-, bucket, colour, hsome, -⟩ := hlooks
  · rw [hbucket] at hnone
    cases hnone
  · rw [hbucket] at hsome
    cases hsome

end Heat
end Isotherm
