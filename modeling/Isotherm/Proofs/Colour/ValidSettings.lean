import Isotherm.Proofs.Colour.Palette
import Isotherm.Proofs.Colour.Pictures

/-!
# Settings that were found valid

Once the settings are in their limits, nothing between an equation and its pictures fails but the
sampling, and that for the size or the times alone. The palette has a colour for every bucket that
a residual can fall into, also where there is only one bucket to a side; every residual is looked up
inside it; and the rasters of all frames are squares of one size, however the cells were sampled and
in whatever order the times are.
-/

namespace Isotherm

/-! ## Rasters -/

namespace Raster

/-- The place in the palette where a residual is looked up. -/
def paletteIndex (count : Int) (residual : Float) : Int :=
  let bucket := Integral.value (Integral.toInt64 (residual * Integral.ofInt count))
  clip (-(count - 1)) (count - 1) bucket + count - 1

theorem pixel_eq (count : Int) (palette : Array Colour) (residual : Float) :
    pixel count palette residual =
      if inBand residual then entry palette (paletteIndex count residual) else .ok .white :=
  rfl

/-- Every residual is looked up inside the palette, whatever its product with the count is cut off
to. -/
theorem paletteIndex_mem {palette : Array Colour} {count : Int} (h : Heat.Covers palette count)
    (hcount : 1 ≤ count) (residual : Float) :
    0 ≤ paletteIndex count residual ∧ paletteIndex count residual < palette.size := by
  have hsize := h.size
  unfold paletteIndex clip
  dsimp only
  omega

/-- The raster is a square whose pixels can be stored as bytes. -/
structure Square (r : Raster) (side : Nat) : Prop where
  width : r.width = side
  height : r.rows.size = side
  rows : ∀ pixels ∈ r.rows, pixels.size = side
  bytes : ∀ pixels ∈ r.rows, ∀ colour ∈ pixels, colour.IsBytes

theorem exists_of_mem_grid {height width : Nat} {colour : Nat → Nat → Colour}
    {pixels : Array Colour} (hpixels : pixels ∈ grid height width colour) {c : Colour}
    (hc : c ∈ pixels) : ∃ row column, c = colour row column := by
  unfold grid at hpixels
  obtain ⟨row, hrow, rfl⟩ := Array.mem_iff_getElem.mp hpixels
  rw [getElem_tabulate] at hc
  obtain ⟨column, hcolumn, rfl⟩ := Array.mem_iff_getElem.mp hc
  exact ⟨row, column, getElem_tabulate hcolumn⟩

theorem square_grid {side : Nat} {colour : Nat → Nat → Colour}
    (h : ∀ row column, (colour row column).IsBytes) :
    Square ⟨side, grid side side colour⟩ side where
  width := rfl
  height := size_tabulate
  rows := fun _ hpixels => size_of_mem_grid hpixels
  bytes := by
    intro pixels hpixels c hc
    obtain ⟨row, column, rfl⟩ := exists_of_mem_grid hpixels hc
    exact h row column

end Raster

theorem RenderConfig.contains_origin {c : RenderConfig} (h : 1 ≤ c.size) :
    c.gridRect.Contains 0 0 := by
  unfold gridRect Rect.aroundOrigin Rect.Contains
  dsimp only
  omega

/-- The frames of the cells around the origin become squares. -/
theorem Frame.square_raster {c : RenderConfig} (hc : c.InLimits) {f : Frame}
    (hf : f.rect = c.gridRect) :
    ((f.raster c.heatColourCount).scale c.scale.toNat).Square (2 * c.size * c.scale).toNat := by
  have hscale := hc.scale
  have hsize := hc.size
  have hwidth : f.rect.width = (2 * c.size).toNat := by
    rw [hf]
    show (c.size - -c.size).toNat = _
    omega
  have hheight : f.rect.height = (2 * c.size).toNat := by
    rw [hf]
    show (c.size - -c.size).toNat = _
    omega
  have hside : (2 * c.size * c.scale).toNat = (2 * c.size).toNat * c.scale.toNat :=
    Int.toNat_mul (by omega) (by omega)
  rw [raster, Raster.scale_grid (by omega), hwidth, hheight, hside]
  apply Raster.square_grid
  intro row column
  exact Raster.isBytes_cellColour hc.coloured f _ _

namespace Equation

/-- With settings in their limits an equation is sampled, unless an array is refused or the times are
past the doubles, and then all that was sampled can be drawn: there is a frame, the palette covers
all buckets and every residual is looked up inside it, both axes lie in the frame, and all rasters
are squares of the same side, unless no array is made for them. This holds of any distance between
the cells. Arrays whose bytes can be addressed are made below a side of `2 ^ 29` cells. -/
theorem valid_settings_draw {e : Equation} (hb : e.isBound = true) (arrays : Arrays)
    {c : RenderConfig} (hc : c.invalid? = none) (cellSize : Float) :
    (∀ cause, e.animate arrays c.timeLower c.timeUpper c.gridRect cellSize = .error cause ↔
      Unsampled e arrays c.size c.timeLower c.timeUpper cellSize cause) ∧
    (Arrays.addressed.Grants c.gridRect ↔ c.size < 2 ^ 29) ∧
    ((∀ cause, ¬Unsampled e arrays c.size c.timeLower c.timeUpper cellSize cause) →
      ∃ animation palette,
        e.animate arrays c.timeLower c.timeUpper c.gridRect cellSize = .ok animation ∧
        1 ≤ animation.frames.size ∧
        Heat.checkedPalette c.heatColourCount = .ok palette ∧
        Heat.Covers palette c.heatColourCount ∧
        (∀ residual, 0 ≤ Raster.paletteIndex c.heatColourCount residual ∧
          Raster.paletteIndex c.heatColourCount residual < palette.size) ∧
        ∀ f ∈ animation.frames, f.Counted c.gridRect ∧ f.rect.Contains 0 0 ∧
          ∃ raster, Raster.ofFrame f c.heatColourCount (some palette) = .ok raster ∧
            (∀ cause, raster.magnify arrays c.scale.toNat = .error cause ↔
              Picture.unmagnified? arrays c = some cause) ∧
            (Picture.unmagnified? arrays c = none →
              ∃ magnified, raster.magnify arrays c.scale.toNat = .ok magnified ∧
                magnified.Square (2 * c.size * c.scale).toNat)) := by
  have hlimits := (RenderConfig.invalid?_eq_none_iff c).mp hc
  have hcount : c.heatColourCount ≤ 2 ^ 53 := by
    have hdistinct : c.heatColourCount ≤ 126 := hlimits.distinct
    omega
  refine ⟨?_, Arrays.addressed_grants_iff hlimits.size, ?_⟩
  · intro cause
    exact animate_eq_error_iff hb hlimits.size cause
  · intro hsampled
    obtain ⟨a, ha⟩ | ⟨cause, hcause⟩ :=
      exists_animate_or_unsampled hb arrays hlimits.size c.timeLower c.timeUpper cellSize
    · obtain ⟨first, later, hframes⟩ := exists_cons_of_animate ha
      have hfirst : 1 ≤ a.frames.size := by
        rw [← Array.length_toList, hframes, List.length_cons]
        omega
      have hchecked : Heat.checkedPalette c.heatColourCount =
          .ok (Heat.palette c.heatColourCount) := if_neg (not_lt.mpr hlimits.coloured)
      have hcovers := Heat.covers_palette hlimits.coloured
      refine ⟨a, _, ha, hfirst, hchecked, hcovers, ?_, ?_⟩
      · exact Raster.paletteIndex_mem hcovers hlimits.coloured
      · intro f hf
        have hcounted : f.Counted c.gridRect := counted_of_animate ha f hf
        have horigin := RenderConfig.contains_origin hlimits.size
        rw [← hcounted.rect_eq] at horigin
        have hmagnify :=
          Picture.magnify_raster arrays hlimits hcounted.rect_eq c.heatColourCount
        refine ⟨hcounted, horigin, f.raster c.heatColourCount, ?_, fun cause => ?_, fun hmade => ?_⟩
        · apply Raster.ofFrame_eq f hlimits.coloured hcount
          intro palette hpalette
          obtain rfl := Option.some.inj hpalette
          exact hchecked
        · rw [hmagnify]
          cases Picture.unmagnified? arrays c <;> simp
        · rw [hmade] at hmagnify
          exact ⟨_, hmagnify, Frame.square_raster hlimits hcounted.rect_eq⟩
    · exact absurd hcause (hsampled cause)

/-- An equation that faults everywhere, one bucket to a side, no distance between cells that is a
number, and times that run backwards. -/
theorem valid_settings_draw_degenerate :
    let e := ofSides (.var "T") (.binary (.var "x") (.unknown "&") (.var "y"))
    let arrays := Arrays.addressed
    let c : RenderConfig :=
      { heatColourCount := 1, pointSize := .real (0.0 / 0.0), scale := 3, timeLower := 5,
        timeUpper := -3, size := 2 }
    (e.isBound = true ∧ c.invalid? = none ∧ Picture.unmagnified? arrays c = none ∧
      ∀ cause, ¬Unsampled e arrays c.size c.timeLower c.timeUpper (0.0 / 0.0) cause) ∧
    ∃ animation palette,
      e.animate arrays 5 (-3) c.gridRect (0.0 / 0.0) = .ok animation ∧
      1 ≤ animation.frames.size ∧
      Heat.checkedPalette 1 = .ok palette ∧ Heat.Covers palette 1 ∧
      (∀ residual, 0 ≤ Raster.paletteIndex 1 residual ∧
        Raster.paletteIndex 1 residual < palette.size) ∧
      ∀ f ∈ animation.frames, f.Counted c.gridRect ∧ f.rect.Contains 0 0 ∧
        ∃ raster, Raster.ofFrame f 1 (some palette) = .ok raster ∧
          ∃ magnified, raster.magnify arrays 3 = .ok magnified ∧ magnified.Square 12 := by
  intro e arrays c
  have hvalid : c.invalid?.isNone = true := by decide +kernel
  have hc := Option.isNone_iff_eq_none.mp hvalid
  have hmade : Picture.unmagnified? arrays c = none := by decide +kernel
  have hgranted : arrays.Grants (.aroundOrigin c.size) :=
    (Arrays.addressed_grants_iff (by decide)).mpr (by decide)
  have hsampled : ∀ cause, ¬Unsampled e arrays c.size c.timeLower c.timeUpper (0.0 / 0.0) cause := by
    intro cause h
    cases h with
    | axis hrefused => cases hgranted.columns.symm.trans hrefused
    | edge _ hsize => exact absurd hsize (by decide +kernel)
    | grid _ _ hrefused => cases hgranted.grid.symm.trans hrefused
    | firstTime _ hlower => exact absurd hlower (by decide +kernel)
    | laterTime _ _ _ _ hupper => exact absurd hupper (by decide +kernel)
  obtain ⟨animation, palette, ha, hfirst, hpalette, hcovers, hindex, hdrawn⟩ :=
    (valid_settings_draw rfl arrays hc (0.0 / 0.0)).2.2 hsampled
  refine ⟨⟨rfl, hc, hmade, hsampled⟩, animation, palette, ha, hfirst, hpalette, hcovers, hindex, ?_⟩
  intro f hf
  obtain ⟨hcounted, horigin, raster, hraster, -, hsquare⟩ := hdrawn f hf
  exact ⟨hcounted, horigin, raster, hraster, hsquare hmade⟩

/-- Valid settings whose times are past the largest double: there is not one frame of `y = 0`. -/
theorem valid_settings_past_doubles :
    let e := ofSides (.var "y") (.number 0.0)
    let c : RenderConfig := { timeLower := 10 ^ 400, timeUpper := 10 ^ 400 + 1, size := 1 }
    e.isBound = true ∧ c.invalid? = none ∧
      ∀ cellSize, e.animate .addressed c.timeLower c.timeUpper c.gridRect cellSize =
        .error (.residual .overflow) := by
  intro e c
  have hvalid : c.invalid?.isNone = true := by decide +kernel
  have htime : leastUnreached ≤ c.timeLower.natAbs := by decide +kernel
  have hgranted : Arrays.addressed.Grants (.aroundOrigin c.size) :=
    (Arrays.addressed_grants_iff (by decide)).mpr (by decide)
  have hr := (Rect.reachable_aroundOrigin_iff (by decide)).mpr ⟨hgranted, by decide +kernel⟩
  refine ⟨rfl, Option.isNone_iff_eq_none.mp hvalid, fun cellSize => ?_⟩
  exact (Unsampled.firstTime hr htime).animate_eq rfl (by decide)

end Equation
end Isotherm
