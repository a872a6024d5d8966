import Isotherm.Proofs.Colour.Buckets

/-!
# The pixels of a raster

Rows of pixels are written as tables, whose item in a place is a function of the place. Every step
from a frame to its scaled raster turns a table into a table: colouring and drawing the axes change
the items, turning the rows over and repeating change the places.
-/

namespace Isotherm

/-! ## Tables -/

/-- The array of `n` items that are given by their place. -/
def tabulate {α : Type} (n : Nat) (item : Nat → α) : Array α :=
  Array.ofFn (n := n) fun i => item i

section Tabulate

variable {α β : Type} {n : Nat} {item : Nat → α}

@[simp] theorem size_tabulate : (tabulate n item).size = n := by
  simp [tabulate]

@[simp] theorem getElem_tabulate {i : Nat} (h : i < (tabulate n item).size) :
    (tabulate n item)[i] = item i := by
  simp [tabulate]

theorem getElem?_tabulate {i : Nat} (h : i < n) : (tabulate n item)[i]? = some (item i) := by
  rw [Array.getElem?_eq_getElem (by simpa using h), getElem_tabulate]

/-- An array is the table of what stands in its places. -/
theorem eq_tabulate {items : Array α} (hsize : items.size = n)
    (hitem : ∀ i (h : i < items.size), items[i] = item i) : items = tabulate n item :=
  Array.ext (by rw [hsize, size_tabulate]) fun i h _ => by rw [hitem i h, getElem_tabulate]

theorem tabulate_congr {other : Nat → α} (h : ∀ i < n, item i = other i) :
    tabulate n item = tabulate n other :=
  eq_tabulate size_tabulate fun i hi => by
    rw [getElem_tabulate, h i (by simpa using hi)]

theorem map_tabulate (f : α → β) : (tabulate n item).map f = tabulate n fun i => f (item i) :=
  eq_tabulate (by simp) fun i hi => by simp

theorem modify_tabulate (place : Nat) (f : α → α) :
    (tabulate n item).modify place f =
      tabulate n fun i => if place = i then f (item i) else item i :=
  eq_tabulate (by simp) fun i hi => by simp [Array.getElem_modify]

theorem reverse_tabulate : (tabulate n item).reverse = tabulate n fun i => item (n - 1 - i) :=
  eq_tabulate (by simp) fun i hi => by simp

end Tabulate

namespace Raster

section Repeated

variable {α : Type} {m : Nat}

theorem getElem?_flatMap_replicate (hm : 0 < m) (items : List α) (i : Nat) :
    (items.flatMap (List.replicate m))[i]? = items[i / m]? := by
  induction items generalizing i with
  | nil => simp
  | cons item rest ih =>
    rw [List.flatMap_cons, List.getElem?_append, List.length_replicate]
    by_cases hi : i < m
    · rw [if_pos hi, Nat.div_eq_of_lt hi]
      simp [hi]
    · rw [if_neg hi, ih, Nat.div_eq_sub_div hm (Nat.le_of_not_lt hi)]
      rfl

theorem size_repeated (items : Array α) : (repeated m items).size = items.size * m := by
  rw [repeated, ← Array.length_toList, Array.toList_flatMap, List.length_flatMap]
  simp [List.map_const', List.sum_replicate]

theorem repeated_tabulate (hm : 0 < m) {n : Nat} (item : Nat → α) :
    repeated m (tabulate n item) = tabulate (n * m) fun i => item (i / m) := by
  refine eq_tabulate (by rw [size_repeated, size_tabulate]) fun i hi => ?_
  have hplace : i / m < n := by
    rw [size_repeated, size_tabulate] at hi
    exact Nat.div_lt_of_lt_mul (by rwa [Nat.mul_comm])
  have hsome : (repeated m (tabulate n item))[i]? = some (item (i / m)) := by
    rw [repeated, ← Array.getElem?_toList, Array.toList_flatMap]
    simp only [Array.toList_replicate]
    rw [getElem?_flatMap_replicate hm, Array.getElem?_toList, getElem?_tabulate hplace]
  rw [Array.getElem?_eq_getElem hi] at hsome
  exact Option.some.inj hsome

end Repeated

/-! ## Rows of pixels -/

/-- The rows of a picture, from the colour of every place. -/
def grid (height width : Nat) (colour : Nat → Nat → Colour) : Array (Array Colour) :=
  tabulate height fun row => tabulate width (colour row)

variable {height width : Nat} {colour : Nat → Nat → Colour}

theorem grid_congr {other : Nat → Nat → Colour}
    (h : ∀ row < height, ∀ column < width, colour row column = other row column) :
    grid height width colour = grid height width other :=
  tabulate_congr fun row hrow => tabulate_congr fun column hcolumn => h row hrow column hcolumn

theorem size_of_mem_grid {pixels : Array Colour} (h : pixels ∈ grid height width colour) :
    pixels.size = width := by
  unfold grid at h
  obtain ⟨row, hrow, rfl⟩ := Array.mem_iff_getElem.mp h
  rw [getElem_tabulate, size_tabulate]

/-- The row of the axis is painted if there is one. -/
theorem paintRow_grid (rect : Rect) (colour : Nat → Nat → Colour) :
    (if rect.minY ≤ 0 ∧ 0 < rect.maxY then
      (grid rect.height width colour).modify (rect.row 0) fun pixels => pixels.map fun _ => .line
    else grid rect.height width colour) =
      grid rect.height width fun row column =>
        if rect.minY + row = 0 then .line else colour row column := by
  by_cases haxis : rect.minY ≤ 0 ∧ 0 < rect.maxY
  · rw [if_pos haxis, grid, modify_tabulate]
    refine tabulate_congr fun row _ => ?_
    have hrow : rect.row 0 = row ↔ rect.minY + row = 0 := by
      unfold Rect.row
      omega
    simp only [hrow, map_tabulate]
    by_cases h : rect.minY + row = 0
    · simp only [if_pos h]
    · simp only [if_neg h]
  · rw [if_neg haxis]
    refine grid_congr fun row hrow column _ => ?_
    have houtside : ¬rect.minY + (row : Int) = 0 := by
      unfold Rect.height at hrow
      omega
    rw [if_neg houtside]

/-- The column of the axis is painted if there is one. -/
theorem paintColumn_grid (rect : Rect) (colour : Nat → Nat → Colour) :
    (if rect.minX ≤ 0 ∧ 0 < rect.maxX then
      (grid height rect.width colour).map fun pixels => pixels.modify (rect.column 0) fun _ => .line
    else grid height rect.width colour) =
      grid height rect.width fun row column =>
        if rect.minX + column = 0 then .line else colour row column := by
  by_cases haxis : rect.minX ≤ 0 ∧ 0 < rect.maxX
  · rw [if_pos haxis, grid, map_tabulate]
    refine tabulate_congr fun row _ => ?_
    rw [modify_tabulate]
    refine tabulate_congr fun column _ => ?_
    have hcolumn : rect.column 0 = column ↔ rect.minX + column = 0 := by
      unfold Rect.column
      omega
    simp only [hcolumn]
  · rw [if_neg haxis]
    refine grid_congr fun row _ column hcolumn => ?_
    have houtside : ¬rect.minX + (column : Int) = 0 := by
      unfold Rect.width at hcolumn
      omega
    rw [if_neg houtside]

/-- Both axes are drawn, each where it crosses the rectangle. -/
theorem drawAxes_grid (rect : Rect) (colour : Nat → Nat → Colour) :
    drawAxes rect (grid rect.height rect.width colour) =
      grid rect.height rect.width fun row column =>
        if rect.minX + column = 0 ∨ rect.minY + row = 0 then .line else colour row column := by
  unfold drawAxes
  rw [paintRow_grid, paintColumn_grid]
  refine grid_congr fun row _ column _ => ?_
  by_cases hx : rect.minX + (column : Int) = 0
  · rw [if_pos hx, if_pos (.inl hx)]
  · simp only [hx, false_or, if_false]

theorem scale_grid {n : Nat} (hn : 0 < n) (colour : Nat → Nat → Colour) :
    scale n ⟨width, grid height width colour⟩ =
      ⟨width * n, grid (height * n) (width * n) fun row column => colour (row / n) (column / n)⟩ := by
  unfold scale
  by_cases hone : n = 1
  · -- nothing is repeated, and every place is its own quotient
    subst hone
    simp
  · rw [if_neg hone, grid, repeated_tabulate hn, map_tabulate]
    simp only [repeated_tabulate hn]
    rfl

end Raster

namespace Frame

theorem toArrays_eq (f : Frame) :
    f.toArrays = tabulate f.rect.height fun row => tabulate f.rect.width fun column =>
      f.get (f.rect.minX + column) (f.rect.minY + row) := by
  refine eq_tabulate (by simp [toArrays]) fun row hrow => ?_
  refine eq_tabulate (by simp [toArrays]) fun column hcolumn => ?_
  have hinside : f.rect.Contains (f.rect.minX + column) (f.rect.minY + row) :=
    Rect.contains_add (by simpa [toArrays] using hcolumn) (by simpa [toArrays] using hrow)
  simp [toArrays, get, hinside]

end Frame

/-- The colour that a cell is drawn in. -/
def Frame.cellColour (f : Frame) (count x y : Int) : Colour :=
  if x = 0 ∨ y = 0 then .line else (Heat.colour? count (f.get x y)).getD .white

namespace Raster

/-- Colouring the cells of a frame, without the axes. -/
theorem mapM_pixel {count : Int} (hlow : 1 ≤ count) (hhigh : count ≤ 2 ^ 53) (f : Frame) :
    (f.toArrays.mapM fun row => row.mapM (pixel count (Heat.palette count))) =
      .ok (grid f.rect.height f.rect.width fun row column =>
        (Heat.colour? count (f.get (f.rect.minX + column) (f.rect.minY + row))).getD .white) := by
  have hpixel : pixel count (Heat.palette count) =
      fun residual => pure ((Heat.colour? count residual).getD .white) :=
    funext (pixel_palette hlow hhigh)
  simp only [hpixel, Array.mapM_pure]
  rw [Frame.toArrays_eq, map_tabulate]
  simp only [map_tabulate]
  rfl

/-! ## The colour of every pixel -/

/-- The palette that is handed in or made for the frame is that of the number of buckets. -/
theorem ofFrame_eq_mapM (f : Frame) {count : Int} (hcount : 1 ≤ count)
    {palette? : Option (Array Colour)}
    (hpalette : ∀ palette, palette? = some palette → Heat.checkedPalette count = .ok palette) :
    ofFrame f count palette? = do
      let rows ← f.toArrays.mapM fun row => row.mapM (pixel count (Heat.palette count))
      return ⟨f.rect.width, (drawAxes f.rect rows).reverse⟩ := by
  have hchecked : Heat.checkedPalette count = .ok (Heat.palette count) :=
    Heat.checkedPalette_eq hcount
  unfold ofFrame
  cases palette? with
  | none =>
    rw [hchecked]
    rfl
  | some palette =>
    have hsame : palette = Heat.palette count :=
      Except.ok.inj ((hpalette palette rfl).symm.trans hchecked)
    subst hsame
    rfl

/-- A raster has the row of the largest `y` on top. -/
theorem ofFrame_eq (f : Frame) {count : Int} (hlow : 1 ≤ count) (hhigh : count ≤ 2 ^ 53)
    {palette? : Option (Array Colour)}
    (hpalette : ∀ palette, palette? = some palette → Heat.checkedPalette count = .ok palette) :
    ofFrame f count palette? = .ok ⟨f.rect.width,
      grid f.rect.height f.rect.width fun row column =>
        f.cellColour count (f.rect.minX + column) (f.rect.maxY - 1 - row)⟩ := by
  rw [ofFrame_eq_mapM f hlow hpalette, mapM_pixel hlow hhigh]
  show Except.ok (Raster.mk f.rect.width (drawAxes f.rect (grid _ _ _)).reverse) = _
  rw [drawAxes_grid, grid, reverse_tabulate]
  -- row `row` from the top is row `height - 1 - row` from the lowest `y`
  refine congrArg (fun rows => Except.ok (Raster.mk f.rect.width rows)) ?_
  refine grid_congr fun row hrow column _ => ?_
  have hy : f.rect.minY + ((f.rect.height - 1 - row : Nat) : Int) = f.rect.maxY - 1 - row := by
    unfold Rect.height at hrow ⊢
    omega
  rw [hy]
  rfl

theorem isBytes_cellColour {count : Int} (hcount : 1 ≤ count) (f : Frame) (x y : Int) :
    (f.cellColour count x y).IsBytes := by
  unfold Frame.cellColour
  split
  · constructor <;> decide
  · cases hcolour : Heat.colour? count (f.get x y) with
    | none => constructor <;> decide
    | some colour => exact Heat.isBytes_colour? hcount hcolour

/-- Every pixel of a scaled raster belongs to one cell of the frame. It has the colour of the axes
if the cell lies on one, and else the colour of the cell's residual, or white without one. -/
theorem scaled_pixels (f : Frame) {count : Int} (hlow : 1 ≤ count) (hhigh : count ≤ 2 ^ 53)
    {palette? : Option (Array Colour)}
    (hpalette : ∀ palette, palette? = some palette → Heat.checkedPalette count = .ok palette)
    {n : Nat} (hn : 1 ≤ n) :
    ∃ raster, ofFrame f count palette? = .ok raster ∧
      (raster.scale n).width = f.rect.width * n ∧
      (raster.scale n).rows.size = f.rect.height * n ∧
      (∀ pixels ∈ (raster.scale n).rows, pixels.size = f.rect.width * n) ∧
      ∀ row < f.rect.height * n, ∀ column < f.rect.width * n, ∀ x y : Int,
        x = f.rect.minX + (column / n : Nat) → y = f.rect.maxY - 1 - (row / n : Nat) →
        ∃ pixels colour colour?,
          (raster.scale n).rows[row]? = some pixels ∧ pixels[column]? = some colour ∧
          Heat.checkedResidualColour count (f.get x y) = .ok colour? ∧
          colour = (if x = 0 ∨ y = 0 then .line else colour?.getD .white) ∧
          colour.IsBytes ∧
          (colour? = none ↔ (f.get x y).isNaN = true ∨ (f.get x y).isInf = true ∨
            1.0 ≤ (f.get x y).abs) := by
  refine ⟨_, ofFrame_eq f hlow hhigh hpalette, ?_⟩
  rw [scale_grid hn]
  refine ⟨rfl, size_tabulate, ?_, ?_⟩
  · intro pixels hpixels
    dsimp only at hpixels
    exact size_of_mem_grid hpixels
  · rintro row hrow column hcolumn x y rfl rfl
    exact ⟨_, _, _, getElem?_tabulate hrow, getElem?_tabulate hcolumn,
      Heat.checkedResidualColour_of_held hlow hhigh _, rfl, isBytes_cellColour hlow f _ _,
      Heat.colour?_eq_none_iff count _⟩

/-- The top row of a scaled square: its left end lies on an axis, its right end on none. -/
theorem scaled_pixels_square :
    ∃ raster top, ofFrame (.ofFn ⟨0, 0, 2, 2⟩ (fun _ _ => 0.5) (.integer 0)) 3
        (some (Heat.palette 3)) = .ok raster ∧
      (raster.scale 2).rows[0]? = some top ∧ top.size = 4 ∧
      top[0]? = some .line ∧ top[3]? = some ⟨255, 0, 127⟩ := by
  obtain ⟨raster, hraster, -, -, hsize, hpixel⟩ :=
    @scaled_pixels (.ofFn ⟨0, 0, 2, 2⟩ (fun _ _ => 0.5) (.integer 0)) 3 (by decide) (by decide)
      (some (Heat.palette 3)) (by rintro _ ⟨⟩; rfl) 2 (by decide)
  obtain ⟨top, left, left?, htop, hleft, -, rfl, -⟩ :=
    hpixel 0 (by decide) 0 (by decide) 0 1 (by decide) (by decide)
  obtain ⟨top', right, right?, htop', hright, hcolour, rfl, -⟩ :=
    hpixel 0 (by decide) 3 (by decide) 1 1 (by decide) (by decide)
  obtain rfl : top = top' := Option.some.inj (htop.symm.trans htop')
  have hhalf : Heat.checkedResidualColour 3
      (Frame.get (.ofFn ⟨0, 0, 2, 2⟩ (fun _ _ => 0.5) (.integer 0)) 1 1) =
        .ok (some ⟨255, 0, 127⟩) := by
    decide +kernel
  obtain rfl : right? = some ⟨255, 0, 127⟩ := Except.ok.inj (hcolour.symm.trans hhalf)
  exact ⟨raster, top, hraster, htop, hsize top (Array.mem_of_getElem? htop), hleft, hright⟩

end Raster
end Isotherm
