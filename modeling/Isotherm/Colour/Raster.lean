import Isotherm.Colour.Heat
import Isotherm.Sampling.Arrays
import Isotherm.Sampling.Frame

/-!
# Rasters

A frame as rows of coloured pixels, the row of the largest `y` on top. Each residual in the band has
the colour of its bucket in the palette, the others are white; the axes are drawn over all.
-/

namespace Isotherm

structure Raster where
  width : Nat
  rows : Array (Array Colour)

namespace Raster

/-- The entry of a palette; an index below zero counts from the end. -/
def entry (palette : Array Colour) (index : Int) : Except HeatError Colour :=
  let place := if index < 0 then index + palette.size else index
  match if place < 0 then none else palette[place.toNat]? with
  | some c => .ok c
  | none => .error (.outsidePalette index palette.size)

/-- Whether a residual is coloured. -/
def inBand (residual : Float) : Bool :=
  residual.isFinite && residual.abs < 1.0

/-- `bucket`, or the nearer of two bounds that it lies outside of. -/
def clip (low high bucket : Int) : Int :=
  min high (max low bucket)

/-- The colour of a residual, looked up in a palette whose middle entry is that of bucket zero. -/
def pixel (count : Int) (palette : Array Colour) (residual : Float) : Except HeatError Colour :=
  if inBand residual then
    let bucket := Integral.value (Integral.toInt64 (residual * Integral.ofInt count))
    entry palette (clip (-(count - 1)) (count - 1) bucket + count - 1)
  else .ok .white

/-- Draws the axes that lie in the rectangle over rows that go from the lowest `y` up. -/
def drawAxes (rect : Rect) (rows : Array (Array Colour)) : Array (Array Colour) :=
  let rows :=
    if rect.minY ≤ 0 ∧ 0 < rect.maxY then
      rows.modify (rect.row 0) fun pixels => pixels.map fun _ => .line
    else rows
  if rect.minX ≤ 0 ∧ 0 < rect.maxX then
    rows.map fun pixels => pixels.modify (rect.column 0) fun _ => .line
  else rows

/-- Colours a frame. A palette can be handed in, to have one for many frames. -/
def ofFrame (f : Frame) (count : Int) (palette? : Option (Array Colour)) :
    Except HeatError Raster := do
  let palette ← match palette? with
    | some palette => pure palette
    | none => Heat.checkedPalette count
  let rows ← f.toArrays.mapM fun row => row.mapM (pixel count palette)
  return ⟨f.rect.width, (drawAxes f.rect rows).reverse⟩

/-- Every item `n` times in a row. -/
def repeated {α : Type} (n : Nat) (items : Array α) : Array α :=
  items.flatMap (Array.replicate n)

/-- Every pixel as a square of `n` by `n`. -/
def scale (n : Nat) (r : Raster) : Raster :=
  if n = 1 then r else ⟨r.width * n, (repeated n r.rows).map (repeated n)⟩

/-- The squares in arrays that are made for them; none are asked for where pixels stay as they
are. -/
def magnify (arrays : Arrays) (n : Nat) (r : Raster) : Except Refusal Raster := do
  Refusal.guard id (if n = 1 then none else arrays.magnifyRefusal? r.rows.size r.width n)
  return r.scale n

end Raster

/-- The text under a frame: the time if it is used, and the caption. -/
def footerLabel (t : Scalar) (upper : Int) (timeUsed : Bool) (caption : String) : String :=
  if timeUsed then "T: " ++ t.text ++ "/" ++ toString upper ++ " - " ++ caption else caption

end Isotherm
