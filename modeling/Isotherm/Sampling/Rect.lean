/-!
# Rectangles of cells

A rectangle of integer cells, with its lower bounds inside and its upper bounds outside. One whose
bounds are out of order is empty.
-/

namespace Isotherm

/-- The cells `(x, y)` with `minX ≤ x < maxX` and `minY ≤ y < maxY`. -/
structure Rect where
  minX : Int
  minY : Int
  maxX : Int
  maxY : Int
deriving DecidableEq, Repr

namespace Rect

/-- The square of cells that reaches `size` to each side of the origin. -/
def aroundOrigin (size : Int) : Rect := ⟨-size, -size, size, size⟩

def width (r : Rect) : Nat := (r.maxX - r.minX).toNat

def height (r : Rect) : Nat := (r.maxY - r.minY).toNat

def area (r : Rect) : Nat := r.width * r.height

/-- Whether the cell `(x, y)` lies in the rectangle. -/
def Contains (r : Rect) (x y : Int) : Prop :=
  r.minX ≤ x ∧ x < r.maxX ∧ r.minY ≤ y ∧ y < r.maxY

instance (r : Rect) (x y : Int) : Decidable (r.Contains x y) :=
  inferInstanceAs (Decidable (_ ∧ _ ∧ _ ∧ _))

/-- The column of the cells at `x`, counted from the left. -/
def column (r : Rect) (x : Int) : Nat := (x - r.minX).toNat

/-- The row of the cells at `y`, counted from the lowest. -/
def row (r : Rect) (y : Int) : Nat := (y - r.minY).toNat

theorem column_lt {r : Rect} {x y : Int} (h : r.Contains x y) : r.column x < r.width := by
  unfold Contains at h
  unfold column width
  omega

theorem row_lt {r : Rect} {x y : Int} (h : r.Contains x y) : r.row y < r.height := by
  unfold Contains at h
  unfold row height
  omega

@[simp] theorem column_add (r : Rect) (n : Nat) : r.column (r.minX + n) = n := by
  unfold column
  omega

@[simp] theorem row_add (r : Rect) (n : Nat) : r.row (r.minY + n) = n := by
  unfold row
  omega

theorem minX_add_column {r : Rect} {x y : Int} (h : r.Contains x y) :
    r.minX + (r.column x : Int) = x := by
  unfold Contains at h
  unfold column
  omega

theorem minY_add_row {r : Rect} {x y : Int} (h : r.Contains x y) :
    r.minY + (r.row y : Int) = y := by
  unfold Contains at h
  unfold row
  omega

theorem contains_add {r : Rect} {column row : Nat} (hcolumn : column < r.width)
    (hrow : row < r.height) : r.Contains (r.minX + column) (r.minY + row) := by
  unfold width at hcolumn
  unfold height at hrow
  unfold Contains
  omega

/-- A cell is known by its column and its row. -/
theorem eq_of_place_eq {r : Rect} {x y x' y' : Int} (h : r.Contains x y) (h' : r.Contains x' y')
    (hx : r.column x = r.column x') (hy : r.row y = r.row y') : x = x' ∧ y = y' := by
  constructor
  · rw [← minX_add_column h, hx, minX_add_column h']
  · rw [← minY_add_row h, hy, minY_add_row h']

def outline (r : Rect) : String :=
  "GridRect(min_x=" ++ toString r.minX ++ ", min_y=" ++ toString r.minY
    ++ ", max_x=" ++ toString r.maxX ++ ", max_y=" ++ toString r.maxY ++ ")"

end Rect
end Isotherm
