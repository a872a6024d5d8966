import Isotherm.Proofs.Number.Bounds
import Isotherm.Proofs.Sampling.Frames

/-!
# Scanning a rectangle

Where doubles hold the coordinates and the time, nothing stops a scan: every cell gets the residual
of its point, faults included, and the scan says whether any of them read the time.
-/

namespace Isotherm

/-- A double holds the coordinate or time. -/
def Scalar.Representable (s : Scalar) : Prop :=
  s.toFloat?.isSome = true

theorem Scalar.Representable.integer {n : Int} (h : (Scalar.integer n).Representable) :
    (Scalar.integer n).toFloat? = some (Integral.ofInt n) := by
  unfold Representable at h
  unfold toFloat? at h ⊢
  dsimp only at h ⊢
  split at h
  · cases h
  · rename_i hinf
    rw [if_neg hinf]
    rfl

theorem Scalar.representable_of_lt {n : Int} (h : n.natAbs < 2 ^ 53) :
    (Scalar.integer n).Representable := by
  rw [Representable, toFloat?_integer h]
  rfl

/-- The arrays for the rectangle are made, and doubles hold the coordinates of its columns and
rows. -/
structure Rect.Reachable (arrays : Arrays) (rect : Rect) : Prop where
  granted : arrays.Grants rect
  columns (x : Int) (h : rect.minX ≤ x) (h' : x < rect.maxX) : (Scalar.integer x).Representable
  rows (y : Int) (h : rect.minY ≤ y) (h' : y < rect.maxY) : (Scalar.integer y).Representable

namespace Sample

open Scaled

theorem double_eq {n : Int} (h : (Scalar.integer n).Representable) :
    double n = .ok (Integral.ofInt n) := by
  rw [double, h.integer]

theorem coordinate_eq {n : Int} (h : (Scalar.integer n).Representable) (cellSize : Float) :
    coordinate cellSize n = .ok (Integral.ofInt n * cellSize) := by
  rw [coordinate, double_eq h]
  rfl

variable {arrays : Arrays} {lower upper : Int}

/-- An axis of one place. -/
theorem axis_singleton (hmade : arrays.axisRefusal? lower (lower + 1) = none)
    (h : (Scalar.integer lower).Representable) :
    axis arrays lower (lower + 1) = .ok fun _ => Integral.ofInt lower := by
  have hempty : ¬lower + 1 ≤ lower := by omega
  unfold axis
  rw [hmade, Refusal.guard_none, if_neg hempty, double_eq h]
  simp only [if_true]
  rfl

/-- A longer axis goes on with the step from its first place to the second. -/
theorem axis_stepping (hmade : arrays.axisRefusal? lower upper = none)
    (hlong : lower + 1 < upper) (h : (Scalar.integer lower).Representable)
    (h' : (Scalar.integer (lower + 1)).Representable) :
    axis arrays lower upper = .ok fun i =>
      let start := Integral.value (Integral.ofInt lower)
      Integral.ofInt (start + (Integral.value (Integral.ofInt (lower + 1)) - start) * i) := by
  have hempty : ¬upper ≤ lower := by omega
  have hone : ¬upper = lower + 1 := by omega
  unfold axis
  rw [hmade, Refusal.guard_none, if_neg hempty, double_eq h, double_eq h']
  simp only [hone, if_false]
  rfl

theorem axis_of_refused {cause : Refusal} (h : arrays.axisRefusal? lower upper = some cause) :
    axis arrays lower upper = .error (.refused cause) := by
  unfold axis
  rw [h, Refusal.guard_some]
  rfl

theorem axis_of_overflow (hmade : arrays.axisRefusal? lower upper = none) (hne : lower < upper)
    (h : (Scalar.integer lower).toFloat? = none) :
    axis arrays lower upper = .error (.residual .overflow) := by
  have hempty : ¬upper ≤ lower := by omega
  unfold axis double
  rw [hmade, Refusal.guard_none, if_neg hempty, h]
  rfl

theorem exists_axis (hmade : arrays.axisRefusal? lower upper = none)
    (h : ∀ n, lower ≤ n → n < upper → (Scalar.integer n).Representable) :
    ∃ values, axis arrays lower upper = .ok values := by
  by_cases hempty : upper ≤ lower
  · unfold axis
    rw [hmade, Refusal.guard_none, if_pos hempty]
    exact ⟨_, rfl⟩
  · have hfirst := h lower (by omega) (by omega)
    by_cases hone : upper = lower + 1
    · subst hone
      exact ⟨_, axis_singleton hmade hfirst⟩
    · have hsecond := h (lower + 1) (by omega) (by omega)
      exact ⟨_, axis_stepping hmade (by omega) hfirst hsecond⟩

/-- Below `2 ^ 53` an axis runs through the integers. -/
theorem axis_value (hmade : arrays.axisRefusal? lower upper = none) (hl : lower.natAbs < 2 ^ 53)
    (hu : upper.natAbs < 2 ^ 53) {values : Nat → Float} (h : axis arrays lower upper = .ok values)
    {i : Nat} (hi : lower + i < upper) : values i = Integral.ofInt (lower + i) := by
  have hfirst := Scalar.representable_of_lt hl
  by_cases hone : upper = lower + 1
  · subst hone
    have hzero : i = 0 := by omega
    have hvalues := Except.ok.inj ((axis_singleton hmade hfirst).symm.trans h)
    rw [← hvalues, hzero, Nat.cast_zero, add_zero]
  · have hsecond : (lower + 1).natAbs < 2 ^ 53 := by omega
    have haxis := axis_stepping hmade (by omega) hfirst (Scalar.representable_of_lt hsecond)
    have hvalues := Except.ok.inj (haxis.symm.trans h)
    have hstep : lower + 1 - lower = 1 := by omega
    rw [← hvalues]
    simp only [Integral.value_ofInt hl, Integral.value_ofInt hsecond, hstep, one_mul]

end Sample

/-- A rectangle with bounds below `2 ^ 53` is reachable if its arrays are made. -/
theorem Rect.reachable_of_lt {arrays : Arrays} {rect : Rect} (hmade : arrays.Grants rect)
    (hx : rect.minX.natAbs < 2 ^ 53) (hx' : rect.maxX.natAbs < 2 ^ 53)
    (hy : rect.minY.natAbs < 2 ^ 53) (hy' : rect.maxY.natAbs < 2 ^ 53) :
    rect.Reachable arrays where
  granted := hmade
  columns x h h' := Scalar.representable_of_lt (by omega)
  rows y h h' := Scalar.representable_of_lt (by omega)

/-! ## One cell -/

namespace Equation

/-- The residual of two sides at the point of a cell. -/
def residualOfPlace (lhs rhs : Expr) (time cellSize : Float) (cell : Int × Int) : Residual :=
  residual lhs rhs (Integral.ofInt cell.1 * cellSize) (Integral.ofInt cell.2 * cellSize) time

variable {e : Equation} {arrays : Arrays} {lhs rhs : Expr} {rect : Rect} {t : Scalar} {time : Float}

/-- The residual of an equation at the point of a cell. -/
def residualNear (e : Equation) (cellSize : Float) (x y : Int) (t : Scalar) :
    Except ResidualError Residual :=
  e.residualAt false (.real (Integral.ofInt x * cellSize)) (.real (Integral.ofInt y * cellSize)) t

theorem residualNear_eq (he : e.sides? = some (lhs, rhs)) (ht : t.toFloat? = some time)
    (cellSize : Float) (x y : Int) :
    e.residualNear cellSize x y t = .ok (residualOfPlace lhs rhs time cellSize (x, y)) := by
  simp only [residualNear, residualAt, Scalar.toFloat?_real, ht, he]
  rfl

theorem residualOfCell_eq_residualNear (hr : rect.Reachable arrays) {cell : Int × Int}
    (hcell : rect.Contains cell.1 cell.2) (cellSize : Float) :
    e.residualOfCell t cellSize cell =
      (e.residualNear cellSize cell.1 cell.2 t).mapError .residual := by
  obtain ⟨hx, hx', hy, hy'⟩ := hcell
  rw [residualOfCell, Sample.coordinate_eq (hr.columns _ hx hx'),
    Sample.coordinate_eq (hr.rows _ hy hy')]
  rfl

theorem residualOfCell_eq (he : e.sides? = some (lhs, rhs)) (hr : rect.Reachable arrays)
    (ht : t.toFloat? = some time) (cellSize : Float) {cell : Int × Int}
    (hcell : rect.Contains cell.1 cell.2) :
    e.residualOfCell t cellSize cell = .ok (residualOfPlace lhs rhs time cellSize cell) := by
  rw [residualOfCell_eq_residualNear hr hcell, residualNear_eq he ht]
  rfl

/-! ## All cells -/

/-- What a scan makes of the residuals of its cells. -/
def scanned (rect : Rect) (t : Scalar) (value : Int × Int → Residual) : Sample :=
  (Sample.cells rect).foldl (fun s cell => s.add cell (value cell)) (Sample.empty rect t)

theorem scanCells_eq {cellSize : Float} {value : Int × Int → Residual}
    (hmade : arrays.gridRefusal? rect.height rect.width = none)
    (h : ∀ cell, rect.Contains cell.1 cell.2 → e.residualOfCell t cellSize cell = .ok (value cell)) :
    e.scanCells arrays rect t cellSize = .ok (scanned rect t value) := by
  have hcells : ∀ cell ∈ Sample.cells rect,
      e.residualOfCell t cellSize cell = .ok (value cell) :=
    fun cell hcell => h cell (Sample.mem_cells.mp hcell)
  unfold scanCells scanned
  rw [hmade, Refusal.guard_none]
  show List.foldlM _ _ _ = _
  generalize Sample.empty rect t = s
  generalize Sample.cells rect = cells at hcells ⊢
  induction cells generalizing s with
  | nil => rfl
  | cons cell cells ih =>
    obtain ⟨hcell, hrest⟩ := List.forall_mem_cons.mp hcells
    rw [List.foldlM_cons, hcell]
    exact ih _ hrest

theorem frame_scanned (value : Int × Int → Residual) :
    (scanned rect t value).frame =
      Frame.ofFn rect (fun column row => (value (rect.minX + column, rect.minY + row)).value) t := by
  rw [← Frame.write_empty rect (fun cell => (value cell).value) t]
  have hfold (cells : List (Int × Int)) (s : Sample) :
      (cells.foldl (fun s cell => s.add cell (value cell)) s).frame =
        s.frame.write (fun cell => (value cell).value) cells := by
    induction cells generalizing s with
    | nil => rfl
    | cons cell cells ih => exact ih _
  exact hfold _ _

theorem timeUsed_scanned (value : Int × Int → Residual) :
    (scanned rect t value).timeUsed = (Sample.cells rect).any fun cell => (value cell).timeUsed := by
  have hfold (cells : List (Int × Int)) (s : Sample) :
      (cells.foldl (fun s cell => s.add cell (value cell)) s).timeUsed =
        (s.timeUsed || cells.any fun cell => (value cell).timeUsed) := by
    induction cells generalizing s with
    | nil => simp
    | cons cell cells ih =>
      rw [List.foldl_cons, ih, List.any_cons, ← Bool.or_assoc]
      rfl
  exact (hfold _ _).trans (Bool.false_or _)

end Equation
end Isotherm
