import Isotherm.Proofs.Evaluation.Correspondence
import Isotherm.Proofs.Sampling.Scan

/-!
# One pass and a scan agree

Sampling a rectangle in one pass and scanning it cell by cell give the same frame, and agree on
whether the time was read. The pass faults exactly where every cell does, and all cells fault for the
same cause; then every residual is zero and counts as written.
-/

namespace Isotherm

namespace Equation

variable {e : Equation} {arrays : Arrays} {lhs rhs : Expr} {rect : Rect} {t : Scalar}
  {time cellSize : Float} {xs ys : Nat → Float}

/-! ## The pass -/

/-- The bindings of all cells, from the places of their columns and rows. -/
def gridBindings (xs ys : Nat → Float) (cellSize time : Float) : Bindings (Cell → Float) :=
  ⟨fun c => xs c.1 * cellSize, fun c => ys c.2 * cellSize, fun _ => time⟩

theorem exists_sides_and_axes (hb : e.isBound = true) (hr : rect.Reachable arrays) :
    ∃ lhs rhs xs ys, e.sides? = some (lhs, rhs) ∧
      Sample.axis arrays rect.minX rect.maxX = .ok xs ∧
      Sample.axis arrays rect.minY rect.maxY = .ok ys := by
  obtain ⟨⟨lhs, rhs⟩, he⟩ := Option.isSome_iff_exists.mp hb
  obtain ⟨xs, hxs⟩ := Sample.exists_axis hr.granted.columns hr.columns
  obtain ⟨ys, hys⟩ := Sample.exists_axis hr.granted.rows hr.rows
  exact ⟨lhs, rhs, xs, ys, he, hxs, hys⟩

theorem sample_of_run_eq_ok (he : e.sides? = some (lhs, rhs))
    (hgrid : arrays.gridRefusal? rect.height rect.width = none)
    (hxs : Sample.axis arrays rect.minX rect.maxX = .ok xs)
    (hys : Sample.axis arrays rect.minY rect.maxY = .ok ys)
    (ht : t.toFloat? = some time) {value : Cell → Float} {reads : Reads}
    (hrun : run (.field Cell) false (gridBindings xs ys cellSize time) lhs rhs =
      (.ok value, reads)) :
    e.sample arrays rect t cellSize =
      .ok ⟨Frame.ofFn rect (fun column row => value (column, row)) t, reads.t, #[]⟩ := by
  unfold gridBindings at hrun
  simp only [sample, he, hxs, hys, Sample.wholeGrid, hgrid, Option.isSome_none, ht, Option.bind_some,
    bind, Except.bind, hrun, Bool.false_eq_true, if_false]
  rfl

theorem sample_of_run_eq_error (he : e.sides? = some (lhs, rhs))
    (hxs : Sample.axis arrays rect.minX rect.maxX = .ok xs)
    (hys : Sample.axis arrays rect.minY rect.maxY = .ok ys)
    (ht : t.toFloat? = some time) {c : Stop} {reads : Reads}
    (hrun : run (.field Cell) false (gridBindings xs ys cellSize time) lhs rhs =
      (.error c, reads)) :
    e.sample arrays rect t cellSize = e.scanCells arrays rect t cellSize := by
  have hnone : Sample.wholeGrid arrays lhs rhs rect (fun i => xs i * cellSize)
      (fun i => ys i * cellSize) t = none := by
    unfold gridBindings at hrun
    simp only [Sample.wholeGrid, ht, Option.bind_some, hrun, ite_self]
  simp only [sample, he, hxs, hys, bind, Except.bind, hnone]

/-! ## The cells -/

/-- Where the pass has a value, every cell has its residual without a fault. -/
theorem residualOfPlace_of_run_eq_ok {value : Cell → Float} {reads : Reads}
    (hrun : run (.field Cell) false (gridBindings xs ys cellSize time) lhs rhs =
      (.ok value, reads))
    (hxs : ∀ i : Nat, rect.minX + i < rect.maxX → xs i = Integral.ofInt (rect.minX + i))
    (hys : ∀ i : Nat, rect.minY + i < rect.maxY → ys i = Integral.ofInt (rect.minY + i))
    {x y : Int} (hcell : rect.Contains x y) :
    residualOfPlace lhs rhs time cellSize (x, y) =
      ⟨value (rect.column x, rect.row y), reads.t, none⟩ := by
  have hpoint := run_point (gridBindings xs ys cellSize time) false lhs rhs
    (rect.column x, rect.row y)
  have hcolumn := Rect.minX_add_column hcell
  have hrow := Rect.minY_add_row hcell
  obtain ⟨-, hx, -, hy⟩ := hcell
  have hbindings : (gridBindings xs ys cellSize time).at (rect.column x, rect.row y) =
      ⟨Integral.ofInt x * cellSize, Integral.ofInt y * cellSize, time⟩ := by
    have hplaceX := hxs (rect.column x) (by omega)
    have hplaceY := hys (rect.row y) (by omega)
    rw [hcolumn] at hplaceX
    rw [hrow] at hplaceY
    rw [← hplaceX, ← hplaceY]
    rfl
  rw [hrun, hbindings] at hpoint
  unfold residualOfPlace residual
  simp only [hpoint]
  rfl

/-- Where the pass faults, every point has the fault. -/
theorem residual_of_run_eq_error {α : Type} {A : Arithmetic α} {b : Bindings α} {c : Stop}
    {reads : Reads} (hrun : run A false b lhs rhs = (.error c, reads)) (x y t : Float) :
    residual lhs rhs x y t = ⟨0.0, reads.t, some c⟩ := by
  unfold residual
  rw [run_eq_error hrun .point ⟨x, y, t⟩]

/-- The scan after a fault of the pass: zeros everywhere. -/
theorem scanCells_of_run_eq_error (he : e.sides? = some (lhs, rhs)) (hr : rect.Reachable arrays)
    (ht : t.toFloat? = some time) {α : Type} {A : Arithmetic α} {b : Bindings α} {c : Stop}
    {reads : Reads} (hrun : run A false b lhs rhs = (.error c, reads)) (cellSize : Float) :
    ∃ s, e.scanCells arrays rect t cellSize = .ok s ∧ s.frame = Frame.ofFn rect (fun _ _ => 0.0) t ∧
      s.timeUsed = (Sample.cells rect).any fun _ => reads.t := by
  refine ⟨scanned rect t fun _ => ⟨0.0, reads.t, some c⟩, ?_, frame_scanned _, timeUsed_scanned _⟩
  refine scanCells_eq hr.granted.grid fun cell hcell => ?_
  rw [residualOfCell_eq he hr ht cellSize hcell]
  exact congrArg _ (residual_of_run_eq_error hrun ..)

/-! ## Agreement -/

theorem any_cells (harea : 0 < rect.area) (used : Bool) :
    ((Sample.cells rect).any fun _ => used) = used := by
  obtain ⟨cell, cells, hcells⟩ := Sample.exists_cells_eq_cons harea
  rw [hcells]
  cases used <;> simp

theorem sets_ofFn_zero (rect : Rect) (t : Scalar) :
    (Frame.ofFn rect (fun _ _ => 0.0) t).sets = rect.area := by
  have hzero : nearZero 0.0 = true := by decide +kernel
  rw [Frame.sets_ofFn, ← Sample.length_cells rect]
  simp [hzero]

/-- A pass without a fault and the scan. -/
theorem scanCells_of_run_eq_ok (he : e.sides? = some (lhs, rhs)) (hr : rect.Reachable arrays)
    (ht : t.toFloat? = some time) {value : Cell → Float} {reads : Reads}
    (hrun : run (.field Cell) false (gridBindings xs ys cellSize time) lhs rhs =
      (.ok value, reads))
    (hxs : ∀ i : Nat, rect.minX + i < rect.maxX → xs i = Integral.ofInt (rect.minX + i))
    (hys : ∀ i : Nat, rect.minY + i < rect.maxY → ys i = Integral.ofInt (rect.minY + i)) :
    ∃ s, e.scanCells arrays rect t cellSize = .ok s ∧
      s.frame = Frame.ofFn rect (fun column row => value (column, row)) t ∧
      s.timeUsed = (Sample.cells rect).any fun _ => reads.t := by
  let place (cell : Int × Int) : Cell := (rect.column cell.1, rect.row cell.2)
  refine ⟨scanned rect t fun cell => ⟨value (place cell), reads.t, none⟩, ?_, ?_,
    timeUsed_scanned _⟩
  · refine scanCells_eq hr.granted.grid fun cell hcell => ?_
    rw [residualOfCell_eq he hr ht cellSize hcell]
    exact congrArg _ (residualOfPlace_of_run_eq_ok hrun hxs hys hcell)
  · rw [frame_scanned]
    simp only [place, Rect.column_add, Rect.row_add]

/-- A scan stops at its first cell if no double holds the time. -/
theorem scanCells_of_overflow (hr : rect.Reachable arrays) (harea : 0 < rect.area)
    (ht : t.toFloat? = none) :
    e.scanCells arrays rect t cellSize = .error (.residual .overflow) := by
  rw [scanCells, hr.granted.grid, Refusal.guard_none]
  show List.foldlM _ _ _ = _
  obtain ⟨cell, cells, hcells⟩ := Sample.exists_cells_eq_cons harea
  have hcell : rect.Contains cell.1 cell.2 :=
    Sample.mem_cells.mp (by rw [hcells]; exact List.mem_cons_self)
  have hresidual : e.residualOfCell t cellSize cell = .error (.residual .overflow) := by
    rw [residualOfCell_eq_residualNear hr hcell]
    simp only [residualNear, residualAt, Scalar.toFloat?_real, ht]
    rfl
  rw [hcells, List.foldlM_cons, hresidual]
  rfl

/-- The pass over the grid does not get to the time then, and leaves the grid to a scan. -/
theorem sample_of_overflow (hb : e.isBound = true) (hr : rect.Reachable arrays)
    (harea : 0 < rect.area) (ht : t.toFloat? = none) :
    e.sample arrays rect t cellSize = .error (.residual .overflow) := by
  obtain ⟨lhs, rhs, xs, ys, he, hxs, hys⟩ := exists_sides_and_axes hb hr
  have hscan : e.sample arrays rect t cellSize = e.scanCells arrays rect t cellSize := by
    simp only [sample, he, hxs, hys, Sample.wholeGrid, ht, Option.bind_none, ite_self, bind,
      Except.bind]
  rw [hscan]
  exact scanCells_of_overflow hr harea ht

/-- One pass over a grid and a scan of its cells agree, and each cell has the residual of its point.
Either no cell faults, or every one does and is recovered from with zero. At a time that no double
holds, both fail. -/
theorem sample_agrees_with_scan (e : Equation) (hb : e.isBound = true) (arrays : Arrays)
    (rect : Rect) (hmade : arrays.Grants rect) (harea : 0 < rect.area)
    (hx : rect.minX.natAbs < 2 ^ 53) (hx' : rect.maxX.natAbs < 2 ^ 53)
    (hy : rect.minY.natAbs < 2 ^ 53) (hy' : rect.maxY.natAbs < 2 ^ 53) (t : Scalar)
    (cellSize : Float) :
    (t.Representable → ∃ s s', e.sample arrays rect t cellSize = .ok s ∧
      e.scanCells arrays rect t cellSize = .ok s' ∧
      s.frame = s'.frame ∧ s.timeUsed = s'.timeUsed ∧ s.frame.rect = rect ∧ s.frame.t = t ∧
      (∀ x y, rect.Contains x y →
        ∃ r, e.residualNear cellSize x y t = .ok r ∧ s.frame.get x y = r.value) ∧
      ((∀ x y, rect.Contains x y →
        ∃ r, e.residualNear cellSize x y t = .ok r ∧ r.recovered = none) ∨
      (∀ x y, rect.Contains x y → ∃ r fault, e.residualNear cellSize x y t = .ok r ∧
        r.recovered = some fault ∧ r.value = 0.0) ∧ s.frame.sets = rect.area)) ∧
    (¬ t.Representable → e.sample arrays rect t cellSize = .error (.residual .overflow) ∧
      e.scanCells arrays rect t cellSize = .error (.residual .overflow)) := by
  have hr := Rect.reachable_of_lt hmade hx hx' hy hy'
  refine ⟨fun ht => ?_, fun ht => ?_⟩
  · obtain ⟨lhs, rhs, xs, ys, he, hxs, hys⟩ := exists_sides_and_axes hb hr
    obtain ⟨time, htime⟩ := Option.isSome_iff_exists.mp ht
    have hplace := residualNear_eq he htime cellSize
    cases hrun : run (.field Cell) false (gridBindings xs ys cellSize time) lhs rhs with
    | mk outcome reads =>
      cases outcome with
      | error c =>
        obtain ⟨s, hs, hframe, -⟩ := scanCells_of_run_eq_error he hr htime hrun cellSize
        have hresidual (x y : Int) : residualOfPlace lhs rhs time cellSize (x, y) =
            ⟨0.0, reads.t, some c⟩ := residual_of_run_eq_error hrun ..
        refine ⟨s, s, (sample_of_run_eq_error he hxs hys htime hrun).trans hs, hs, rfl, rfl, ?_, ?_,
          fun x y hcell => ⟨_, hplace x y, ?_⟩,
          .inr ⟨fun x y _ => ⟨_, c, hplace x y, ?_, ?_⟩, ?_⟩⟩
        · rw [hframe]
          rfl
        · rw [hframe]
          rfl
        · rw [hframe, Frame.get_ofFn hcell, hresidual]
        · rw [hresidual]
        · rw [hresidual]
        · rw [hframe, sets_ofFn_zero]
      | ok value =>
        have hcolumn (i : Nat) (hi : rect.minX + i < rect.maxX) :=
          Sample.axis_value hmade.columns hx hx' hxs hi
        have hrow (i : Nat) (hi : rect.minY + i < rect.maxY) :=
          Sample.axis_value hmade.rows hy hy' hys hi
        obtain ⟨s', hs', hframe, hused⟩ := scanCells_of_run_eq_ok he hr htime hrun hcolumn hrow
        have hresidual {x y : Int} (hcell : rect.Contains x y) :=
          residualOfPlace_of_run_eq_ok hrun hcolumn hrow hcell
        refine ⟨_, s', sample_of_run_eq_ok he hr.granted.grid hxs hys htime hrun, hs', hframe.symm,
          ?_, rfl, rfl, fun x y hcell => ⟨_, hplace x y, ?_⟩,
          .inl fun x y hcell => ⟨_, hplace x y, ?_⟩⟩
        · rw [hused, any_cells harea]
        · rw [Frame.get_ofFn hcell, hresidual hcell]
        · rw [hresidual hcell]
  · have hnone : t.toFloat? = none := Option.not_isSome_iff_eq_none.mp ht
    exact ⟨sample_of_overflow hb hr harea hnone, scanCells_of_overflow hr harea hnone⟩

/-- The operator of the tree is unknown, so every cell faults. -/
theorem sample_agrees_with_scan_fault :
    let e := ofSides (.var "y") (.binary (.var "T") (.unknown "&") (.call "Sin" (.var "x")))
    let rect : Rect := ⟨-1, 0, 2, 2⟩
    let t : Scalar := .real 0.25
    let arrays := Arrays.addressed
    (e.isBound = true ∧ arrays.Grants rect ∧ 0 < rect.area ∧ rect.minX.natAbs < 2 ^ 53 ∧
      rect.maxX.natAbs < 2 ^ 53 ∧ rect.minY.natAbs < 2 ^ 53 ∧ rect.maxY.natAbs < 2 ^ 53 ∧
      t.Representable) ∧
    ∃ s s', e.sample arrays rect t 0.5 = .ok s ∧ e.scanCells arrays rect t 0.5 = .ok s' ∧
      s.frame = s'.frame ∧ s.timeUsed = s'.timeUsed ∧ s.frame.rect = rect ∧ s.frame.t = t ∧
      (∀ x y, rect.Contains x y →
        ∃ r, e.residualNear 0.5 x y t = .ok r ∧ s.frame.get x y = r.value) ∧
      ((∀ x y, rect.Contains x y →
        ∃ r, e.residualNear 0.5 x y t = .ok r ∧ r.recovered = none) ∨
      (∀ x y, rect.Contains x y → ∃ r fault, e.residualNear 0.5 x y t = .ok r ∧
        r.recovered = some fault ∧ r.value = 0.0) ∧ s.frame.sets = rect.area) := by
  intro e rect t arrays
  have hb : e.isBound = true := rfl
  have hmade : arrays.Grants rect := by constructor <;> decide +kernel
  have harea : 0 < rect.area := by decide
  have ht : t.Representable := rfl
  exact ⟨⟨hb, hmade, harea, by decide, by decide, by decide, by decide, ht⟩,
    (sample_agrees_with_scan e hb arrays rect hmade harea (by decide) (by decide) (by decide)
      (by decide) t 0.5).1 ht⟩

/-! ## Times past all doubles -/

theorem toFloat?_past_doubles : (Scalar.integer (10 ^ 400)).toFloat? = none := by
  have hnone : (Scalar.integer (10 ^ 400)).toFloat?.isNone = true := by decide +kernel
  exact Option.isNone_iff_eq_none.mp hnone

/-- A time past the largest double cannot be sampled, even by an equation that does not read it. -/
theorem sample_past_doubles :
    let e := ofSides (.var "y") (.var "x")
    let rect : Rect := ⟨0, 0, 1, 1⟩
    let arrays := Arrays.addressed
    (e.isBound = true ∧ arrays.Grants rect ∧ 0 < rect.area ∧ rect.minX.natAbs < 2 ^ 53 ∧
      rect.maxX.natAbs < 2 ^ 53 ∧ rect.minY.natAbs < 2 ^ 53 ∧ rect.maxY.natAbs < 2 ^ 53) ∧
    e.sample arrays rect (.integer (10 ^ 400)) 1.0 = .error (.residual .overflow) := by
  intro e rect arrays
  have hmade : arrays.Grants rect := by constructor <;> decide +kernel
  have hr : rect.Reachable arrays :=
    Rect.reachable_of_lt hmade (by decide) (by decide) (by decide) (by decide)
  exact ⟨⟨rfl, hmade, by decide, by decide, by decide, by decide, by decide⟩,
    sample_of_overflow rfl hr (by decide) toFloat?_past_doubles⟩

end Equation
end Isotherm
