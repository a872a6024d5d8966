import Isotherm.Sampling.Sample
import Mathlib.Data.Multiset.Bind
import Mathlib.Data.Multiset.Range

/-!
# Frames written cell by cell

A frame that is written at once, row after row, and one that is written cell after cell, column after
column, hold the same residuals and count the same ones near zero.
-/

namespace Isotherm

/-! ## The cells of a rectangle -/

namespace Sample

theorem mem_cells {rect : Rect} {cell : Int × Int} :
    cell ∈ cells rect ↔ rect.Contains cell.1 cell.2 := by
  obtain ⟨x, y⟩ := cell
  unfold cells Rect.Contains Rect.width Rect.height
  simp only [List.mem_flatMap, List.mem_map, List.mem_range, Prod.mk.injEq]
  constructor
  · rintro ⟨column, hcolumn, row, hrow, rfl, rfl⟩
    omega
  · rintro ⟨hx, hx', hy, hy'⟩
    refine ⟨(x - rect.minX).toNat, by omega, (y - rect.minY).toNat, by omega, by omega, by omega⟩

theorem length_cells (rect : Rect) : (cells rect).length = rect.area := by
  simp [cells, Rect.area, List.length_flatMap]

theorem exists_cells_eq_cons {rect : Rect} (h : 0 < rect.area) :
    ∃ cell rest, cells rect = cell :: rest := by
  refine List.exists_cons_of_length_pos ?_
  rw [length_cells]
  exact h

theorem cells_eq_nil {rect : Rect} (h : rect.area = 0) : cells rect = [] :=
  List.eq_nil_of_length_eq_zero ((length_cells rect).trans h)

/-- A table has the same entries row by row and column by column. -/
theorem flatMap_range_perm {α : Type} (m n : Nat) (f : Nat → Nat → α) :
    ((List.range m).flatMap fun i => (List.range n).map fun j => f i j).Perm
      ((List.range n).flatMap fun j => (List.range m).map fun i => f i j) := by
  rw [← Multiset.coe_eq_coe]
  simp only [← Multiset.coe_bind, ← Multiset.map_coe]
  exact Multiset.bind_map_comm ..

end Sample

namespace Frame

/-! ## Reading and writing single cells -/

theorem get_eq_of_contains {f : Frame} {x y : Int} (h : f.rect.Contains x y) :
    f.get x y =
      f.rows[(⟨f.rect.row y, Rect.row_lt h⟩ : Fin f.rect.height)][
        (⟨f.rect.column x, Rect.column_lt h⟩ : Fin f.rect.width)] := by
  rw [get, dif_pos h]
  rfl

/-- A frame is known by its residuals, its time and its count. -/
theorem ext_get {f g : Frame} (hrect : f.rect = g.rect) (ht : f.t = g.t) (hsets : f.sets = g.sets)
    (hget : ∀ x y, f.rect.Contains x y → f.get x y = g.get x y) : f = g := by
  obtain ⟨rect, rows, t, sets⟩ := f
  obtain ⟨rect', rows', t', sets'⟩ := g
  subst hrect ht hsets
  have hrows : rows = rows' := by
    refine Vector.ext fun row hrow => Vector.ext fun column hcolumn => ?_
    have hcell := Rect.contains_add hcolumn hrow
    have h := hget _ _ hcell
    rw [get_eq_of_contains hcell, get_eq_of_contains hcell] at h
    simpa only [Rect.column_add, Rect.row_add, Fin.getElem_fin] using h
  rw [hrows]

@[simp] theorem rect_set (f : Frame) (x y : Int) (v : Float) : (f.set x y v).rect = f.rect := by
  unfold set
  split <;> rfl

@[simp] theorem t_set (f : Frame) (x y : Int) (v : Float) : (f.set x y v).t = f.t := by
  unfold set
  split <;> rfl

theorem sets_set {f : Frame} {x y : Int} (h : f.rect.Contains x y) (v : Float) :
    (f.set x y v).sets = f.sets + if nearZero v then 1 else 0 := by
  rw [set, dif_pos h]
  cases nearZero v <;> rfl

theorem set_of_contains {f : Frame} {x y : Int} (h : f.rect.Contains x y) (v : Float) :
    f.set x y v =
      { f with
        rows := f.rows.set (f.rect.row y)
          (f.rows[(⟨f.rect.row y, Rect.row_lt h⟩ : Fin f.rect.height)].set (f.rect.column x) v
            (Rect.column_lt h))
          (Rect.row_lt h)
        sets := if nearZero v then f.sets + 1 else f.sets } := by
  rw [set, dif_pos h]
  rfl

theorem get_set {f : Frame} {x y : Int} (h : f.rect.Contains x y) (v : Float) (x' y' : Int) :
    (f.set x y v).get x' y' = if x = x' ∧ y = y' then v else f.get x' y' := by
  rw [set_of_contains h]
  unfold get
  by_cases h' : f.rect.Contains x' y'
  · simp only [dif_pos h', Vector.getElem_set]
    by_cases hrow : f.rect.row y = f.rect.row y'
    · simp only [if_pos hrow, Vector.getElem_set]
      by_cases hcolumn : f.rect.column x = f.rect.column x'
      · obtain ⟨rfl, rfl⟩ := Rect.eq_of_place_eq h h' hcolumn hrow
        simp
      · have hne : ¬(x = x' ∧ y = y') := fun hxy => hcolumn (by rw [hxy.1])
        simp only [if_neg hcolumn, if_neg hne, Fin.getElem_fin, hrow]
    · have hne : ¬(x = x' ∧ y = y') := fun hxy => hrow (by rw [hxy.2])
      simp only [if_neg hrow, if_neg hne]
  · have hne : ¬(x = x' ∧ y = y') := fun hxy => h' (hxy.1 ▸ hxy.2 ▸ h)
    simp only [dif_neg h', if_neg hne]

/-- Outside the rectangle nothing is written. -/
theorem set_of_not_contains {f : Frame} {x y : Int} (h : ¬f.rect.Contains x y) (v : Float) :
    f.set x y v = f := by
  rw [set, dif_neg h]

theorem get_of_not_contains {f : Frame} {x y : Int} (h : ¬f.rect.Contains x y) :
    f.get x y = 0.0 := by
  rw [get, dif_neg h]

/-! ## Runs of writes -/

/-- A residual that is written at a cell, which may lie outside the rectangle. -/
structure Write where
  cell : Int × Int
  value : Float

/-- The frame after one write after the other. -/
def run (f : Frame) (writes : List Write) : Frame :=
  writes.foldl (fun f w => f.set w.cell.1 w.cell.2 w.value) f

/-- What was written last at a cell. -/
def lastValue? (writes : List Write) (cell : Int × Int) : Option Float :=
  ((writes.filter fun w => w.cell = cell).getLast?).map Write.value

theorem lastValue?_append (writes : List Write) (w : Write) (cell : Int × Int) :
    lastValue? (writes ++ [w]) cell =
      if w.cell = cell then some w.value else lastValue? writes cell := by
  unfold lastValue?
  rw [List.filter_append]
  by_cases h : w.cell = cell
  · simp [h]
  · simp [h]

theorem run_append (f : Frame) (writes : List Write) (w : Write) :
    f.run (writes ++ [w]) = (f.run writes).set w.cell.1 w.cell.2 w.value :=
  List.foldl_append

@[simp] theorem rect_run (f : Frame) (writes : List Write) : (f.run writes).rect = f.rect := by
  induction writes using List.reverseRecOn with
  | nil => rfl
  | append_singleton writes w ih => rw [run_append, rect_set, ih]

@[simp] theorem t_run (f : Frame) (writes : List Write) : (f.run writes).t = f.t := by
  induction writes using List.reverseRecOn with
  | nil => rfl
  | append_singleton writes w ih => rw [run_append, t_set, ih]

/-- The count grows with every write near zero that falls into the rectangle. -/
theorem sets_run (f : Frame) (writes : List Write) :
    (f.run writes).sets = f.sets +
      writes.countP fun w => f.rect.Contains w.cell.1 w.cell.2 && nearZero w.value := by
  induction writes using List.reverseRecOn with
  | nil => rfl
  | append_singleton writes w ih =>
    rw [run_append, List.countP_append, List.countP_singleton]
    by_cases hcell : f.rect.Contains w.cell.1 w.cell.2
    · rw [sets_set (by rwa [rect_run]), ih]
      simp [hcell, Nat.add_assoc]
    · rw [set_of_not_contains (by rwa [rect_run]), ih]
      simp [hcell]

/-- A cell holds what was written there last, whatever else was written. -/
theorem get_run (f : Frame) (writes : List Write) (x y : Int) :
    (f.run writes).get x y =
      if f.rect.Contains x y then (lastValue? writes (x, y)).getD (f.get x y) else 0.0 := by
  by_cases h : f.rect.Contains x y
  · rw [if_pos h]
    induction writes using List.reverseRecOn with
    | nil => rfl
    | append_singleton writes w ih =>
      rw [run_append, lastValue?_append]
      by_cases hcell : f.rect.Contains w.cell.1 w.cell.2
      · rw [get_set (by rwa [rect_run]), ih]
        by_cases hxy : w.cell = (x, y)
        · rw [if_pos hxy, if_pos (Prod.ext_iff.mp hxy)]
          rfl
        · rw [if_neg hxy, if_neg (mt Prod.ext_iff.mpr hxy)]
      · have hxy : w.cell ≠ (x, y) := fun hxy => hcell (by rwa [hxy])
        rw [set_of_not_contains (by rwa [rect_run]), ih, if_neg hxy]
  · rw [if_neg h, get_of_not_contains (by rwa [rect_run])]

/-! ## Writing many cells -/

/-- The frame after some cells were written, each with its value. -/
def write (f : Frame) (value : Int × Int → Float) (cells : List (Int × Int)) : Frame :=
  cells.foldl (fun f cell => f.set cell.1 cell.2 (value cell)) f

section

variable (value : Int × Int → Float)

theorem write_eq_run (f : Frame) (cells : List (Int × Int)) :
    f.write value cells = f.run (cells.map fun cell => ⟨cell, value cell⟩) := by
  rw [run, List.foldl_map]
  rfl

theorem rect_write (f : Frame) (cells : List (Int × Int)) : (f.write value cells).rect = f.rect := by
  rw [write_eq_run, rect_run]

theorem t_write (f : Frame) (cells : List (Int × Int)) : (f.write value cells).t = f.t := by
  rw [write_eq_run, t_run]

theorem sets_write {f : Frame} {cells : List (Int × Int)}
    (h : ∀ cell ∈ cells, f.rect.Contains cell.1 cell.2) :
    (f.write value cells).sets = f.sets + cells.countP fun cell => nearZero (value cell) := by
  rw [write_eq_run, sets_run, List.countP_map]
  refine congrArg (f.sets + ·) (List.countP_congr fun cell hcell => ?_)
  simp [h cell hcell]

theorem lastValue?_map (cells : List (Int × Int)) (cell : Int × Int) :
    lastValue? (cells.map fun cell => ⟨cell, value cell⟩) cell =
      if cell ∈ cells then some (value cell) else none := by
  induction cells using List.reverseRecOn with
  | nil => rfl
  | append_singleton cells last ih =>
    rw [List.map_append, List.map_singleton, lastValue?_append, ih]
    by_cases h : last = cell
    · simp [h]
    · simp [h, Ne.symm h]

theorem get_write {f : Frame} {cells : List (Int × Int)}
    (h : ∀ cell ∈ cells, f.rect.Contains cell.1 cell.2) (x y : Int) :
    (f.write value cells).get x y = if (x, y) ∈ cells then value (x, y) else f.get x y := by
  rw [write_eq_run, get_run, lastValue?_map]
  by_cases hcell : f.rect.Contains x y
  · rw [if_pos hcell]
    split <;> rfl
  · rw [if_neg hcell, if_neg fun hmem => hcell (h _ hmem), get_of_not_contains hcell]

end

/-! ## Frames written at once -/

theorem get_ofFn {rect : Rect} {x y : Int} (h : rect.Contains x y) (value : Nat → Nat → Float)
    (t : Scalar) : (ofFn rect value t).get x y = value (rect.column x) (rect.row y) := by
  have hcontains : (ofFn rect value t).rect.Contains x y := h
  rw [get, dif_pos hcontains]
  simp [ofFn, ofRows]

theorem ofFn_eq_map_range {α : Type} (n : Nat) (f : Nat → α) :
    List.ofFn (fun i : Fin n => f i) = (List.range n).map f := by
  refine List.ext_getElem (by simp) fun i h h' => ?_
  simp

theorem countNearZero_eq {w h : Nat} (rows : Vector (Vector Float w) h) :
    countNearZero rows = (rows.toList.flatMap Vector.toList).countP nearZero := by
  unfold countNearZero
  induction rows.toList with
  | nil => rfl
  | cons row rest ih => rw [List.foldr_cons, ih, List.flatMap_cons, List.countP_append]

/-- The count of a frame written at once is that of its cells in any order. -/
theorem sets_ofFn (rect : Rect) (value : Nat → Nat → Float) (t : Scalar) :
    (ofFn rect value t).sets = (Sample.cells rect).countP fun cell =>
      nearZero (value (rect.column cell.1) (rect.row cell.2)) := by
  show countNearZero _ = _
  have hrow (row : Nat) :
      (Vector.ofFn fun column : Fin rect.width => value column row).toList =
        (List.range rect.width).map fun column => value column row := by
    rw [Vector.toList_ofFn, ofFn_eq_map_range rect.width fun column => value column row]
  rw [countNearZero_eq, Vector.toList_ofFn,
    ofFn_eq_map_range rect.height fun row => Vector.ofFn fun column => value column row,
    List.flatMap_map]
  simp only [hrow]
  rw [(Sample.flatMap_range_perm ..).countP_eq]
  simp only [Sample.cells, List.countP_flatMap, List.countP_map, Function.comp_def,
    Rect.column_add, Rect.row_add]

/-- Writing all cells one after another makes the frame that is written at once. -/
theorem write_empty (rect : Rect) (value : Int × Int → Float) (t : Scalar) :
    (empty rect t).write value (Sample.cells rect) =
      ofFn rect (fun column row => value (rect.minX + column, rect.minY + row)) t := by
  have hcells : ∀ cell ∈ Sample.cells rect, (empty rect t).rect.Contains cell.1 cell.2 :=
    fun cell => Sample.mem_cells.mp
  refine ext_get (rect_write ..) (t_write ..) ?_ fun x y h => ?_
  · rw [sets_write value hcells, sets_ofFn]
    show 0 + _ = _
    rw [Nat.zero_add]
    refine List.countP_congr fun cell hcell => ?_
    have h := Sample.mem_cells.mp hcell
    rw [Rect.minX_add_column h, Rect.minY_add_row h]
  · have h : rect.Contains x y := by
      rwa [rect_write] at h
    have hmem : (x, y) ∈ Sample.cells rect := Sample.mem_cells.mpr h
    rw [get_write value hcells, if_pos hmem, get_ofFn h, Rect.minX_add_column h,
      Rect.minY_add_row h]

theorem ofFn_of_area_eq_zero {rect : Rect} (h : rect.area = 0) (value : Nat → Nat → Float)
    (t : Scalar) : ofFn rect value t = empty rect t := by
  refine ext_get rfl rfl ?_ fun x y hcell => ?_
  · rw [sets_ofFn, Sample.cells_eq_nil h]
    rfl
  · have hmem : (x, y) ∈ Sample.cells rect := Sample.mem_cells.mpr hcell
    rw [Sample.cells_eq_nil h] at hmem
    cases hmem

end Frame
end Isotherm
