import Isotherm.Proofs.Sampling.NearZero

/-!
# A frame under any run of writes

A frame is a finite map from the cells of its rectangle to residuals, which no write outside the
rectangle reaches. Its count is not a function of the residuals: a cell that is written twice can
count twice. It is the number of writes near zero, and so that of the residuals near zero once every
cell was written a single time.
-/

namespace Isotherm

/-! ## Values that are handed in -/

namespace Buffer

/-- The value in a row and a column of a nesting of two levels. -/
def valueAt? (b : Buffer) (row column : Nat) : Option Float :=
  match b.items[row]?.bind (·.items[column]?) with
  | some (value v) => some v
  | _ => none

theorem shapes_of_meet {a b : Shape} {lengths : List Nat} (h : a.meet b = ⟨lengths, false⟩) :
    a = ⟨lengths, false⟩ ∧ b = ⟨lengths, false⟩ := by
  obtain ⟨as, aragged⟩ := a
  obtain ⟨bs, bragged⟩ := b
  simp only [Shape.meet, Shape.mk.injEq, Bool.or_eq_false_iff, bne_eq_false_iff_eq] at h ⊢
  obtain ⟨hcommon, ⟨⟨ha, hb⟩, has⟩, hbs⟩ := h
  rw [hcommon] at has hbs
  exact ⟨⟨has, ha⟩, hbs, hb⟩

theorem shapes_of_meetAll {items : List Buffer} {found : Shape} {lengths : List Nat}
    (h : meetAll found items = ⟨lengths, false⟩) :
    found = ⟨lengths, false⟩ ∧ ∀ item ∈ items, item.shape = ⟨lengths, false⟩ := by
  induction items generalizing found with
  | nil =>
    rw [meetAll] at h
    exact ⟨h, by simp⟩
  | cons item items ih =>
    rw [meetAll] at h
    obtain ⟨hmeet, hitems⟩ := ih h
    obtain ⟨hfound, hitem⟩ := shapes_of_meet hmeet
    exact ⟨hfound, List.forall_mem_cons.mpr ⟨hitem, hitems⟩⟩

/-- A regular nesting has as many items as its shape says, all of the shape within. -/
theorem items_of_shape {b : Buffer} {n : Nat} {lengths : List Nat}
    (h : b.shape = ⟨n :: lengths, false⟩) :
    b.items.length = n ∧ ∀ item ∈ b.items, item.shape = ⟨lengths, false⟩ := by
  cases b with
  | value v =>
    rw [shape] at h
    cases h
  | list items =>
    cases items with
    | nil =>
      rw [shape] at h
      cases h
      exact ⟨rfl, by simp [Buffer.items]⟩
    | cons first rest =>
      rw [shape] at h
      simp only [Shape.mk.injEq, List.cons.injEq] at h
      obtain ⟨⟨hlength, hlengths⟩, hragged⟩ := h
      have hinner : meetAll first.shape rest = ⟨lengths, false⟩ := by
        rw [← hlengths, ← hragged]
      obtain ⟨hfirst, hrest⟩ := shapes_of_meetAll hinner
      exact ⟨hlength, List.forall_mem_cons.mpr ⟨hfirst, hrest⟩⟩

theorem exists_value_of_shape {b : Buffer} (h : b.shape = ⟨[], false⟩) : ∃ v, b = value v := by
  cases b with
  | value v => exact ⟨v, rfl⟩
  | list items =>
    cases items <;>
    · rw [shape] at h
      cases h

theorem valueAt?_of_shape {b : Buffer} {height width row column : Nat}
    (h : b.shape = ⟨[height, width], false⟩) (hrow : row < height) (hcolumn : column < width) :
    b.valueAt? row column = some ((b.rows.getD row #[]).getD column 0.0) := by
  obtain ⟨hheight, hrows⟩ := items_of_shape h
  have hrow : row < b.items.length := by rwa [hheight]
  obtain ⟨hwidth, hvalues⟩ := items_of_shape (hrows _ (List.getElem_mem hrow))
  have hcolumn : column < b.items[row].items.length := by rwa [hwidth]
  obtain ⟨v, hv⟩ := exists_value_of_shape (hvalues _ (List.getElem_mem hcolumn))
  simp [valueAt?, rows, hrow, hcolumn, hv, leaf]

end Buffer

namespace Frame

theorem get_empty (rect : Rect) (t : Scalar) (x y : Int) : (empty rect t).get x y = 0.0 := by
  unfold get
  split
  · simp [empty]
  · rfl

theorem rows_eq (f : Frame) :
    f.rows = Vector.ofFn fun row : Fin f.rect.height => Vector.ofFn fun column : Fin f.rect.width =>
      f.get (f.rect.minX + (column : Nat)) (f.rect.minY + (row : Nat)) := by
  refine Vector.ext fun row hrow => Vector.ext fun column hcolumn => ?_
  rw [Vector.getElem_ofFn, Vector.getElem_ofFn, get_eq_of_contains (Rect.contains_add hcolumn hrow)]
  simp only [Rect.row_add, Rect.column_add, Fin.getElem_fin]

/-- Counting the residuals of a frame goes over its cells. -/
theorem recount_eq (f : Frame) :
    f.recount = (Sample.cells f.rect).countP fun cell => nearZero (f.get cell.1 cell.2) := by
  have hrows : f.recount = (ofFn f.rect (fun column row =>
      f.get (f.rect.minX + column) (f.rect.minY + row)) f.t).sets :=
    congrArg countNearZero f.rows_eq
  rw [hrows, sets_ofFn]
  refine List.countP_congr fun cell hcell => ?_
  have h := Sample.mem_cells.mp hcell
  rw [Rect.minX_add_column h, Rect.minY_add_row h]

/-- A frame of values that were handed in holds them all, and counts those near zero. -/
theorem ofBuffer_spec {rect : Rect} {b : Buffer} {t : Scalar} {f : Frame}
    (h : ofBuffer rect b t = .ok f) :
    f.rect = rect ∧ f.t = t ∧ f.sets = f.recount ∧
      ∀ x y, rect.Contains x y → b.valueAt? (rect.row y) (rect.column x) = some (f.get x y) := by
  unfold ofBuffer at h
  dsimp only at h
  split at h
  · cases h
  next hragged =>
  split at h
  next hlengths =>
    obtain rfl := Except.ok.inj h
    have hshape : b.shape = ⟨[rect.height, rect.width], false⟩ := by
      rw [← hlengths, ← Bool.eq_false_iff.mpr hragged]
    refine ⟨rfl, rfl, rfl, fun x y hcell => ?_⟩
    rw [get_ofFn hcell]
    exact Buffer.valueAt?_of_shape hshape (Rect.row_lt hcell) (Rect.column_lt hcell)
  · cases h

/-! ## Cells that are written once -/

/-- The writes that fall into the rectangle. -/
def inside (rect : Rect) (writes : List Write) : List Write :=
  writes.filter fun w => rect.Contains w.cell.1 w.cell.2

/-- No cell of the rectangle is written twice. -/
def Apart (rect : Rect) (writes : List Write) : Prop :=
  ((inside rect writes).map Write.cell).Nodup

/-- Every cell of the rectangle is written. -/
def Covering (rect : Rect) (writes : List Write) : Prop :=
  ∀ cell : Int × Int, rect.Contains cell.1 cell.2 → ∃ w ∈ writes, w.cell = cell

section Writes

variable {rect : Rect} {writes writes' : List Write}

theorem mem_inside {w : Write} :
    w ∈ inside rect writes ↔ w ∈ writes ∧ rect.Contains w.cell.1 w.cell.2 := by
  rw [inside, List.mem_filter, decide_eq_true_iff]

theorem mem_of_lastValue?_eq_some {cell : Int × Int} {v : Float}
    (h : lastValue? writes cell = some v) : ⟨cell, v⟩ ∈ writes := by
  unfold lastValue? at h
  obtain ⟨w, hlast, rfl⟩ := Option.map_eq_some_iff.mp h
  obtain ⟨hw, hcell⟩ := List.mem_filter.mp (List.mem_of_getLast? hlast)
  obtain rfl := of_decide_eq_true hcell
  exact hw

theorem exists_lastValue? {w : Write} (hw : w ∈ writes) : ∃ v, lastValue? writes w.cell = some v := by
  have hne : writes.filter (fun w' => w'.cell = w.cell) ≠ [] :=
    List.ne_nil_of_mem (List.mem_filter.mpr ⟨hw, decide_eq_true rfl⟩)
  exact ⟨_, by rw [lastValue?, List.getLast?_eq_some_getLast hne]; rfl⟩

/-- Where no cell is written twice, what was written last at a cell is what was written there. -/
theorem lastValue?_eq_some_iff (h : Apart rect writes) {cell : Int × Int}
    (hcell : rect.Contains cell.1 cell.2) {v : Float} :
    lastValue? writes cell = some v ↔ ⟨cell, v⟩ ∈ writes := by
  constructor
  · exact mem_of_lastValue?_eq_some
  · intro hw
    obtain ⟨v', hv'⟩ := exists_lastValue? hw
    have hw' := mem_of_lastValue?_eq_some hv'
    have hsame := List.inj_on_of_nodup_map h (mem_inside.mpr ⟨hw, hcell⟩)
      (mem_inside.mpr ⟨hw', hcell⟩) rfl
    rw [hv', (Write.mk.inj hsame).2]

theorem Apart.perm (h : Apart rect writes) (hperm : writes.Perm writes') : Apart rect writes' :=
  (((hperm.filter _).map _).nodup_iff).mp h

/-- The order of the writes does not matter where no cell is written twice. -/
theorem run_perm {f : Frame} (h : Apart f.rect writes) (hperm : writes.Perm writes') :
    f.run writes' = f.run writes := by
  refine ext_get (by rw [rect_run, rect_run]) (by rw [t_run, t_run]) ?_ fun x y hcell => ?_
  · rw [sets_run, sets_run, hperm.countP_eq]
  · have hcell : f.rect.Contains x y := by rwa [rect_run] at hcell
    have hlast : lastValue? writes' (x, y) = lastValue? writes (x, y) := by
      refine Option.ext fun v => ?_
      rw [lastValue?_eq_some_iff h hcell, lastValue?_eq_some_iff (h.perm hperm) hcell,
        hperm.mem_iff]
    rw [get_run, get_run, hlast]

/-- The writes go over the cells of the rectangle in some order. -/
theorem perm_cells (h : Apart rect writes) (hcover : Covering rect writes) :
    ((inside rect writes).map Write.cell).Perm (Sample.cells rect) := by
  rw [List.perm_ext_iff_of_nodup h (Sample.nodup_cells rect)]
  intro cell
  rw [Sample.mem_cells]
  constructor
  · intro hcell
    obtain ⟨w, hw, rfl⟩ := List.mem_map.mp hcell
    exact (mem_inside.mp hw).2
  · intro hcell
    obtain ⟨w, hw, rfl⟩ := hcover cell hcell
    exact List.mem_map_of_mem (mem_inside.mpr ⟨hw, hcell⟩)

/-- Once every cell was written a single time, the count of an empty frame is that of its
residuals. -/
theorem sets_run_empty (h : Apart rect writes) (hcover : Covering rect writes) (t : Scalar) :
    ((empty rect t).run writes).sets = ((empty rect t).run writes).recount := by
  have hcount : ((empty rect t).run writes).recount =
      (inside rect writes).countP fun w => nearZero w.value := by
    rw [recount_eq, rect_run]
    show (Sample.cells rect).countP _ = _
    rw [← (perm_cells h hcover).countP_eq, List.countP_map]
    refine List.countP_congr fun w hw => ?_
    obtain ⟨hmem, hcell⟩ := mem_inside.mp hw
    have hlast : lastValue? writes w.cell = some w.value :=
      (lastValue?_eq_some_iff h hcell).mpr hmem
    rw [Function.comp_apply, get_run, if_pos (show (empty rect t).rect.Contains _ _ from hcell),
      Prod.mk.eta, hlast, Option.getD_some]
  rw [hcount, sets_run, inside, List.countP_filter]
  show 0 + _ = _
  rw [Nat.zero_add]
  refine List.countP_congr fun w _ => ?_
  rw [Bool.and_comm]
  rfl

end Writes

/-! ## Frames as maps -/

/-- What a run of writes leaves of a frame. -/
structure Written (f : Frame) (writes : List Write) (g : Frame) : Prop where
  rect : g.rect = f.rect
  t : g.t = f.t
  get : ∀ x y, g.get x y =
    if f.rect.Contains x y then (lastValue? writes (x, y)).getD (f.get x y) else 0.0
  unwritten : ∀ x y, (∀ w ∈ writes, w.cell ≠ (x, y)) → g.get x y = f.get x y
  sets : g.sets = f.sets +
    writes.countP fun w => f.rect.Contains w.cell.1 w.cell.2 && nearZero w.value

theorem written_run (f : Frame) (writes : List Write) : Written f writes (f.run writes) where
  rect := rect_run f writes
  t := t_run f writes
  get := get_run f writes
  unwritten := by
    intro x y h
    have hnone : lastValue? writes (x, y) = none := by
      refine Option.eq_none_iff_forall_ne_some.mpr fun v hv => ?_
      exact h _ (mem_of_lastValue?_eq_some hv) rfl
    rw [get_run, hnone]
    split
    · rfl
    next hcell => exact (get_of_not_contains hcell).symm
  sets := sets_run f writes

/-- Any run of writes treats a frame as a finite map and counts the writes near zero, in any order
where no cell is written twice. Handed values are all held and counted at the start; the zeros of an
empty frame are not, and writing every cell of it once makes the count that of the residuals. -/
theorem run_keeps_map (f : Frame) (writes : List Write) :
    Written f writes (f.run writes) ∧
      (Apart f.rect writes → ∀ writes', writes.Perm writes' → f.run writes' = f.run writes) ∧
      (∀ rect b t, ofBuffer rect b t = .ok f → f.rect = rect ∧ f.t = t ∧ f.sets = f.recount ∧
        ∀ x y, rect.Contains x y →
          b.valueAt? (rect.row y) (rect.column x) = some (f.get x y)) ∧
      ∀ rect t, f = empty rect t → f.rect = rect ∧ f.t = t ∧ f.sets = 0 ∧
        (∀ x y, f.get x y = 0.0) ∧
        (Apart rect writes → Covering rect writes →
          (f.run writes).sets = (f.run writes).recount) := by
  refine ⟨written_run f writes, fun h _ => run_perm h, fun _ _ _ => ofBuffer_spec, ?_⟩
  intro rect t hempty
  subst hempty
  exact ⟨rfl, rfl, rfl, get_empty rect t, fun h hcover => sets_run_empty h hcover t⟩

/-- The four cells around the origin and one outside, of which three count. -/
theorem run_keeps_map_square :
    let rect : Rect := ⟨-1, -1, 1, 1⟩
    let f := empty rect (.integer 0)
    let writes : List Write :=
      [⟨(-1, -1), 0.5⟩, ⟨(0, -1), 2.0⟩, ⟨(1, 0), 0.0⟩, ⟨(-1, 0), 1.0⟩, ⟨(0, 0), -1.0⟩]
    Apart rect writes ∧ Covering rect writes ∧ (f.run writes).sets = 3 ∧
      (f.run writes).recount = 3 ∧ f.run writes.reverse = f.run writes := by
  intro rect f writes
  have hapart : Apart rect writes := by
    unfold Apart
    decide
  have hlisted : ∀ cell ∈ Sample.cells rect, ∃ w ∈ writes, w.cell = cell := by decide
  have hcover : Covering rect writes := fun cell hcell =>
    hlisted cell (Sample.mem_cells.mpr hcell)
  obtain ⟨hwritten, hperm, -, hempty⟩ := run_keeps_map f writes
  have hsets : (f.run writes).sets = 3 := by
    rw [hwritten.sets]
    decide +kernel
  have hrecount := (hempty rect _ rfl).2.2.2.2 hapart hcover
  exact ⟨hapart, hcover, hsets, hrecount.symm.trans hsets,
    hperm hapart _ writes.reverse_perm.symm⟩

end Frame
end Isotherm
