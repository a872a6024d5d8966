import Isotherm.Proofs.Number.Order
import Isotherm.Proofs.Sampling.Scan
import Isotherm.Sampling.Animation
import Isotherm.Sampling.Assessment

/-!
# The count of residuals near zero

A frame carries a count beside its residuals. It is taken from all of them at once, or it grows with
each cell that is written; halfway through the writing it is not the count of the residuals, for the
cells that are still to come hold a zero that nobody counted. Once every cell is written the two
ways agree, so the frames of an animation are counted exactly, and so are the totals of its
assessment.
-/

namespace Isotherm

open Float.Model in
/-- A NaN is in no order with anything. -/
theorem Bits.not_isNaN_of_le {x y : Float} (h : x ≤ y) : x.isNaN = false := by
  rw [le_iff] at h
  show (UnpackedFloat.unpack Format.binary64 (word x)).isNaN = false
  cases hx : UnpackedFloat.unpack Format.binary64 (word x) with
  | notANumber =>
    rw [hx] at h
    cases h
  | infinity | zero | finite => rfl

/-! ## The cells near zero -/

theorem Sample.nodup_cells (rect : Rect) : (cells rect).Nodup := by
  unfold cells
  rw [List.nodup_flatMap]
  constructor
  · intro column _
    refine List.Nodup.map ?_ List.nodup_range
    intro row row' h
    simpa using h
  · refine List.nodup_range.imp ?_
    intro column column' hne cell h h'
    simp only [List.mem_map, Prod.ext_iff] at h h'
    obtain ⟨_, -, hx, -⟩ := h
    obtain ⟨_, -, hx', -⟩ := h'
    exact hne (by omega)

namespace Frame

/-- The cells whose residuals lie between `-1` and `1`. -/
def nearCells (f : Frame) : Finset (Int × Int) :=
  (Sample.cells f.rect).toFinset.filter fun cell =>
    -1.0 ≤ f.get cell.1 cell.2 ∧ f.get cell.1 cell.2 ≤ 1.0

theorem mem_nearCells {f : Frame} {cell : Int × Int} :
    cell ∈ f.nearCells ↔ f.rect.Contains cell.1 cell.2 ∧
      -1.0 ≤ f.get cell.1 cell.2 ∧ f.get cell.1 cell.2 ≤ 1.0 := by
  rw [nearCells, Finset.mem_filter, List.mem_toFinset, Sample.mem_cells]

theorem countP_cells (f : Frame) :
    ((Sample.cells f.rect).countP fun cell => nearZero (f.get cell.1 cell.2)) =
      f.nearCells.card := by
  have hcells : ((Sample.cells f.rect).filter fun cell =>
      nearZero (f.get cell.1 cell.2)).toFinset = f.nearCells := by
    ext cell
    rw [List.mem_toFinset, List.mem_filter, Sample.mem_cells, mem_nearCells, nearZero,
      Bool.and_eq_true, decide_eq_true_eq, decide_eq_true_eq]
  rw [List.countP_eq_length_filter, ← hcells,
    List.toFinset_card_of_nodup ((Sample.nodup_cells f.rect).filter _)]

theorem card_nearCells_le (f : Frame) : f.nearCells.card ≤ f.rect.area := by
  rw [← countP_cells, ← Sample.length_cells]
  exact List.countP_le_length

/-- The rows of the frame fill the rectangle, and its count is that of the residuals it holds near
zero, none of which is a NaN. -/
structure Counted (f : Frame) (rect : Rect) : Prop where
  rect_eq : f.rect = rect
  height : f.toArrays.size = rect.height
  width : ∀ row ∈ f.toArrays, row.size = rect.width
  sets : f.sets = f.nearCells.card
  real : ∀ cell ∈ f.nearCells, (f.get cell.1 cell.2).isNaN = false

/-- A frame that is written at once is counted. -/
theorem counted_ofFn (rect : Rect) (value : Nat → Nat → Float) (t : Scalar) :
    (ofFn rect value t).Counted rect where
  rect_eq := rfl
  height := by simp [toArrays, ofFn, ofRows]
  width := by
    intro row hrow
    obtain ⟨v, -, rfl⟩ := Array.mem_map.mp hrow
    exact v.size_toArray
  sets := by
    rw [sets_ofFn, ← countP_cells]
    refine List.countP_congr fun cell hcell => ?_
    rw [get_ofFn (Sample.mem_cells.mp hcell)]
  real := fun _ hcell => Bits.not_isNaN_of_le (mem_nearCells.mp hcell).2.2

end Frame

/-! ## Frames that were sampled -/

namespace Equation

variable {e : Equation} {arrays : Arrays} {rect : Rect} {t : Scalar} {cellSize : Float}

/-- A scan that comes to its end has had a residual at every cell. -/
theorem exists_residualOfCell {cells : List (Int × Int)} {s s' : Sample}
    (h : cells.foldlM (fun s cell => (e.residualOfCell t cellSize cell).map (s.add cell)) s =
      .ok s') :
    ∀ cell ∈ cells, ∃ r, e.residualOfCell t cellSize cell = .ok r := by
  induction cells generalizing s with
  | nil => simp
  | cons cell cells ih =>
    rw [List.foldlM_cons] at h
    cases hcell : e.residualOfCell t cellSize cell with
    | error cause =>
      rw [hcell] at h
      cases h
    | ok r =>
      rw [hcell] at h
      exact List.forall_mem_cons.mpr ⟨⟨r, hcell⟩, ih h⟩

theorem counted_of_scanCells {s : Sample} (h : e.scanCells arrays rect t cellSize = .ok s) :
    s.frame.Counted rect := by
  cases hgrid : arrays.gridRefusal? rect.height rect.width with
  | some cause =>
    rw [scanCells, hgrid] at h
    cases h
  | none =>
    have hfold := h
    rw [scanCells, hgrid, Refusal.guard_none] at hfold
    have hcells := exists_residualOfCell hfold
    have : Nonempty Residual := ⟨⟨0.0, false, none⟩⟩
    choose! value hvalue using hcells
    have hscan : e.scanCells arrays rect t cellSize = .ok (scanned rect t value) :=
      scanCells_eq hgrid fun cell hcell => hvalue cell (Sample.mem_cells.mpr hcell)
    obtain rfl := Except.ok.inj (hscan.symm.trans h)
    rw [frame_scanned]
    exact Frame.counted_ofFn ..

theorem counted_of_wholeGrid {lhs rhs : Expr} {xs ys : Nat → Float} {s : Sample}
    (h : Sample.wholeGrid arrays lhs rhs rect xs ys t = some s) : s.frame.Counted rect := by
  unfold Sample.wholeGrid at h
  split at h
  · cases h
  obtain ⟨time, -, h⟩ := Option.bind_eq_some_iff.mp h
  dsimp only at h
  split at h
  next value reads _ =>
    obtain rfl := Option.some.inj h
    exact Frame.counted_ofFn rect (fun column row => value (column, row)) t
  next => cases h

/-- Whichever way a frame was sampled, it is counted. -/
theorem counted_of_sample {s : Sample} (h : e.sample arrays rect t cellSize = .ok s) :
    s.frame.Counted rect := by
  unfold sample at h
  split at h
  · cases h
  · simp only [bind, Except.bind] at h
    split at h
    · cases h
    · split at h
      · cases h
      · split at h
        next hgrid =>
          obtain rfl := Except.ok.inj h
          exact counted_of_wholeGrid hgrid
        next => exact counted_of_scanCells h

/-- Frames that are pushed onto counted ones are counted. -/
theorem counted_of_push {times : List Int} {a a' : Animation}
    (h : times.foldlM (fun a t => (e.sample arrays rect (.integer t) cellSize).map a.push) a = .ok a')
    (ha : ∀ f ∈ a.frames, f.Counted rect) : ∀ f ∈ a'.frames, f.Counted rect := by
  induction times generalizing a with
  | nil =>
    obtain rfl := Except.ok.inj h
    exact ha
  | cons t times ih =>
    rw [List.foldlM_cons] at h
    cases hs : e.sample arrays rect (.integer t) cellSize with
    | error cause =>
      rw [hs] at h
      cases h
    | ok s =>
      rw [hs] at h
      refine ih h fun f hf => ?_
      rcases Array.mem_push.mp hf with hf | rfl
      · exact ha f hf
      · exact counted_of_sample hs

theorem counted_of_animate {lower upper : Int} {a : Animation}
    (h : e.animate arrays lower upper rect cellSize = .ok a) : ∀ f ∈ a.frames, f.Counted rect := by
  unfold animate at h
  simp only [bind, Except.bind] at h
  split at h
  · cases h
  next s hs =>
    have hfirst : ∀ f ∈ #[s.frame], f.Counted rect := by
      intro f hf
      obtain rfl := Array.mem_singleton.mp hf
      exact counted_of_sample hs
    split at h
    · exact counted_of_push h hfirst
    · obtain rfl := Except.ok.inj h
      exact hfirst

end Equation

/-! ## Totals -/

namespace Tally

variable {rect : Rect} {frames : List Frame}

theorem setCount_ofFrames (h : ∀ f ∈ frames, f.Counted rect) :
    (ofFrames frames).setCount = (frames.map fun f => f.nearCells.card).sum := by
  show frames.foldr (fun f n => f.sets + n) 0 = _
  induction frames with
  | nil => rfl
  | cons f frames ih =>
    obtain ⟨hf, hrest⟩ := List.forall_mem_cons.mp h
    rw [List.foldr_cons, ih hrest, List.map_cons, List.sum_cons, hf.sets]

theorem usedFrames_ofFrames (h : ∀ f ∈ frames, f.Counted rect) :
    (ofFrames frames).usedFrames = (frames.filter fun f => f.nearCells.Nonempty).length := by
  show frames.countP _ = _
  rw [← List.countP_eq_length_filter]
  refine List.countP_congr fun f hf => ?_
  rw [decide_eq_true_eq, decide_eq_true_eq, (h f hf).sets, Finset.card_pos]

theorem totalSamples_ofFrames (h : ∀ f ∈ frames, f.Counted rect) :
    (ofFrames frames).totalSamples = frames.length * rect.area := by
  show frames.foldr (fun f n => f.rect.area + n) 0 = _
  induction frames with
  | nil => rw [List.foldr_nil, List.length_nil, Nat.zero_mul]
  | cons f frames ih =>
    obtain ⟨hf, hrest⟩ := List.forall_mem_cons.mp h
    rw [List.foldr_cons, ih hrest, hf.rect_eq, List.length_cons, Nat.succ_mul, Nat.add_comm]

theorem setCount_le (h : ∀ f ∈ frames, f.Counted rect) :
    (ofFrames frames).setCount ≤ (ofFrames frames).totalSamples := by
  rw [setCount_ofFrames h, totalSamples_ofFrames h]
  have hcard : ∀ n ∈ frames.map fun f => f.nearCells.card, n ≤ rect.area := by
    intro n hn
    obtain ⟨f, hf, rfl⟩ := List.mem_map.mp hn
    rw [← (h f hf).rect_eq]
    exact f.card_nearCells_le
  simpa using List.sum_le_card_nsmul _ _ hcard

/-- The part of something in a whole, rounded to a double, is a part still. -/
theorem coverage_mem {t : Tally} (h : t.setCount ≤ t.totalSamples) :
    0.0 ≤ t.coverage ∧ t.coverage ≤ 1.0 := by
  unfold coverage
  by_cases htotal : t.totalSamples = 0
  · rw [if_pos htotal]
    decide +kernel
  · rw [if_neg htotal]
    have hone : Scaled.Canonical ⟨false, 2 ^ 52, -52⟩ := by constructor <;> norm_num
    have hle : (t.setCount : ℚ) / t.totalSamples ≤ ((2 ^ 52 : ℕ) : ℚ) * 2 ^ (-52 : ℤ) := by
      have hq : (t.setCount : ℚ) ≤ t.totalSamples := by exact_mod_cast h
      have hunit := div_le_one_of_le₀ hq (by positivity)
      norm_num at hunit ⊢
      exact hunit
    have hbits := Scaled.magnitudeBits_nearest_le hone false (Nat.pos_of_ne_zero htotal) hle
    have hfinite := Scaled.isFinite_of_bits_le hone hbits
    have hsign := Scaled.signBit_nearest t.setCount t.totalSamples
    constructor
    · rw [Bits.le_iff_of_positive (by decide +kernel) hfinite (by decide +kernel) hsign]
      have hzero : magnitudeBits 0.0 = 0 := by decide +kernel
      rw [hzero]
      exact Nat.zero_le _
    · rw [Bits.le_iff_of_positive hfinite (by decide +kernel) hsign (by decide +kernel)]
      have hbits_one : Scaled.bits ⟨false, 2 ^ 52, -52⟩ = magnitudeBits 1.0 := by decide +kernel
      rw [← hbits_one]
      exact hbits

end Tally

namespace Equation

/-- The counts of an animation are exact. Every frame, sampled in one pass or cell by cell, fills the
rectangle and counts the residuals it holds near zero, so the totals of all frames are those of
their residuals: how many are near zero, how many frames have one, and how many there are. -/
theorem counts_are_exact (e : Equation) (arrays : Arrays) (rect : Rect) (cellSize : Float) :
    (∀ t s, e.sample arrays rect t cellSize = .ok s → s.frame.Counted rect) ∧
    (∀ t s, e.scanCells arrays rect t cellSize = .ok s → s.frame.Counted rect) ∧
    ∀ lower upper a, e.animate arrays lower upper rect cellSize = .ok a →
      (∀ f ∈ a.frames, f.Counted rect) ∧
      let frames := a.frames.toList
      let tally := Tally.ofFrames frames
      tally.frames = frames.length ∧
      tally.setCount = (frames.map fun f => f.nearCells.card).sum ∧
      tally.usedFrames = (frames.filter fun f => f.nearCells.Nonempty).length ∧
      tally.totalSamples = frames.length * rect.area ∧
      tally.setCount ≤ tally.totalSamples ∧
      0.0 ≤ tally.coverage ∧ tally.coverage ≤ 1.0 := by
  refine ⟨fun _ _ => counted_of_sample, fun _ _ => counted_of_scanCells, ?_⟩
  intro lower upper a ha
  have hframes := counted_of_animate ha
  have hlist : ∀ f ∈ a.frames.toList, f.Counted rect := by simpa using hframes
  exact ⟨hframes, rfl, Tally.setCount_ofFrames hlist, Tally.usedFrames_ofFrames hlist,
    Tally.totalSamples_ofFrames hlist, Tally.setCount_le hlist,
    Tally.coverage_mem (Tally.setCount_le hlist)⟩

/-- Three frames of `0 = T / x`, the second with NaNs in it. -/
theorem counts_are_exact_quotient :
    let e := ofSides (.number 0.0) (.binary (.var "T") .divide (.var "x"))
    let rect : Rect := ⟨-1, 0, 2, 2⟩
    let arrays := Arrays.addressed
    ∃ a, e.animate arrays (-1) 2 rect 0.5 = .ok a ∧ a.frames.size = 3 ∧
      (∀ f ∈ a.frames, f.Counted rect) ∧
      let frames := a.frames.toList
      let tally := Tally.ofFrames frames
      tally.frames = frames.length ∧
      tally.setCount = (frames.map fun f => f.nearCells.card).sum ∧
      tally.usedFrames = (frames.filter fun f => f.nearCells.Nonempty).length ∧
      tally.totalSamples = frames.length * rect.area ∧
      tally.setCount ≤ tally.totalSamples ∧
      0.0 ≤ tally.coverage ∧ tally.coverage ≤ 1.0 := by
  intro e rect arrays
  have hsize : (e.animate arrays (-1) 2 rect 0.5).toOption.map (·.frames.size) = some 3 := by
    decide +kernel
  obtain ⟨a, ha, hsize⟩ := Option.map_eq_some_iff.mp hsize
  have ha : e.animate arrays (-1) 2 rect 0.5 = .ok a := by
    cases hrun : e.animate arrays (-1) 2 rect 0.5 with
    | error cause =>
      rw [hrun] at ha
      cases ha
    | ok a' =>
      rw [hrun] at ha
      rw [Option.some.inj ha]
  exact ⟨a, ha, hsize, (counts_are_exact e arrays rect 0.5).2.2 (-1) 2 a ha⟩

end Equation

end Isotherm
