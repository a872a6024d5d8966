import Isotherm.Proofs.Number.Thresholds
import Isotherm.Proofs.Sampling.Times

/-!
# What cannot be sampled

An animation of the cells around the origin fails for few reasons only: an axis or the array of the
cells is refused, or no double holds the outermost column, the first time, or a later time though
the first frame asks for one.
-/

namespace Isotherm

/-- A double holds the integers of magnitudes below a bound. -/
theorem Scalar.toFloat?_integer_eq (n : Int) :
    (Scalar.integer n).toFloat? =
      if n.natAbs < leastUnreached then some (Integral.ofInt n) else none := by
  have hinf := isInf_nearest_iff (n < 0) n.natAbs
  unfold toFloat?
  dsimp only
  by_cases h : n.natAbs < leastUnreached
  · rw [if_pos h, if_neg fun hi => Nat.not_le.mpr h (hinf.mp hi)]
    rfl
  · rw [if_neg h, if_pos (hinf.mpr (Nat.not_lt.mp h))]

theorem Scalar.representable_iff (n : Int) :
    (Scalar.integer n).Representable ↔ n.natAbs < leastUnreached := by
  rw [Representable, toFloat?_integer_eq]
  split
  next h => exact iff_of_true rfl h
  next h => exact iff_of_false (by simp) h

variable {arrays : Arrays}

/-- Where the arrays are made, the coordinates of the cells around the origin are only to be
doubles. -/
theorem Rect.reachable_aroundOrigin_iff {size : Int} (h : 1 ≤ size) :
    (Rect.aroundOrigin size).Reachable arrays ↔
      arrays.Grants (.aroundOrigin size) ∧ size < leastUnreached := by
  constructor
  · intro hr
    have hedge := hr.columns (-size) (Int.le_refl _) (show -size < size by omega)
    rw [Scalar.representable_iff] at hedge
    exact ⟨hr.granted, by omega⟩
  · intro ⟨hgranted, hsize⟩
    have hcells (n : Int) (hlow : -size ≤ n) (hhigh : n < size) :
        (Scalar.integer n).Representable := by
      rw [Scalar.representable_iff]
      omega
    exact ⟨hgranted, hcells, hcells⟩

/-- Arrays whose bytes are addressed reach over the cells around the origin up to some size. -/
theorem Arrays.addressed_grants_iff {size : Int} (h : 1 ≤ size) :
    addressed.Grants (.aroundOrigin size) ↔ size < 2 ^ 29 := by
  obtain ⟨n, rfl⟩ := Int.eq_ofNat_of_zero_le (Int.le_of_lt h)
  have hside : ((n : Int) - -n).toNat = 2 * n := by omega
  have hgrid : addressed.gridRefusal? (Rect.aroundOrigin n).height (Rect.aroundOrigin n).width =
      none ↔ n < 2 ^ 29 := by
    show addressedGrid ((n : Int) - -n).toNat ((n : Int) - -n).toNat = none ↔ _
    have hone : max 1 (2 * n) = 2 * n := by omega
    have hsquare : n < 2 ^ 29 ↔ n * n < 2 ^ 58 := by
      constructor
      · intro hn
        calc n * n < 2 ^ 29 * 2 ^ 29 := Nat.mul_self_lt_mul_self hn
          _ = 2 ^ 58 := by norm_num
      · intro hn
        by_contra hge
        have hle := Nat.mul_self_le_mul_self (Nat.not_lt.mp hge)
        omega
    have harea : 8 * (2 * n * (2 * n)) = 32 * (n * n) := by ring
    rw [addressedGrid, hside, hone, harea, twoTo_eq, hsquare]
    split <;> simp <;> omega
  constructor
  · intro hgrants
    exact_mod_cast hgrid.mp hgrants.grid
  · intro hsize
    have haxis : addressed.axisRefusal? (-n) n = none := by
      have hspan : ((n : Int) - -n).natAbs < 2 ^ 53 := by omega
      show addressedAxis (-n) n = none
      rw [addressedAxis, Scalar.toFloat?_integer hspan]
      simp only [Integral.value_ofInt hspan, twoTo_eq]
      rw [if_neg (by omega), if_neg (by omega)]
    exact ⟨haxis, haxis, hgrid.mpr (by exact_mod_cast hsize)⟩

namespace Equation

/-! ## Failing animations -/

/-- A sample that fails ends the animation, if those before it succeed. -/
theorem foldlM_push_error {e : Equation} {rect : Rect} {cellSize : Float} {cause : SampleError}
    {ts : List Int}
    (h : ∀ t ∈ ts, e.sample arrays rect (.integer t) cellSize = .error cause ∨
      ∃ s, e.sample arrays rect (.integer t) cellSize = .ok s)
    (hfails : ∃ t ∈ ts, e.sample arrays rect (.integer t) cellSize = .error cause) (a : Animation) :
    ts.foldlM (fun a t => (e.sample arrays rect (.integer t) cellSize).map a.push) a =
      .error cause := by
  induction ts generalizing a with
  | nil =>
    obtain ⟨t, ht, -⟩ := hfails
    cases ht
  | cons t ts ih =>
    obtain ⟨ht, hrest⟩ := List.forall_mem_cons.mp h
    rw [List.foldlM_cons]
    rcases ht with ht | ⟨s, hs⟩
    · rw [ht]
      rfl
    · have hlater : ∃ t ∈ ts, e.sample arrays rect (.integer t) cellSize = .error cause := by
        obtain ⟨t', ht', hcause⟩ := hfails
        rcases List.mem_cons.mp ht' with rfl | hmem
        · cases hs.symm.trans hcause
        · exact ⟨t', hmem, hcause⟩
      rw [hs]
      exact ih hrest hlater (a.push s)

/-- Why the cells up to `size` from the origin cannot be animated. -/
inductive Unsampled (e : Equation) (arrays : Arrays) (size lower upper : Int) (cellSize : Float) :
    SampleError → Prop where
  /-- The axes are of one length, and there is none of it. -/
  | axis {cause : Refusal} (h : arrays.axisRefusal? (-size) size = some cause) :
      Unsampled e arrays size lower upper cellSize (.refused cause)
  | edge (made : arrays.axisRefusal? (-size) size = none) (hsize : leastUnreached ≤ size) :
      Unsampled e arrays size lower upper cellSize (.residual .overflow)
  | grid {cause : Refusal} (made : arrays.axisRefusal? (-size) size = none)
      (hsize : size < leastUnreached)
      (h : arrays.gridRefusal? (2 * size).toNat (2 * size).toNat = some cause) :
      Unsampled e arrays size lower upper cellSize (.refused cause)
  | firstTime (hr : (Rect.aroundOrigin size).Reachable arrays)
      (hlower : leastUnreached ≤ lower.natAbs) :
      Unsampled e arrays size lower upper cellSize (.residual .overflow)
  /-- The first frame read the time, and not all times after it are doubles. -/
  | laterTime {s : Sample} (hr : (Rect.aroundOrigin size).Reachable arrays)
      (hlower : lower.natAbs < leastUnreached)
      (hs : e.sample arrays (.aroundOrigin size) (.integer lower) cellSize = .ok s)
      (hread : s.timeUsed = true) (hupper : leastUnreached < upper) :
      Unsampled e arrays size lower upper cellSize (.residual .overflow)

variable {e : Equation} {size lower upper : Int} {cellSize : Float}

theorem area_aroundOrigin_pos (h : 1 ≤ size) : 0 < (Rect.aroundOrigin size).area := by
  have hside : 0 < (size - -size).toNat := by omega
  exact Nat.mul_pos hside hside

/-- Both sides of the cells around the origin. -/
theorem sides_aroundOrigin (size : Int) :
    (Rect.aroundOrigin size).height = (2 * size).toNat ∧
      (Rect.aroundOrigin size).width = (2 * size).toNat := by
  have hside : size - -size = 2 * size := by omega
  exact ⟨congrArg Int.toNat hside, congrArg Int.toNat hside⟩

/-- Without an array for the cells there is no sample. -/
theorem sample_of_grid_refused {rect : Rect} (hb : e.isBound = true) {xs ys : Nat → Float}
    (hxs : Sample.axis arrays rect.minX rect.maxX = .ok xs)
    (hys : Sample.axis arrays rect.minY rect.maxY = .ok ys) {cause : Refusal}
    (h : arrays.gridRefusal? rect.height rect.width = some cause) (t : Scalar) :
    e.sample arrays rect t cellSize = .error (.refused cause) := by
  obtain ⟨⟨lhs, rhs⟩, he⟩ := Option.isSome_iff_exists.mp hb
  simp only [sample, he, hxs, hys, Sample.wholeGrid, h, Option.isSome_some, if_true, scanCells,
    Refusal.guard_some, bind, Except.bind]

theorem sample_of_time_past (hb : e.isBound = true) (h : 1 ≤ size)
    (hr : (Rect.aroundOrigin size).Reachable arrays) {t : Int} (ht : leastUnreached ≤ t.natAbs) :
    e.sample arrays (.aroundOrigin size) (.integer t) cellSize = .error (.residual .overflow) := by
  apply sample_of_overflow hb hr (area_aroundOrigin_pos h)
  rw [Scalar.toFloat?_integer_eq, if_neg (Nat.not_lt.mpr ht)]

theorem Unsampled.animate_eq {cause : SampleError} (hb : e.isBound = true) (h : 1 ≤ size)
    (hu : Unsampled e arrays size lower upper cellSize cause) :
    e.animate arrays lower upper (.aroundOrigin size) cellSize = .error cause := by
  cases hu with
  | axis hrefused =>
    have haxis := Sample.axis_of_refused hrefused
    exact animate_of_sample_error (sample_of_axis_error hb haxis _ _) upper
  | edge hmade hsize =>
    have hfirst : (Scalar.integer (-size)).toFloat? = none := by
      rw [Scalar.toFloat?_integer_eq, if_neg (by omega)]
    have haxis := Sample.axis_of_overflow hmade (by omega) hfirst
    exact animate_of_sample_error (sample_of_axis_error hb haxis _ _) upper
  | grid hmade hsize hrefused =>
    have hplaces (n : Int) (hlow : -size ≤ n) (hhigh : n < size) :
        (Scalar.integer n).Representable := by
      rw [Scalar.representable_iff]
      omega
    obtain ⟨values, hvalues⟩ := Sample.exists_axis hmade hplaces
    rw [← (sides_aroundOrigin size).1] at hrefused
    exact animate_of_sample_error (sample_of_grid_refused hb hvalues hvalues hrefused _) upper
  | firstTime hr hlower => exact animate_of_sample_error (sample_of_time_past hb h hr hlower) upper
  | @laterTime s hr hlower hs hread hupper =>
    have hlater (t : Int) : e.sample arrays (.aroundOrigin size) (.integer t) cellSize =
          .error (.residual .overflow) ∨
        ∃ s, e.sample arrays (.aroundOrigin size) (.integer t) cellSize = .ok s := by
      by_cases ht : t.natAbs < leastUnreached
      · obtain ⟨s, hs, -⟩ := exists_sample hb hr
          (fun _ => (Scalar.representable_iff t).mpr ht) cellSize
        exact .inr ⟨s, hs⟩
      · exact .inl (sample_of_time_past hb h hr (Nat.not_lt.mp ht))
    have hlast : upper - 1 ∈ Animation.laterTimes lower upper :=
      Animation.mem_laterTimes.mpr (by omega)
    simp only [animate, hs, bind, Except.bind, hread]
    exact foldlM_push_error (fun t _ => hlater t)
      ⟨_, hlast, sample_of_time_past hb h hr (by omega)⟩ _

/-- The arrays for the cells around the origin are made, and doubles hold their coordinates, or there
is a reason why they cannot be animated at any time. -/
theorem reachable_or_unsampled (e : Equation) (arrays : Arrays) (h : 1 ≤ size) (lower upper : Int)
    (cellSize : Float) :
    (Rect.aroundOrigin size).Reachable arrays ∨
      ∃ cause, Unsampled e arrays size lower upper cellSize cause := by
  cases haxis : arrays.axisRefusal? (-size) size with
  | some cause => exact .inr ⟨_, .axis haxis⟩
  | none =>
    by_cases hsize : size < leastUnreached
    · cases hgrid : arrays.gridRefusal? (2 * size).toNat (2 * size).toNat with
      | some cause => exact .inr ⟨_, .grid haxis hsize hgrid⟩
      | none =>
        obtain ⟨hheight, hwidth⟩ := sides_aroundOrigin size
        have hgranted : arrays.Grants (.aroundOrigin size) :=
          ⟨haxis, haxis, by rw [hheight, hwidth]; exact hgrid⟩
        exact .inl ((Rect.reachable_aroundOrigin_iff h).mpr ⟨hgranted, hsize⟩)
    · exact .inr ⟨_, .edge haxis (Int.not_lt.mp hsize)⟩

/-- The cells around the origin can be animated, or one of the reasons stands against it. -/
theorem exists_animate_or_unsampled (hb : e.isBound = true) (arrays : Arrays) (h : 1 ≤ size)
    (lower upper : Int) (cellSize : Float) :
    (∃ a, e.animate arrays lower upper (.aroundOrigin size) cellSize = .ok a) ∨
      ∃ cause, Unsampled e arrays size lower upper cellSize cause := by
  rcases reachable_or_unsampled e arrays h lower upper cellSize with hr | hunsampled
  · by_cases hlower : lower.natAbs < leastUnreached
    · obtain ⟨s, hs, -⟩ := exists_sample hb hr
        (fun _ => (Scalar.representable_iff lower).mpr hlower) cellSize
      by_cases hupper : leastUnreached < upper
      · cases hread : s.timeUsed with
        | false => exact .inl ⟨_, animate_of_time_unread hs hread upper⟩
        | true => exact .inr ⟨_, .laterTime hr hlower hs hread hupper⟩
      · refine .inl (exists_animate hb hr (fun _ t hl hu => ?_) cellSize)
        rw [Scalar.representable_iff]
        omega
    · exact .inr ⟨_, .firstTime hr (Nat.not_lt.mp hlower)⟩
  · exact .inr hunsampled

theorem animate_eq_error_iff (hb : e.isBound = true) (h : 1 ≤ size) (cause : SampleError) :
    e.animate arrays lower upper (.aroundOrigin size) cellSize = .error cause ↔
      Unsampled e arrays size lower upper cellSize cause := by
  constructor
  · intro herror
    rcases exists_animate_or_unsampled hb arrays h lower upper cellSize with
      ⟨a, ha⟩ | ⟨cause', hu⟩
    · cases ha.symm.trans herror
    · obtain rfl := Except.error.inj ((hu.animate_eq hb h).symm.trans herror)
      exact hu
  · exact Unsampled.animate_eq hb h

end Equation
end Isotherm
