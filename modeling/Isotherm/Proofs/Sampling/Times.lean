import Isotherm.Proofs.Sampling.WholeGrid
import Isotherm.Sampling.Animation

/-!
# One frame for all times

An animation stops after its first frame where that did not read the time. Nothing is lost by it: at
every other time the frame is the same, also where the pass faults, whatever the faulting cells have
read by then.
-/

namespace Isotherm

namespace Equation

variable {e : Equation} {arrays : Arrays} {lhs rhs : Expr} {rect : Rect} {t : Scalar}
  {cellSize : Float}

/-! ## One time -/

/-- Without cells the frame is empty at all times. -/
theorem sample_of_area_eq_zero (hb : e.isBound = true) (hr : rect.Reachable arrays)
    (h : rect.area = 0) (t : Scalar) (cellSize : Float) :
    ∃ s, e.sample arrays rect t cellSize = .ok s ∧ s.frame = Frame.empty rect t := by
  obtain ⟨lhs, rhs, xs, ys, he, hxs, hys⟩ := exists_sides_and_axes hb hr
  have hscan : e.scanCells arrays rect t cellSize = .ok (Sample.empty rect t) := by
    rw [scanCells, hr.granted.grid, Refusal.guard_none, Sample.cells_eq_nil h]
    rfl
  cases htime : t.toFloat? with
  | none =>
    refine ⟨Sample.empty rect t, ?_, rfl⟩
    simp only [sample, he, hxs, hys, Sample.wholeGrid, htime, Option.bind_none, ite_self, bind,
      Except.bind, hscan]
  | some time =>
    cases hrun : run (.field Cell) false (gridBindings xs ys cellSize time) lhs rhs with
    | mk outcome reads =>
      cases outcome with
      | ok value =>
        exact ⟨_, sample_of_run_eq_ok he hr.granted.grid hxs hys htime hrun,
          Frame.ofFn_of_area_eq_zero h (fun column row => value (column, row)) t⟩
      | error c => exact ⟨_, (sample_of_run_eq_error he hxs hys htime hrun).trans hscan, rfl⟩

/-- Sampling a reachable rectangle succeeds at a representable time, and at any if it has no
cells. -/
theorem exists_sample (hb : e.isBound = true) (hr : rect.Reachable arrays)
    (ht : 0 < rect.area → t.Representable) (cellSize : Float) :
    ∃ s, e.sample arrays rect t cellSize = .ok s ∧ s.frame.t = t := by
  by_cases harea : rect.area = 0
  · obtain ⟨s, hs, hframe⟩ := sample_of_area_eq_zero hb hr harea t cellSize
    refine ⟨s, hs, ?_⟩
    rw [hframe]
    rfl
  · obtain ⟨lhs, rhs, xs, ys, he, hxs, hys⟩ := exists_sides_and_axes hb hr
    obtain ⟨time, htime⟩ := Option.isSome_iff_exists.mp (ht (by omega))
    cases hrun : run (.field Cell) false (gridBindings xs ys cellSize time) lhs rhs with
    | mk outcome reads =>
      cases outcome with
      | ok value => exact ⟨_, sample_of_run_eq_ok he hr.granted.grid hxs hys htime hrun, rfl⟩
      | error c =>
        obtain ⟨s, hs, hframe, -⟩ := scanCells_of_run_eq_error he hr htime hrun cellSize
        refine ⟨s, (sample_of_run_eq_error he hxs hys htime hrun).trans hs, ?_⟩
        rw [hframe]
        rfl

/-- A frame that did not read the time is the frame of every time. -/
theorem sample_of_time_unread (hb : e.isBound = true) (hr : rect.Reachable arrays)
    (ht : 0 < rect.area → t.Representable) {s : Sample} (hs : e.sample arrays rect t cellSize = .ok s)
    (hunread : s.timeUsed = false) {t' : Scalar} (ht' : 0 < rect.area → t'.Representable) :
    ∃ s', e.sample arrays rect t' cellSize = .ok s' ∧ s'.frame = { s.frame with t := t' } := by
  by_cases harea : rect.area = 0
  · obtain ⟨s₁, hs₁, hframe⟩ := sample_of_area_eq_zero hb hr harea t cellSize
    obtain ⟨s', hs', hframe'⟩ := sample_of_area_eq_zero hb hr harea t' cellSize
    obtain rfl := Except.ok.inj (hs₁.symm.trans hs)
    refine ⟨s', hs', ?_⟩
    rw [hframe, hframe']
    rfl
  obtain ⟨lhs, rhs, xs, ys, he, hxs, hys⟩ := exists_sides_and_axes hb hr
  obtain ⟨time, htime⟩ := Option.isSome_iff_exists.mp (ht (by omega))
  obtain ⟨time', htime'⟩ := Option.isSome_iff_exists.mp (ht' (by omega))
  cases hrun : run (.field Cell) false (gridBindings xs ys cellSize time) lhs rhs with
  | mk outcome reads =>
    cases outcome with
    | ok value =>
      have hsample := sample_of_run_eq_ok he hr.granted.grid hxs hys htime hrun
      obtain rfl := Except.ok.inj (hsample.symm.trans hs)
      have hreads : (run (.field Cell) false (gridBindings xs ys cellSize time) lhs rhs).2.t =
          false := by
        rw [hrun]
        exact hunread
      have hrun' : run (.field Cell) false (gridBindings xs ys cellSize time') lhs rhs =
          (.ok value, reads) := (run_of_time_unread hreads _).trans hrun
      exact ⟨_, sample_of_run_eq_ok he hr.granted.grid hxs hys htime' hrun', rfl⟩
    | error c =>
      have hrun' : run (.field Cell) false (gridBindings xs ys cellSize time') lhs rhs =
          (.error c, reads) := run_eq_error hrun ..
      obtain ⟨s₁, hs₁, hframe, -⟩ := scanCells_of_run_eq_error he hr htime hrun cellSize
      obtain ⟨s', hs', hframe', -⟩ := scanCells_of_run_eq_error he hr htime' hrun' cellSize
      have hscan := (sample_of_run_eq_error he hxs hys htime hrun).trans hs₁
      obtain rfl := Except.ok.inj (hscan.symm.trans hs)
      refine ⟨s', (sample_of_run_eq_error he hxs hys htime' hrun').trans hs', ?_⟩
      rw [hframe, hframe']
      rfl

end Equation

/-! ## Many times -/

namespace Animation

theorem length_laterTimes (lower upper : Int) :
    (laterTimes lower upper).length = (upper - lower - 1).toNat := by
  simp [laterTimes]

theorem mem_laterTimes {lower upper t : Int} :
    t ∈ laterTimes lower upper ↔ lower < t ∧ t < upper := by
  simp only [laterTimes, List.mem_map, List.mem_range]
  constructor
  · rintro ⟨n, hn, rfl⟩
    omega
  · rintro ⟨hl, hu⟩
    exact ⟨(t - lower - 1).toNat, by omega, by omega⟩

theorem of_getElem?_laterTimes {lower upper t : Int} {i : Nat}
    (h : (laterTimes lower upper)[i]? = some t) :
    t = lower + (i + 1 : Nat) ∧ lower < t ∧ t < upper := by
  obtain ⟨hi, ht⟩ := List.getElem?_eq_some_iff.mp h
  refine ⟨?_, mem_laterTimes.mp (List.mem_of_getElem? h)⟩
  simp only [laterTimes, List.getElem_map, List.getElem_range] at ht
  omega

/-- Frames that are pushed one after another stand behind those that there were. -/
theorem foldlM_push {e : Equation} {arrays : Arrays} {rect : Rect} {cellSize : Float}
    {σ : Int → Sample} {ts : List Int} (h : ∀ t ∈ ts, e.sample arrays rect (.integer t) cellSize = .ok (σ t))
    (a : Animation) :
    ∃ a', ts.foldlM (fun a t => (e.sample arrays rect (.integer t) cellSize).map a.push) a = .ok a' ∧
      a'.timeUsed = a.timeUsed ∧
        a'.frames.toList = a.frames.toList ++ ts.map fun t => (σ t).frame := by
  induction ts generalizing a with
  | nil => exact ⟨a, rfl, rfl, by simp⟩
  | cons t ts ih =>
    obtain ⟨ht, hrest⟩ := List.forall_mem_cons.mp h
    obtain ⟨a', ha', hused, hframes⟩ := ih hrest (a.push (σ t))
    refine ⟨a', ?_, hused, ?_⟩
    · rw [List.foldlM_cons, ht]
      exact ha'
    · rw [hframes]
      simp [push]

end Animation

namespace Equation

open Animation

variable {e : Equation} {arrays : Arrays} {rect : Rect}

/-- An animation whose first frame did not read the time. -/
theorem animate_of_time_unread {lower : Int} {cellSize : Float} {s : Sample}
    (hs : e.sample arrays rect (.integer lower) cellSize = .ok s) (hunread : s.timeUsed = false)
    (upper : Int) :
    e.animate arrays lower upper rect cellSize = .ok ⟨false, #[s.frame], s.recovered⟩ := by
  simp only [animate, hs, bind, Except.bind, hunread]
  rfl

/-- An animation whose first frame read the time. -/
theorem animate_of_time_read {lower upper : Int} {cellSize : Float} {s : Sample}
    (hs : e.sample arrays rect (.integer lower) cellSize = .ok s) (hread : s.timeUsed = true)
    {σ : Int → Sample} (hσ : ∀ t, lower < t → t < upper →
      e.sample arrays rect (.integer t) cellSize = .ok (σ t)) :
    ∃ a, e.animate arrays lower upper rect cellSize = .ok a ∧ a.timeUsed = true ∧
      a.frames.toList = s.frame :: (laterTimes lower upper).map fun t => (σ t).frame := by
  have hlater : ∀ t ∈ laterTimes lower upper,
      e.sample arrays rect (.integer t) cellSize = .ok (σ t) := by
    intro t ht
    obtain ⟨hl, hu⟩ := mem_laterTimes.mp ht
    exact hσ t hl hu
  obtain ⟨a, ha, hused, hframes⟩ := foldlM_push hlater ⟨true, #[s.frame], s.recovered⟩
  refine ⟨a, ?_, hused, hframes⟩
  simp only [animate, hs, bind, Except.bind, hread]
  exact ha

/-- Whatever the bounds, an equation can be animated in reach of the doubles. -/
theorem exists_animate (hb : e.isBound = true) (hr : rect.Reachable arrays)
    {lower upper : Int} (htimes : 0 < rect.area →
      ∀ t, lower ≤ t → t < max upper (lower + 1) → (Scalar.integer t).Representable)
    (cellSize : Float) : ∃ a, e.animate arrays lower upper rect cellSize = .ok a := by
  obtain ⟨s, hs, -⟩ :=
    exists_sample hb hr (fun harea => htimes harea lower (by omega) (by omega)) cellSize
  cases hread : s.timeUsed with
  | false => exact ⟨_, animate_of_time_unread hs hread upper⟩
  | true =>
    have hlater (t : Int) (hl : lower < t) (hu : t < upper) :
        ∃ s, e.sample arrays rect (.integer t) cellSize = .ok s := by
      obtain ⟨s, hs, -⟩ :=
        exists_sample hb hr (fun harea => htimes harea t (by omega) (by omega)) cellSize
      exact ⟨s, hs⟩
    have : Nonempty Sample := ⟨s⟩
    choose! σ hσ using hlater
    obtain ⟨a, ha, -⟩ := animate_of_time_read hs hread hσ
    exact ⟨a, ha⟩

/-- An animation has the frames of consecutive times, each as that time is sampled: all up to the
upper bound if the first one read the time, and otherwise the first alone, which then is the frame of
every time. -/
theorem animate_covers_all_times (e : Equation) (hb : e.isBound = true) (arrays : Arrays)
    (rect : Rect) (hr : rect.Reachable arrays) (cellSize : Float) (lower upper : Int)
    (htimes : 0 < rect.area →
      ∀ t, lower ≤ t → t < max upper (lower + 1) → (Scalar.integer t).Representable) :
    ∃ a, e.animate arrays lower upper rect cellSize = .ok a ∧
      (∃ s, e.sample arrays rect (.integer lower) cellSize = .ok s ∧ a.timeUsed = s.timeUsed) ∧
      a.frames.size = (if a.timeUsed then max 1 (upper - lower).toNat else 1) ∧
      (∀ (i : Nat) f, a.frames[i]? = some f →
        ∃ s, e.sample arrays rect (.integer (lower + i)) cellSize = .ok s ∧ f = s.frame ∧
          f.t = .integer (lower + i)) ∧
      (a.timeUsed = false → ∀ t : Scalar, (0 < rect.area → t.Representable) →
        ∃ s f, e.sample arrays rect t cellSize = .ok s ∧ a.frames[0]? = some f ∧
          s.frame = { f with t := t }) := by
  have hlower (harea : 0 < rect.area) : (Scalar.integer lower).Representable :=
    htimes harea lower (by omega) (by omega)
  obtain ⟨s, hs, htime⟩ := exists_sample hb hr hlower cellSize
  cases hread : s.timeUsed with
  | false =>
    refine ⟨_, animate_of_time_unread hs hread upper, ⟨s, hs, hread.symm⟩, rfl, ?_, ?_⟩
    · intro i f hf
      obtain ⟨rfl, rfl⟩ : i = 0 ∧ s.frame = f := by
        cases i <;> simp_all
      rw [Nat.cast_zero, add_zero]
      exact ⟨s, hs, rfl, htime⟩
    · intro _ t ht
      obtain ⟨s', hs', hframe⟩ := sample_of_time_unread hb hr hlower hs hread ht
      exact ⟨s', s.frame, hs', rfl, hframe⟩
  | true =>
    have hsamples (t : Int) (hl : lower < t) (hu : t < upper) :
        ∃ s, e.sample arrays rect (.integer t) cellSize = .ok s ∧ s.frame.t = .integer t :=
      exists_sample hb hr (fun harea => htimes harea t (by omega) (by omega)) cellSize
    have : Nonempty Sample := ⟨s⟩
    choose! σ hσ using hsamples
    obtain ⟨a, ha, hused, hframes⟩ :=
      animate_of_time_read hs hread fun t hl hu => (hσ t hl hu).1
    refine ⟨a, ha, ⟨s, hs, hused.trans hread.symm⟩, ?_, ?_, fun h => absurd h (by simp [hused])⟩
    · rw [← Array.length_toList, hframes, hused, List.length_cons, List.length_map,
        length_laterTimes, if_pos rfl]
      omega
    · intro i f hf
      rw [← Array.getElem?_toList, hframes] at hf
      cases i with
      | zero =>
        obtain rfl : s.frame = f := by simpa using hf
        rw [Nat.cast_zero, add_zero]
        exact ⟨s, hs, rfl, htime⟩
      | succ i =>
        rw [List.getElem?_cons_succ, List.getElem?_map] at hf
        obtain ⟨t, ht, rfl⟩ := Option.map_eq_some_iff.mp hf
        obtain ⟨hplace, hl, hu⟩ := of_getElem?_laterTimes ht
        obtain ⟨hsample, hframe⟩ := hσ t hl hu
        rw [← hplace]
        exact ⟨σ t, hsample, rfl, hframe⟩

/-- The time stands in the equation, but the fault comes before it is read: there is one frame. -/
theorem animate_covers_all_times_fault :
    let e := ofSides (.var "T") (.binary (.var "x") (.unknown "&") (.var "y"))
    let rect : Rect := ⟨-2, -1, 1, 2⟩
    let arrays := Arrays.addressed
    (e.isBound = true ∧ rect.Reachable arrays ∧ (0 < rect.area →
      ∀ t, -1 ≤ t → t < max 5 (-1 + 1) → (Scalar.integer t).Representable)) ∧
    ∃ a, e.animate arrays (-1) 5 rect 0.5 = .ok a ∧
      (∃ s, e.sample arrays rect (.integer (-1)) 0.5 = .ok s ∧ a.timeUsed = s.timeUsed) ∧
      a.frames.size = (if a.timeUsed then max 1 (5 - (-1) : Int).toNat else 1) ∧
      (∀ (i : Nat) f, a.frames[i]? = some f →
        ∃ s, e.sample arrays rect (.integer (-1 + i)) 0.5 = .ok s ∧ f = s.frame ∧
          f.t = .integer (-1 + i)) ∧
      (a.timeUsed = false → ∀ t : Scalar, (0 < rect.area → t.Representable) →
        ∃ s f, e.sample arrays rect t 0.5 = .ok s ∧ a.frames[0]? = some f ∧
          s.frame = { f with t := t }) := by
  intro e rect arrays
  have hmade : arrays.Grants rect := by constructor <;> decide +kernel
  have hr : rect.Reachable arrays :=
    Rect.reachable_of_lt hmade (by decide) (by decide) (by decide) (by decide)
  have htimes : 0 < rect.area →
      ∀ t, -1 ≤ t → t < max 5 (-1 + 1) → (Scalar.integer t).Representable :=
    fun _ t hl hu => Scalar.representable_of_lt (by omega)
  exact ⟨⟨rfl, hr, htimes⟩, animate_covers_all_times e rfl arrays rect hr 0.5 (-1) 5 htimes⟩

theorem animate_of_sample_error {lower : Int} {cellSize : Float} {cause : SampleError}
    (h : e.sample arrays rect (.integer lower) cellSize = .error cause) (upper : Int) :
    e.animate arrays lower upper rect cellSize = .error cause := by
  simp only [animate, h, bind, Except.bind]

theorem sample_of_axis_error (hb : e.isBound = true) {cause : SampleError}
    (h : Sample.axis arrays rect.minX rect.maxX = .error cause) (t : Scalar) (cellSize : Float) :
    e.sample arrays rect t cellSize = .error cause := by
  obtain ⟨⟨lhs, rhs⟩, he⟩ := Option.isSome_iff_exists.mp hb
  simp only [sample, he, h, bind, Except.bind]

/-- No frame comes back from a time past the largest double, from a cell past it, and from bounds that
are too far apart, though there is no cell between them. -/
theorem animate_past_doubles :
    let e := ofSides (.var "y") (.number 0.0)
    let arrays := Arrays.addressed
    e.isBound = true ∧
      e.animate arrays (10 ^ 400) (10 ^ 400 + 1) ⟨0, 0, 1, 1⟩ 1.0 = .error (.residual .overflow) ∧
      e.animate arrays 0 1 ⟨10 ^ 400, 0, 10 ^ 400 + 1, 1⟩ 1.0 = .error (.residual .overflow) ∧
      e.animate arrays 0 1 ⟨0, 0, -10 ^ 30, 1⟩ 1.0 = .error (.refused Arrays.tooLong) := by
  intro e arrays
  have hmade : arrays.Grants ⟨0, 0, 1, 1⟩ := by constructor <;> decide +kernel
  have hr : Rect.Reachable arrays ⟨0, 0, 1, 1⟩ :=
    Rect.reachable_of_lt hmade (by decide) (by decide) (by decide) (by decide)
  have hfar : arrays.axisRefusal? (10 ^ 400) (10 ^ 400 + 1) = none := by decide +kernel
  have hlong : arrays.axisRefusal? 0 (-10 ^ 30) = some Arrays.tooLong := by decide +kernel
  refine ⟨rfl, ?_, ?_, ?_⟩
  · exact animate_of_sample_error (sample_of_overflow rfl hr (by decide) toFloat?_past_doubles) _
  · refine animate_of_sample_error (sample_of_axis_error rfl ?_ _ _) _
    exact Sample.axis_of_overflow hfar (by decide +kernel) toFloat?_past_doubles
  · exact animate_of_sample_error (sample_of_axis_error rfl (Sample.axis_of_refused hlong) _ _) _

end Equation
end Isotherm
