import Isotherm.Proofs.Number.Bits
import Isotherm.Proofs.Sampling.Frames
import Isotherm.Sampling.Assessment

/-!
# Animations that stand still

Frames are compared residual by residual, and a NaN equals nothing. So an animation whose frames are
all the same is found to stand still where no residual is a NaN; with a NaN in it, every frame
counts as different from the one before, and the animation is never rejected for its lack of changes.
-/

namespace Isotherm

namespace Frame

/-- Two frames have one rectangle and the same residual in each cell; a NaN is the same as a NaN. -/
structure Same (a b : Frame) : Prop where
  rect : a.rect = b.rect
  residual (x y : Int) (h : a.rect.Contains x y) :
    (a.get x y == b.get x y) = true ∨ ((a.get x y).isNaN = true ∧ (b.get x y).isNaN = true)

/-- Some residual of the frame is a NaN. -/
def HasNaN (f : Frame) : Prop :=
  ∃ x y, f.rect.Contains x y ∧ (f.get x y).isNaN = true

theorem Same.refl (f : Frame) : f.Same f := by
  refine ⟨rfl, fun x y _ => ?_⟩
  cases h : (f.get x y).isNaN with
  | true => exact .inr ⟨rfl, rfl⟩
  | false => exact .inl ((Bits.beq_self_iff _).mpr h)

theorem equal_iff_rows {rect : Rect} (rows rows' : Vector (Vector Float rect.width) rect.height)
    (t t' : Scalar) (sets sets' : Nat) :
    equal ⟨rect, rows, t, sets⟩ ⟨rect, rows', t', sets'⟩ = true ↔
      ∀ (row : Fin rect.height) (column : Fin rect.width),
        (rows[row][column] == rows'[row][column]) = true := by
  simp only [equal, toArrays, beq_self_eq_true, Bool.true_and, Array.all_eq_true]
  simp [Fin.forall_iff]

/-- Frames over one rectangle are equal where all their residuals are. -/
theorem equal_iff {a b : Frame} (hrect : a.rect = b.rect) :
    a.equal b = true ↔
      ∀ x y, a.rect.Contains x y → (a.get x y == b.get x y) = true := by
  obtain ⟨rect, rows, t, sets⟩ := a
  obtain ⟨rect', rows', t', sets'⟩ := b
  obtain rfl : rect = rect' := hrect
  rw [equal_iff_rows]
  constructor
  · intro h x y hcell
    rw [get_eq_of_contains hcell, get_eq_of_contains (f := ⟨rect, rows', t', sets'⟩) hcell]
    exact h _ _
  · intro h row column
    have hcell := Rect.contains_add column.2 row.2
    have hequal := h _ _ hcell
    rw [get_eq_of_contains hcell, get_eq_of_contains hcell] at hequal
    simpa only [Rect.column_add, Rect.row_add] using hequal

/-- Frames that are the same are equal only without a NaN. -/
theorem Same.equal_iff {a b : Frame} (h : a.Same b) : a.equal b = true ↔ ¬a.HasNaN := by
  rw [Frame.equal_iff h.rect]
  constructor
  · intro hequal ⟨x, y, hcell, hnan⟩
    have hreal := Bits.not_isNaN_of_beq (hequal x y hcell)
    rw [hnan] at hreal
    cases hreal
  · intro hreal x y hcell
    refine (h.residual x y hcell).resolve_right fun hnan => ?_
    exact hreal ⟨x, y, hcell, hnan.1⟩

theorem Same.hasNaN {a b : Frame} (h : a.Same b) (ha : a.HasNaN) : b.HasNaN := by
  obtain ⟨x, y, hcell, hnan⟩ := ha
  refine ⟨x, y, h.rect ▸ hcell, ?_⟩
  rcases h.residual x y hcell with hequal | ⟨-, hb⟩
  · rw [Bits.not_isNaN_of_beq hequal] at hnan
    cases hnan
  · exact hb

end Frame

namespace Animation

/-- Where all frames compare alike, every frame after the first counts alike. -/
theorem changes_eq_replicate {frames : List Frame} {same : Bool}
    (h : ∀ a ∈ frames, ∀ b ∈ frames, b.equal a = same) :
    changes frames = List.replicate (frames.length - 1) (!same) := by
  fun_induction changes frames with
  | case1 a b rest ih =>
    have hrest : ∀ c ∈ b :: rest, ∀ d ∈ b :: rest, d.equal c = same := fun c hc d hd =>
      h c (List.mem_cons_of_mem _ hc) d (List.mem_cons_of_mem _ hd)
    rw [ih hrest, h a List.mem_cons_self b (List.mem_cons_of_mem _ List.mem_cons_self)]
    rfl
  | case2 frames hshort =>
    match frames, hshort with
    | [], _ => rfl
    | [_], _ => rfl
    | a :: b :: rest, hshort => exact absurd rfl (hshort a b rest)

end Animation

namespace Tally

theorem frameChanges_ofFrames {frames : List Frame} {same : Bool}
    (h : ∀ a ∈ frames, ∀ b ∈ frames, b.equal a = same) :
    (ofFrames frames).frameChanges = if same then 0 else frames.length - 1 := by
  show (Animation.changes frames).count true = _
  rw [Animation.changes_eq_replicate h, List.count_replicate]
  cases same <;> rfl

/-- The lack of changes is the first reason to reject, and it is asked for in more than three
frames. -/
theorem rejection?_eq_fewChanges_iff (t : Tally) :
    t.rejection? = some .fewChanges ↔ t.frameChanges < 2 ∧ 3 < t.frames := by
  unfold rejection?
  by_cases h : (t.frameChanges < 2 && 3 < t.frames) = true
  · rw [if_pos h]
    simpa using h
  · rw [if_neg h]
    have hnot : ¬(t.frameChanges < 2 ∧ 3 < t.frames) := by simpa using h
    refine iff_of_false ?_ hnot
    split_ifs <;> simp

theorem text_rejection?_eq_iff (t : Tally) :
    t.rejection?.map Rejection.text = some "Too few frames are different" ↔
      t.frameChanges < 2 ∧ 3 < t.frames := by
  rw [← rejection?_eq_fewChanges_iff]
  cases t.rejection? with
  | none => simp
  | some reason => cases reason <;> simp [Rejection.text]

/-- An animation of more than three frames that are all the same is rejected for its lack of changes
where no residual is a NaN. With a NaN in it, each frame after the first counts as a change, and the
animation is not rejected for that reason. -/
theorem rejection_of_same_frames {frames : List Frame} (hlength : 3 < frames.length)
    (hsame : ∀ a ∈ frames, ∀ b ∈ frames, a.Same b) :
    ((∀ f ∈ frames, ¬f.HasNaN) → (ofFrames frames).frameChanges = 0 ∧
      (ofFrames frames).rejection?.map Rejection.text = some "Too few frames are different") ∧
    ((∃ f ∈ frames, f.HasNaN) → (ofFrames frames).frameChanges = frames.length - 1 ∧
      (ofFrames frames).rejection?.map Rejection.text ≠ some "Too few frames are different") := by
  constructor
  · intro hreal
    have hequal : ∀ a ∈ frames, ∀ b ∈ frames, b.equal a = true := fun a ha b hb =>
      (hsame b hb a ha).equal_iff.mpr (hreal b hb)
    have hchanges : (ofFrames frames).frameChanges = 0 := frameChanges_ofFrames hequal
    refine ⟨hchanges, (text_rejection?_eq_iff _).mpr ⟨?_, hlength⟩⟩
    rw [hchanges]
    decide
  · intro ⟨f, hf, hnan⟩
    have hdiffer : ∀ a ∈ frames, ∀ b ∈ frames, b.equal a = false := by
      intro a ha b hb
      rw [← Bool.not_eq_true, (hsame b hb a ha).equal_iff]
      exact not_not_intro ((hsame f hf b hb).hasNaN hnan)
    have hchanges : (ofFrames frames).frameChanges = frames.length - 1 :=
      frameChanges_ofFrames hdiffer
    refine ⟨hchanges, fun htext => ?_⟩
    have hfew := ((text_rejection?_eq_iff _).mp htext).1
    rw [hchanges] at hfew
    omega

/-- Four times the frame of one zero. -/
theorem rejection_of_same_frames_zero :
    let frames := List.replicate 4 (Frame.ofFn ⟨0, 0, 1, 1⟩ (fun _ _ => 0.0) (.integer 0))
    (3 < frames.length ∧ ∀ a ∈ frames, ∀ b ∈ frames, a.Same b) ∧ (∀ f ∈ frames, ¬f.HasNaN) ∧
      (ofFrames frames).frameChanges = 0 ∧
      (ofFrames frames).rejection?.map Rejection.text = some "Too few frames are different" := by
  intro frames
  have hlength : 3 < frames.length := by decide
  have hsame : ∀ a ∈ frames, ∀ b ∈ frames, a.Same b := by
    intro a ha b hb
    rw [List.eq_of_mem_replicate ha, List.eq_of_mem_replicate hb]
    exact .refl _
  have hreal : ∀ f ∈ frames, ¬f.HasNaN := by
    intro f hf ⟨x, y, hcell, hnan⟩
    rw [List.eq_of_mem_replicate hf] at hcell hnan
    have hcontains : (⟨0, 0, 1, 1⟩ : Rect).Contains x y := hcell
    rw [Frame.get_ofFn hcontains] at hnan
    exact absurd hnan (by decide)
  exact ⟨⟨hlength, hsame⟩, hreal, (rejection_of_same_frames hlength hsame).1 hreal⟩

/-- Four times the frame of a zero and a NaN: all are the same, and the animation is accepted. -/
theorem accepted_still_frames :
    let frames := List.replicate 4 (Frame.ofFn ⟨0, 0, 2, 1⟩
      (fun column _ => if column = 0 then 0.0 else notANumber) (.integer 0))
    3 < frames.length ∧ (∀ a ∈ frames, ∀ b ∈ frames, a.Same b) ∧
      (ofFrames frames).frameChanges = 3 ∧ (ofFrames frames).accepted = true := by
  intro frames
  refine ⟨by decide, ?_, by decide +kernel, by decide +kernel⟩
  intro a ha b hb
  rw [List.eq_of_mem_replicate ha, List.eq_of_mem_replicate hb]
  exact .refl _

end Tally
end Isotherm
