import Isotherm.Proofs.Number.Shares
import Isotherm.Proofs.Sampling.StaticFrames

/-!
# Acceptance in whole numbers

An animation is accepted by four tests, of which the last two compare a count with a product of
doubles. For fewer than `2 ^ 48` cells they come out as the same tests on whole numbers do, at their
bounds too: one cell in a hundred is enough, and nine in ten are not too many.
-/

namespace Isotherm

namespace Animation

/-- The frames that differ from the one before, counted over pairs of neighbours. -/
theorem count_changes (frames : List Frame) :
    (changes frames).count true =
      (frames.zip frames.tail).countP fun (before, after) => !after.equal before := by
  fun_induction changes frames with
  | case1 a b rest ih =>
    rw [List.count_cons, ih, List.tail_cons, List.tail_cons, List.zip_cons_cons,
      List.countP_cons]
    simp
  | case2 frames hshort =>
    obtain _ | ⟨a, _ | ⟨b, rest⟩⟩ := frames
    · rfl
    · rfl
    · exact absurd rfl (hshort a b rest)

end Animation

namespace Tally

theorem foldr_add_eq_sum {α : Type} (items : List α) (count : α → Nat) :
    items.foldr (fun item n => count item + n) 0 = (items.map count).sum := by
  rw [List.sum_eq_foldr, List.foldr_map]

/-- The reason to reject, in whole numbers. -/
theorem rejection?_eq_of_lt {t : Tally} (h : t.totalSamples < 2 ^ 48) :
    t.rejection? =
      if 3 < t.frames ∧ t.frameChanges < 2 then some .fewChanges
      else if t.usedFrames < t.frames / 2 then some .fewUsedFrames
      else if 100 * t.setCount < t.totalSamples then some .lowCoverage
      else if 9 * t.totalSamples < 10 * t.setCount then some .highCoverage
      else none := by
  unfold rejection?
  simp only [Bool.and_eq_true, decide_eq_true_eq, Scaled.ofNat_lt_hundredth_iff h,
    Scaled.nineTenths_lt_ofNat_iff h, and_comm]

/-- Frames with fewer than `2 ^ 48` cells are assessed as exact arithmetic assesses them: by their
number and the neighbours that differ, by the frames that are used, and by the share of the cells
near zero, in that order. -/
theorem assessment_is_exact {frames : List Frame}
    (h : (frames.map fun f => f.rect.area).sum < 2 ^ 48) :
    let changes := (frames.zip frames.tail).countP fun (before, after) => !after.equal before
    let used := frames.countP fun f => 0 < f.sets
    let sets := (frames.map Frame.sets).sum
    let cells := (frames.map fun f => f.rect.area).sum
    (ofFrames frames).rejection? =
        (if 3 < frames.length ∧ changes < 2 then some .fewChanges
        else if used < frames.length / 2 then some .fewUsedFrames
        else if 100 * sets < cells then some .lowCoverage
        else if 9 * cells < 10 * sets then some .highCoverage
        else none) ∧
      ((ofFrames frames).accepted = true ↔
        (frames.length ≤ 3 ∨ 2 ≤ changes) ∧ frames.length / 2 ≤ used ∧ cells ≤ 100 * sets ∧
          10 * sets ≤ 9 * cells) := by
  intro changes used sets cells
  have hchanges : (ofFrames frames).frameChanges = changes := Animation.count_changes frames
  have hsets : (ofFrames frames).setCount = sets := foldr_add_eq_sum frames Frame.sets
  have hcells : (ofFrames frames).totalSamples = cells :=
    foldr_add_eq_sum frames fun f => f.rect.area
  have hreason := rejection?_eq_of_lt (t := ofFrames frames) (by rwa [hcells])
  rw [hchanges, hsets, hcells] at hreason
  change _ = if 3 < frames.length ∧ changes < 2 then some Rejection.fewChanges
    else if used < frames.length / 2 then some .fewUsedFrames else _ at hreason
  refine ⟨hreason, ?_⟩
  rw [accepted, hreason]
  split_ifs
  all_goals
    simp only [Option.isNone_some, Option.isNone_none, Bool.false_eq_true, false_iff, true_iff]
    omega

/-- One cell near zero in a frame of a hundred is accepted. -/
theorem assessment_is_exact_hundredth :
    let frames := [Frame.ofFn ⟨0, 0, 10, 10⟩
      (fun column row => if column = 0 ∧ row = 0 then 0.0 else 2.0) (.integer 0)]
    (frames.map fun f => f.rect.area).sum < 2 ^ 48 ∧ (ofFrames frames).setCount = 1 ∧
      (ofFrames frames).totalSamples = 100 ∧ (ofFrames frames).accepted = true := by
  intro frames
  have hcells : (frames.map fun f => f.rect.area).sum < 2 ^ 48 := by decide
  have hsets : (frames.map Frame.sets).sum = 1 := by decide +kernel
  refine ⟨hcells, by decide +kernel, by decide, (assessment_is_exact hcells).2.mpr ?_⟩
  rw [hsets]
  decide +kernel

end Tally
end Isotherm
