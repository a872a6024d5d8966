import Isotherm.Sampling.Animation

/-!
# Assessing animations

Whether an animation is worth keeping: it has to move, most of its frames have to draw something,
and what it draws may be neither a speck nor a flood.
-/

namespace Isotherm

inductive Rejection where
  | fewChanges | fewUsedFrames | lowCoverage | highCoverage
deriving DecidableEq, Repr

def Rejection.text : Rejection → String
  | fewChanges => "Too few frames are different"
  | fewUsedFrames => "Too few frames used, less than 50%"
  | lowCoverage => "Less than 1% of all frames used"
  | highCoverage => "More than 90% of all frames used"

structure Tally where
  frames : Nat
  /-- Residuals near zero. -/
  setCount : Nat
  /-- Frames with a residual near zero. -/
  usedFrames : Nat
  /-- Frames that differ from the one before. -/
  frameChanges : Nat
  /-- Cells of all frames. -/
  totalSamples : Nat
deriving DecidableEq, Repr

namespace Tally

def ofFrames (frames : List Frame) : Tally where
  frames := frames.length
  setCount := frames.foldr (fun f n => f.sets + n) 0
  usedFrames := frames.countP fun f => 0 < f.sets
  frameChanges := (Animation.changes frames).count true
  totalSamples := frames.foldr (fun f n => f.rect.area + n) 0

def coverage (t : Tally) : Float :=
  if t.totalSamples = 0 then 0.0 else Scaled.nearest false t.setCount t.totalSamples

def rejection? (t : Tally) : Option Rejection :=
  if t.frameChanges < 2 && 3 < t.frames then some .fewChanges
  else if t.usedFrames < t.frames / 2 then some .fewUsedFrames
  else if Float.ofNat t.setCount < Float.ofNat t.totalSamples * 0.01 then some .lowCoverage
  else if Float.ofNat t.totalSamples * 0.90 < Float.ofNat t.setCount then some .highCoverage
  else none

def accepted (t : Tally) : Bool :=
  t.rejection?.isNone

end Tally
end Isotherm
