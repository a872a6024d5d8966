import Isotherm.Sampling.Sample

/-!
# Animations

The frames of an equation from one time up to another. Whether the first frame reads the time
decides if there are more: an equation that ignores time has one frame.
-/

namespace Isotherm

/-- Frames at consecutive times, whether the first one read the time, and all faults recovered
from. -/
structure Animation where
  timeUsed : Bool
  frames : Array Frame
  recovered : Array Stop

namespace Animation

def push (a : Animation) (s : Sample) : Animation :=
  { a with frames := a.frames.push s.frame, recovered := a.recovered ++ s.recovered }

def laterTimes (lower upper : Int) : List Int :=
  (List.range (upper - lower - 1).toNat).map fun (n : Nat) => lower + 1 + n

/-- The warning that there is no frame to render. -/
def emptyWarning : String := "Cannot render an empty frame sequence"

/-- Whether each frame after the first differs from the one before. -/
def changes : List Frame → List Bool
  | a :: b :: rest => (!b.equal a) :: changes (b :: rest)
  | _ => []

end Animation

/-- The frames of an equation from `lower` up to but not including `upper`; always the first. -/
def Equation.animate (e : Equation) (arrays : Arrays) (lower upper : Int) (rect : Rect)
    (cellSize : Float) : Except SampleError Animation := do
  let first ← e.sample arrays rect (.integer lower) cellSize
  let start : Animation := ⟨first.timeUsed, #[first.frame], first.recovered⟩
  if first.timeUsed then
    (Animation.laterTimes lower upper).foldlM
      (fun a t => (e.sample arrays rect (.integer t) cellSize).map a.push) start
  else return start

end Isotherm
