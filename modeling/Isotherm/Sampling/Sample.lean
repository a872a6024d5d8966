import Isotherm.Evaluation.Residual
import Isotherm.Sampling.Arrays
import Isotherm.Sampling.Frame

/-!
# Sampling an equation

The residuals of an equation at all cells of a rectangle, first over the whole grid in one pass; if
that faults, cell by cell, column after column, recovering from the fault of each cell. The cell
`(x, y)` lies at `(x · cellSize, y · cellSize)`. Cells and times are integers, and one past the
largest double stops the sampling. So does an array that is refused.
-/

namespace Isotherm

/-- A sampled frame, whether time was read for it, and the faults recovered from, in order. -/
structure Sample where
  frame : Frame
  timeUsed : Bool
  recovered : Array Stop

inductive SampleError where
  /-- An array is not made. -/
  | refused (cause : Refusal)
  | residual (cause : ResidualError)
deriving Repr

def SampleError.message : SampleError → String
  | refused cause => cause.message
  | residual cause => cause.message

namespace Sample

def double (n : Int) : Except SampleError Float :=
  match (Scalar.integer n).toFloat? with
  | some v => .ok v
  | none => .error (.residual .overflow)

/-- The coordinate of the cells at `n`. -/
def coordinate (cellSize : Float) (n : Int) : Except SampleError Float :=
  (double n).map (· * cellSize)

/-- The doubles from `lower` up to `upper`. The first two are rounded, and the step between them is
the step of all. -/
def axis (arrays : Arrays) (lower upper : Int) : Except SampleError (Nat → Float) := do
  Refusal.guard .refused (arrays.axisRefusal? lower upper)
  if upper ≤ lower then return fun _ => 0.0
  let first ← double lower
  if upper = lower + 1 then return fun _ => first
  let second ← double (lower + 1)
  let start := Integral.value first
  let step := Integral.value second - start
  return fun i => Integral.ofInt (start + step * i)

def cells (rect : Rect) : List (Int × Int) :=
  (List.range rect.width).flatMap fun (column : Nat) =>
    (List.range rect.height).map fun (row : Nat) => (rect.minX + column, rect.minY + row)

/-- Writes the residual of a cell. -/
def add (s : Sample) (cell : Int × Int) (r : Residual) : Sample where
  frame := s.frame.set cell.1 cell.2 r.value
  timeUsed := s.timeUsed || r.timeUsed
  recovered := s.recovered ++ r.recovered.toArray

def empty (rect : Rect) (t : Scalar) : Sample :=
  ⟨.empty rect t, false, #[]⟩

/-- All residuals in one pass over columns at `xs` and rows at `ys`; none if that faults, as it does
where there is no array for them. -/
def wholeGrid (arrays : Arrays) (lhs rhs : Expr) (rect : Rect) (xs ys : Nat → Float) (t : Scalar) :
    Option Sample :=
  if (arrays.gridRefusal? rect.height rect.width).isSome then none
  else t.toFloat?.bind fun time =>
    let bindings : Bindings (Equation.Cell → Float) :=
      ⟨fun c => xs c.1, fun c => ys c.2, fun _ => time⟩
    match Equation.run (.field Equation.Cell) false bindings lhs rhs with
    | (.ok value, reads) =>
      some ⟨Frame.ofFn rect (fun column row => value (column, row)) t, reads.t, #[]⟩
    | (.error _, _) => none

end Sample

namespace Equation

/-- The residual of an equation at a cell. -/
def residualOfCell (e : Equation) (t : Scalar) (cellSize : Float) (cell : Int × Int) :
    Except SampleError Residual := do
  let x ← Sample.coordinate cellSize cell.1
  let y ← Sample.coordinate cellSize cell.2
  (e.residualAt false (.real x) (.real y) t).mapError .residual

/-- Samples an equation cell by cell. An unbound one is noticed at the first cell. -/
def scanCells (e : Equation) (arrays : Arrays) (rect : Rect) (t : Scalar) (cellSize : Float) :
    Except SampleError Sample := do
  Refusal.guard .refused (arrays.gridRefusal? rect.height rect.width)
  (Sample.cells rect).foldlM
    (fun s cell => (e.residualOfCell t cellSize cell).map (s.add cell)) (Sample.empty rect t)

/-- Samples an equation, cell by cell if the whole grid faults. -/
def sample (e : Equation) (arrays : Arrays) (rect : Rect) (t : Scalar) (cellSize : Float) :
    Except SampleError Sample :=
  match e.sides? with
  | none => .error (.residual .unbound)
  | some (lhs, rhs) => do
    let xs ← Sample.axis arrays rect.minX rect.maxX
    let ys ← Sample.axis arrays rect.minY rect.maxY
    let columns := fun i => xs i * cellSize
    let rows := fun i => ys i * cellSize
    match Sample.wholeGrid arrays lhs rhs rect columns rows t with
    | some s => return s
    | none => e.scanCells arrays rect t cellSize

end Equation
end Isotherm
