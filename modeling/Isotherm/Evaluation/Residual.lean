import Isotherm.Evaluation.Evaluate
import Isotherm.Formula.Checked
import Isotherm.Number.Scalar

/-!
# Residuals

The residual of an equation is its right side less its left side; the right side is evaluated
first. At a point, a fault is recovered from with a residual of zero, unless the evaluation is
strict. Over a grid nothing is recovered from.
-/

namespace Isotherm

/-- A fault of an evaluation as it is reported: its kind and its message. -/
structure FaultReport where
  kind : String
  message : String
deriving DecidableEq, Repr

def Stop.report : Stop → FaultReport
  | unknownOperator symbol => ⟨"ValueError", "Unknown operator: " ++ symbol⟩
  | foreign => ⟨"TypeError", TreeError.message (.foreign .evaluate)⟩
  | unknownFunction name arity =>
    ⟨"UnknownFunctionError",
      "Unknown " ++ (if arity = 1 then "single" else "double") ++ " argument function: " ++ name⟩

def FaultReport.text (r : FaultReport) : String :=
  r.kind ++ ": " ++ r.message

/-- The residual at a point, whether time was read, and the fault that was recovered from. -/
structure Residual where
  value : Float
  timeUsed : Bool
  recovered : Option Stop

inductive ResidualError where
  /-- A side of the equation is missing. -/
  | unbound
  /-- A coordinate is past the largest double. -/
  | overflow
  /-- A call of an unknown function in a strict evaluation. -/
  | unknownFunction (name : String) (arity : Nat)
  /-- Any other fault of a strict evaluation at a point. -/
  | fault (x y t : Scalar) (cause : Stop)
deriving Repr

def ResidualError.message : ResidualError → String
  | unbound => TreeError.message .unbound
  | overflow => "int too large to convert to float"
  | unknownFunction name arity => (Stop.unknownFunction name arity).report.message
  | fault x y t cause =>
    "Evaluation failed at X=" ++ x.text ++ ", Y=" ++ y.text ++ ", T=" ++ t.text ++ ": "
      ++ cause.report.text

def Stop.warning (s : Stop) : String :=
  "Recovered from evaluation fault: " ++ s.report.text

namespace Equation

def difference {α : Type} (A : Arithmetic α) (strict : Bool) (b : Bindings α) (lhs rhs : Expr) :
    Evaluation α := do
  let right ← rhs.evaluate A strict b
  let left ← lhs.evaluate A strict b
  return A.minus right left

def run {α : Type} (A : Arithmetic α) (strict : Bool) (b : Bindings α) (lhs rhs : Expr) :
    Except Stop α × Reads :=
  StateT.run (ExceptT.run (difference A strict b lhs rhs)) Reads.none

/-- The residual of two sides at a point, with recovery from faults. -/
def residual (lhs rhs : Expr) (x y t : Float) : Residual :=
  match run .point false ⟨x, y, t⟩ lhs rhs with
  | (.ok value, reads) => ⟨value, reads.t, none⟩
  | (.error stop, reads) => ⟨0.0, reads.t, some stop⟩

def strictResidual (lhs rhs : Expr) (x y t : Float) : Except Stop Residual :=
  match run .point true ⟨x, y, t⟩ lhs rhs with
  | (.ok value, reads) => .ok ⟨value, reads.t, none⟩
  | (.error stop, _) => .error stop

/-- The residual of an equation at a point given from outside. -/
def residualAt (e : Equation) (strict : Bool) (x y t : Scalar) :
    Except ResidualError Residual :=
  match x.toFloat?, y.toFloat?, t.toFloat? with
  | some x', some y', some t' =>
    match e.sides? with
    | none => .error .unbound
    | some (lhs, rhs) =>
      if strict then
        match strictResidual lhs rhs x' y' t' with
        | .ok r => .ok r
        | .error (.unknownFunction name arity) => .error (.unknownFunction name arity)
        | .error stop => .error (.fault x y t stop)
      else .ok (residual lhs rhs x' y' t')
  | _, _, _ => .error .overflow

/-- A cell of a grid: its column and its row. -/
abbrev Cell := Nat × Nat

/-- The residuals of two sides over columns at `xs` and rows at `ys`, all at time `t`, row by row, and
what was read for all of them together. -/
def grid (strict : Bool) (lhs rhs : Expr) (xs ys : Array Float) (t : Float) :
    Except Stop (Array (Array Float)) × Reads :=
  let bindings : Bindings (Cell → Float) :=
    ⟨fun c => xs.getD c.1 0.0, fun c => ys.getD c.2 0.0, fun _ => t⟩
  let (outcome, reads) := run (.field Cell) strict bindings lhs rhs
  (outcome.map fun value =>
    (Array.range ys.size).map fun row => (Array.range xs.size).map fun column =>
      value (column, row), reads)

end Equation
end Isotherm
