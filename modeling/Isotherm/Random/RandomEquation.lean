import Isotherm.Formula.Expr
import Isotherm.Function.Named
import Isotherm.Random.Draws

/-!
# Random equations

A random expression of some depth is one of eleven kinds, all equally likely, made of expressions of
the depth below; at depth zero it is a variable. Draws are made in the order in which the parts of
the text are decided: the kind, then what belongs to it from left to right.
-/

namespace Isotherm

inductive NodeKind where
  | constant | coordinate
  | binary (operator : Operator)
  | negate | brackets | function
deriving DecidableEq, Repr

namespace NodeKind

def all : List NodeKind :=
  [constant, coordinate] ++ Operator.known.map binary ++ [negate, brackets, function]

end NodeKind

namespace RandomEquation

variable {σ : Type}

def choose {α : Type} (source : DrawSource σ) (items : List α) (nonempty : items ≠ []) :
    StateM σ α := fun s =>
  let (i, after) := source.draw items.length (List.length_pos_iff.2 nonempty) s
  (items[i], after)

def constant (source : DrawSource σ) : StateM σ Expr := fun s =>
  let (n, after) := source.draw 400 (by decide) s
  (.number (n.val.toFloat / 4.0), after)

def anyVariable (source : DrawSource σ) : StateM σ Expr := do
  let name ← choose source ["X", "Y", "T"] (by decide)
  return .var name

/-- Whether a function of two arguments is written between them. -/
def infixed (source : DrawSource σ) : StateM σ Bool := fun s =>
  let (n, after) := source.draw 2 (by decide) s
  (n.val = 0, after)

theorem allNames_ne_nil : Function1.allNames ≠ [] := by
  unfold Function1.allNames
  intro h
  have := congrArg List.length h
  simp [List.length_mergeSort, Function1.all, Function2.all] at this

def function (source : DrawSource σ) (part : StateM σ Expr) : StateM σ Expr := do
  let name ← choose source Function1.allNames allNames_ne_nil
  match Function1.ofName? name with
  | some _ => return .call name (← part)
  | none =>
    let first ← part
    let second ← part
    return .call2 name first second (← infixed source)

/-- A random node of a kind, whose parts are drawn by `part`. -/
def node (source : DrawSource σ) (part : StateM σ Expr) : NodeKind → StateM σ Expr
  | .constant => constant source
  | .coordinate => anyVariable source
  | .binary operator => do
    let left ← part
    let right ← part
    return .binary left operator right
  | .negate => do return .negate (.brackets (← part))
  | .brackets => do return .brackets (← part)
  | .function => function source part

def expression (source : DrawSource σ) : Nat → StateM σ Expr
  | 0 => anyVariable source
  | depth + 1 => do
    let kind ← choose source NodeKind.all (by decide)
    node source (expression source depth) kind

def sides (source : DrawSource σ) (depth : Nat) : StateM σ (Expr × Expr) := do
  let lhs ← expression source depth
  let rhs ← expression source depth
  return (lhs, rhs)

end RandomEquation
end Isotherm
