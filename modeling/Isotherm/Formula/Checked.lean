import Isotherm.Formula.Printer
import Isotherm.Formula.Simplify

/-!
# Operations that refuse broken trees

Depth, text and simplification are defined on every tree. The versions here refuse a tree with a
foreign node, and an equation with a missing side where both are needed.
-/

namespace Isotherm

inductive Task where
  | serialize | simplify | measure | evaluate
deriving DecidableEq, Repr

def Task.phrase : Task → String
  | serialize => "serialize"
  | simplify => "simplify"
  | measure => "measure depth of"
  | evaluate => "evaluate"

inductive TreeError where
  /-- A side of the equation is missing. -/
  | unbound
  /-- A foreign node was met. -/
  | foreign (task : Task)
deriving DecidableEq, Repr

def TreeError.message : TreeError → String
  | unbound => "no such formula"
  | foreign task => "Cannot " ++ task.phrase ++ " Foreign"

namespace Expr

/-- `value` of a tree without foreign nodes. -/
def guarded {α : Type} (task : Task) (e : Expr) (value : α) : Except TreeError α :=
  if e.hasForeign then .error (.foreign task) else .ok value

def checkedText (e : Expr) : Except TreeError String :=
  e.guarded .serialize e.text

def checkedSimplify (grouped : Bool) (e : Expr) : Except TreeError Expr :=
  e.guarded .simplify (e.simplify grouped)

end Expr

namespace Equation

def sides (e : Equation) : Except TreeError (Expr × Expr) :=
  match e.sides? with
  | some both => .ok both
  | none => .error .unbound

/-- `value` of an equation without foreign nodes. -/
def guarded {α : Type} (task : Task) (e : Equation) (value : α) : Except TreeError α :=
  if e.hasForeign then .error (.foreign task) else .ok value

def checkedText (e : Equation) : Except TreeError String := do
  let (lhs, rhs) ← e.sides
  e.guarded .serialize (textOfSides lhs rhs)

def checkedDepth (e : Equation) : Except TreeError Nat := do
  let (lhs, rhs) ← e.sides
  e.guarded .measure (max lhs.depth rhs.depth + 1)

/-- The simplified equation; a missing side stays missing. -/
def checkedSimplify (e : Equation) : Except TreeError Equation :=
  e.guarded .simplify e.simplify

end Equation
end Isotherm
