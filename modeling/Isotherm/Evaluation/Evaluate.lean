import Isotherm.Formula.Expr
import Isotherm.Function.Named

/-!
# Evaluating expressions

One evaluator serves single points and whole grids: it is given the operations on what it computes
with. It visits operands before what joins them, from left to right, notes which variables it reads,
and stops at the first node that it cannot evaluate. Numeric trouble is no fault: it gives
infinities and NaNs.

For `a op b` the right operand comes first, `b + a`, `b - a`, `b * a`, `b / a`, but for the power
`a ^ b` and the remainder of `a` by `b`.
-/

namespace Isotherm

/-- What is computed with, by its operations. -/
structure Arithmetic (α : Type) where
  constant : Float → α
  negated : α → α
  plus : α → α → α
  minus : α → α → α
  times : α → α → α
  dividedBy : α → α → α
  power : α → α → α
  /-- The remainder that has the sign of the dividend. -/
  remainder : α → α → α
  call : Function1 → α → α
  call2 : Function2 → α → α → α

namespace Arithmetic

/-- Doubles, for one point. -/
def point : Arithmetic Float where
  constant v := v
  negated v := -v
  plus v w := v + w
  minus v w := v - w
  times v w := v * w
  dividedBy v w := v / w
  power := Elementary.pow
  remainder := Remainder.truncated
  call := Function1.apply
  call2 := Function2.apply

/-- Fields of doubles, with each operation point by point. -/
def field (ι : Type) : Arithmetic (ι → Float) where
  constant v _ := v
  negated a i := point.negated (a i)
  plus a b i := point.plus (a i) (b i)
  minus a b i := point.minus (a i) (b i)
  times a b i := point.times (a i) (b i)
  dividedBy a b i := point.dividedBy (a i) (b i)
  power a b i := point.power (a i) (b i)
  remainder a b i := point.remainder (a i) (b i)
  call f a i := point.call f (a i)
  call2 f a b i := point.call2 f (a i) (b i)

/-- An operator of the grammar applied to its left and right operand; none for any other. -/
def operator? {α : Type} (A : Arithmetic α) (o : Operator) (l r : α) : Option α :=
  match o with
  | .add => some (A.plus r l)
  | .subtract => some (A.minus r l)
  | .multiply => some (A.times r l)
  | .divide => some (A.dividedBy r l)
  | .power => some (A.power l r)
  | .remainder => some (A.remainder l r)
  | .unknown _ => none

end Arithmetic

structure Bindings (α : Type) where
  x : α
  y : α
  t : α

structure Reads where
  x : Bool
  y : Bool
  t : Bool
deriving DecidableEq, Repr

/-- No variable read yet. -/
def Reads.none : Reads := ⟨false, false, false⟩

inductive Coordinate where
  | x | y | t
deriving DecidableEq, Repr

namespace Coordinate

/-- The variable that is called `name`, in either case. -/
def ofName? (name : String) : Option Coordinate :=
  match caseKey name with
  | ['X'] => some x
  | ['Y'] => some y
  | ['T'] => some t
  | _ => none

def mark (r : Reads) : Coordinate → Reads
  | x => { r with x := true }
  | y => { r with y := true }
  | t => { r with t := true }

def value {α : Type} (b : Bindings α) : Coordinate → α
  | x => b.x
  | y => b.y
  | t => b.t

end Coordinate

inductive Stop where
  | unknownOperator (symbol : String)
  | foreign
  /-- A call of an unknown function of `arity` arguments, where that is not let pass. -/
  | unknownFunction (name : String) (arity : Nat)
deriving DecidableEq, Repr

abbrev Evaluation (α : Type) := ExceptT Stop (StateM Reads) α

namespace Expr

/-- Reads a variable; a name that is none has the value zero. -/
def readVariable {α : Type} (A : Arithmetic α) (b : Bindings α) (name : String) : Evaluation α :=
  match Coordinate.ofName? name with
  | some c => do
    modify fun r => c.mark r
    return c.value b
  | none => return A.constant 0.0

/-- The value of an expression. A call of an unknown function has the value of its first argument,
unless `strict`. -/
def evaluate {α : Type} (A : Arithmetic α) (strict : Bool) (b : Bindings α) :
    Expr → Evaluation α
  | number v => return A.constant v
  | var name => readVariable A b name
  | binary l o r => do
    let left ← l.evaluate A strict b
    let right ← r.evaluate A strict b
    match A.operator? o left right with
    | some value => return value
    | none => throw (.unknownOperator o.symbol)
  | negate e => do
    let value ← e.evaluate A strict b
    return A.negated value
  | brackets e => e.evaluate A strict b
  | call name e => do
    let value ← e.evaluate A strict b
    match Function1.ofName? name with
    | some f => return A.call f value
    | none => if strict then throw (.unknownFunction name 1) else return value
  | call2 name l r _ => do
    let first ← l.evaluate A strict b
    let second ← r.evaluate A strict b
    match Function2.ofName? name with
    | some f => return A.call2 f first second
    | none => if strict then throw (.unknownFunction name 2) else return first
  | foreign => throw .foreign

end Expr
end Isotherm
