/-!
# Expressions and equations

The tree of a formula in the variables X, Y and T. Brackets that were written are nodes of their
own. A tree may hold `foreign` nodes, which no operation understands, and operators outside the six
of the grammar; both can be built and carried about, and fail only where they are used.
-/

namespace Isotherm

/-- What joins the two operands of a chain. `unknown` is any symbol outside the grammar. -/
inductive Operator where
  | add | subtract | multiply | divide | power | remainder
  | unknown (symbol : String)
deriving DecidableEq, Repr

namespace Operator

def symbol : Operator → String
  | add => "+"
  | subtract => "-"
  | multiply => "*"
  | divide => "/"
  | power => "^"
  | remainder => "%"
  | unknown symbol => symbol

/-- The operator that is written `symbol`. -/
def ofSymbol : String → Operator
  | "+" => add
  | "-" => subtract
  | "*" => multiply
  | "/" => divide
  | "^" => power
  | "%" => remainder
  | symbol => unknown symbol

def known : List Operator := [add, subtract, multiply, divide, power, remainder]

end Operator

/-- One side of an equation. Names keep the spelling they were written with. -/
inductive Expr where
  | number (value : Float)
  | var (name : String)
  | binary (left : Expr) (operator : Operator) (right : Expr)
  | negate (operand : Expr)
  | brackets (inner : Expr)
  | call (name : String) (argument : Expr)
  /-- A function of two arguments, written between them if `infixed`. -/
  | call2 (name : String) (first second : Expr) (infixed : Bool)
  /-- A node that belongs to no formula. -/
  | foreign
deriving Repr

namespace Expr

/-- The height of the tree; leaves count as one. -/
def depth : Expr → Nat
  | number _ | var _ | foreign => 1
  | negate e | brackets e | call _ e => e.depth + 1
  | binary l _ r | call2 _ l r _ => max l.depth r.depth + 1

/-- Whether the text of the tree is a chain of operands without brackets of its own. -/
def isCompound : Expr → Bool
  | binary .. => true
  | call2 _ _ _ infixed => infixed
  | _ => false

def hasForeign : Expr → Bool
  | number _ | var _ => false
  | foreign => true
  | negate e | brackets e | call _ e => e.hasForeign
  | binary l _ r | call2 _ l r _ => l.hasForeign || r.hasForeign

/-- Whether two trees have one shape, one spelling of all names, and numbers that `agree`. -/
def matching (agree : Float → Float → Bool) : Expr → Expr → Bool
  | number a, number b => agree a b
  | var a, var b => a == b
  | binary l o r, binary l' o' r' => l.matching agree l' && o == o' && r.matching agree r'
  | negate e, negate e' | brackets e, brackets e' => e.matching agree e'
  | call n e, call n' e' => n == n' && e.matching agree e'
  | call2 n l r i, call2 n' l' r' i' =>
    n == n' && l.matching agree l' && r.matching agree r' && i == i'
  | foreign, foreign => true
  | _, _ => false

/-- Equality of trees, with numbers compared by value: zeros are equal, a NaN equals nothing. -/
def equal : Expr → Expr → Bool :=
  matching (· == ·)

/-- Equality of a tree with one built from it: a NaN that was kept is equal to itself. -/
def unchanged : Expr → Expr → Bool :=
  matching fun a b => a == b || (a.isNaN && b.isNaN)

end Expr

/-- `lhs = rhs`. A side may be missing, and then the equation can only be carried about. -/
structure Equation where
  lhs : Option Expr
  rhs : Option Expr
deriving Repr

namespace Equation

def ofSides (lhs rhs : Expr) : Equation := ⟨some lhs, some rhs⟩

def sides? (e : Equation) : Option (Expr × Expr) :=
  match e.lhs, e.rhs with
  | some lhs, some rhs => some (lhs, rhs)
  | _, _ => none

def isBound (e : Equation) : Bool :=
  e.sides?.isSome

/-- Whether each side of one equation relates to that of the other; missing sides match. -/
def matching (agree : Expr → Expr → Bool) (a b : Equation) : Bool :=
  let side : Option Expr → Option Expr → Bool
    | none, none => true
    | some l, some r => agree l r
    | _, _ => false
  side a.lhs b.lhs && side a.rhs b.rhs

def equal : Equation → Equation → Bool :=
  matching Expr.equal

def unchanged : Equation → Equation → Bool :=
  matching Expr.unchanged

end Equation
end Isotherm
