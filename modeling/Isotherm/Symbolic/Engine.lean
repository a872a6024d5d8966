import Isotherm.Formula.Expr
import Isotherm.Number.Integral
import Isotherm.Symbolic.Algebra

/-!
# Equations as terms

The residual of an equation, right side minus left side, as a term of an algebra. An engine keeps the
names of the symbols and of the functions without rules that were asked for.

Operands have the order they have in evaluation. Names of symbols are kept in lower case, names of
functions as they are spelled, so two spellings of one function are different functions here.
-/

namespace Isotherm

inductive SymbolicError where
  /-- A side of the equation is missing. -/
  | unbound
  | foreign
  | unknownOperator (symbol : String)
  /-- The algebra refuses an operation. -/
  | refused (cause : Refusal)
deriving DecidableEq, Repr

def SymbolicError.message : SymbolicError → String
  | unbound => "no such formula"
  | foreign => "Cannot convert Foreign to SymPy"
  | unknownOperator symbol => "Unknown operator: " ++ symbol
  | refused cause => cause.message

/-- The names asked for so far, each kind in order and without repetition. -/
structure Engine where
  symbols : List String
  functions : List String
deriving DecidableEq, Repr

abbrev Symbolic (α : Type) := ExceptT SymbolicError (StateM Engine) α

/-- The result of an operation, which asks for no name. -/
def Symbolic.ofResult {α : Type} (result : Except Refusal α) : Symbolic α :=
  match result with
  | .ok a => return a
  | .error cause => throw (.refused cause)

def insertName (name : String) : List String → List String
  | [] => [name]
  | other :: rest =>
    if name = other then other :: rest
    else if name < other then name :: other :: rest
    else other :: insertName name rest

namespace Engine

/-- No name was asked for yet. -/
def empty : Engine := ⟨[], []⟩

def symbolName (name : String) : String := name.toLower

def askSymbol (name : String) : StateM Engine String := do
  modify fun e => { e with symbols := insertName (symbolName name) e.symbols }
  return symbolName name

def askFunction (name : String) : StateM Engine String := do
  modify fun e => { e with functions := insertName name e.functions }
  return name

end Engine

/-! ## Nodes as operations -/

namespace Algebra

variable {τ : Type} (A : Algebra τ)

/-- A number that is written in a formula: integers are exact. -/
def literal (v : Float) : τ :=
  if v.isFinite && Integral.truncate v == v then A.integer (Integral.value v) else A.float v

/-- A function of one argument in the terms of the algebra, if it has a counterpart there. -/
def function1? (f : Function1) (a : τ) : Option (Except Refusal τ) :=
  match f with
  | .cbrt => some (A.cubeRoot a)
  | .exp2 => some (A.power (A.integer 2) a)
  | .expm1 => some do A.minus (← A.call .exp a) (A.integer 1)
  | .log1p => some do A.call .log (← A.plus (A.integer 1) a)
  | .log10 => some (A.logarithm 10 a)
  | .log2 => some (A.logarithm 2 a)
  | .sqrt => some (A.squareRoot a)
  | .j0 => some (A.call2 .jn (A.integer 0) a)
  | .j1 => some (A.call2 .jn (A.integer 1) a)
  | .y0 => some (A.call2 .yn (A.integer 0) a)
  | .y1 => some (A.call2 .yn (A.integer 1) a)
  | .ilogb | .inf | .logb | .pow10 | .round | .roundToEven | .trunc => none
  | f => some (A.call f a)

/-- A function of two arguments in the terms of the algebra, if it has a counterpart there. -/
def function2? (f : Function2) (a b : τ) : Option (Except Refusal τ) :=
  match f with
  | .hypot => some do
    A.squareRoot (← A.plus (← A.power a (A.integer 2)) (← A.power b (A.integer 2)))
  | .pow => some (A.power a b)
  | .atan2 | .jn | .max | .min | .yn => some (A.call2 f a b)
  | _ => none

/-- The remainder that has the sign of the dividend, made of the one for magnitudes. -/
def remainder (l r : τ) : Except Refusal τ := do
  let sign ← A.signOf l
  let modulo ← A.modulo (← A.call .abs l) (← A.call .abs r)
  A.times sign modulo

/-- An operator of the grammar applied to its left and right operand; none for any other. -/
def operator? (o : Operator) (l r : τ) : Option (Except Refusal τ) :=
  match o with
  | .add => some (A.plus r l)
  | .subtract => some (A.minus r l)
  | .multiply => some (A.times r l)
  | .divide => some (A.dividedBy r l)
  | .power => some (A.power l r)
  | .remainder => some (A.remainder l r)
  | .unknown _ => none

end Algebra

/-! ## Trees as terms -/

section

variable {τ : Type} (A : Algebra τ)

namespace Expr

/-- The term of an expression. A call of an unknown function is its first argument. -/
def toTerm : Expr → Symbolic τ
  | number v => return A.literal v
  | var name => do return A.symbol (← Engine.askSymbol name)
  | binary l o r => do
    let left ← l.toTerm
    let right ← r.toTerm
    match A.operator? o left right with
    | some result => .ofResult result
    | none => throw (.unknownOperator o.symbol)
  | negate e => do .ofResult (A.negated (← e.toTerm))
  | brackets e => e.toTerm
  | call name e => do
    let a ← e.toTerm
    match Function1.ofName? name with
    | some f =>
      match A.function1? f a with
      | some result => .ofResult result
      | none => .ofResult (A.inert (← Engine.askFunction name) a)
    | none => return a
  | call2 name l r _ => do
    let a ← l.toTerm
    let b ← r.toTerm
    match Function2.ofName? name with
    | some f =>
      match A.function2? f a b with
      | some result => .ofResult result
      | none => .ofResult (A.inert2 (← Engine.askFunction name) a b)
    | none => return a
  | foreign => throw .foreign

end Expr

namespace Equation

/-- The right side minus the left side; the right side is visited first. -/
def residualTerm (e : Equation) : Symbolic τ :=
  match e.sides? with
  | none => throw .unbound
  | some (lhs, rhs) => do
    let right ← rhs.toTerm A
    let left ← lhs.toTerm A
    .ofResult (A.minus right left)

/-- The names of the variables on which the residual depends, in upper case and in order. -/
def freeVariables (e : Equation) : Symbolic (List String) := do
  let residual ← e.residualTerm A
  return (A.symbols residual).foldl
    (fun names s => insertName (String.ofList (caseKey s)) names) []

/-- The equation `residual = 0` in LaTeX. -/
def latex (e : Equation) : Symbolic String := do
  let residual ← e.residualTerm A
  return (← .ofResult (A.latex residual)) ++ " = 0"

end Equation

end
end Isotherm
