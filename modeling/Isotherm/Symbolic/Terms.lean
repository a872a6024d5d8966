import Isotherm.Symbolic.Engine
import Isotherm.Symbolic.Latex
import Isotherm.Symbolic.Value

/-!
# The algebra of terms in normal form

Terms in normal form as an algebra. A remainder by zero is refused, and so is an extremum of a number
that is not real, and a text with an integer that is too long.
-/

namespace Isotherm

namespace Term

def integer (n : Int) : Term := number (.exact n)

def squareRoot (a : Term) : Term :=
  power a (number (.exact (1 / 2)))

def cubeRoot (a : Term) : Term :=
  times a.signOf (power a.absolute (number (.exact (1 / 3))))

def logarithm (base : Int) (a : Term) : Term :=
  dividedBy (callOf .log a) (callOf .log (integer base))

/-- What a number that is not real is called. -/
def closedText (t : Term) (v : Value) : String :=
  match t with
  | multiply (number (.finite (-1) false)) (number (.finite e false)) (number (.finite 1 false)) =>
    if e = 1 / 2 then "I" else v.text
  | call h (number a) => h.name ++ "(" ++ (Value.amount a).text ++ ")"
  | _ => v.text

/-- Whether a term has a place in the order of the reals, as far as its value tells: one with symbols
has. -/
def comparable (t : Term) : Except Refusal Unit :=
  if !t.symbols.isEmpty then .ok ()
  else
    match t.value Value.unresolved with
    | .ok v => (Value.comparable v).mapError fun _ => notComparable (t.closedText v)
    | .error cause => .error cause

def extremum (f : Function2) (a b : Term) : Except Refusal Term := do
  a.comparable
  b.comparable
  return insertArguments f a b

/-- The operations on terms in normal form. -/
def algebra : Algebra Term where
  integer := integer
  float v := number (.ofResult v)
  symbol := symbol
  plus a b := .ok (plus a b)
  minus a b := .ok (minus a b)
  times a b := .ok (times a b)
  dividedBy a b := .ok (dividedBy a b)
  power a b := .ok (power a b)
  negated a := .ok a.negated
  signOf a := .ok a.signOf
  modulo := modulo
  squareRoot a := .ok a.squareRoot
  cubeRoot a := .ok a.cubeRoot
  logarithm base a := .ok (logarithm base a)
  call f a :=
    match f with
    | .abs => .ok a.absolute
    | .exp => .ok (power euler a)
    | f => .ok (callOf f a)
  call2 f a b :=
    match f with
    | .max | .min => extremum f a b
    | f => .ok (call2 (.plain f) a b)
  inert name a := .ok (call (.inert name) a)
  inert2 name a b := .ok (call2 (.inert name) a b)
  symbols := symbols
  latex := Latex.text?

end Term

/-- The value of the residual. All three variables are asked for, also those it does not contain. -/
def Equation.symbolicValue (e : Equation) (x y t : Amount) : Symbolic Value := do
  let residual ← e.residualTerm Term.algebra
  for name in ["x", "y", "t"] do
    discard (Engine.askSymbol name)
  .ofResult (residual.value (valuesOf x y t))

end Isotherm
