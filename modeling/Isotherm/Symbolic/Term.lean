import Isotherm.Function.Named
import Isotherm.Symbolic.Amount

/-!
# Symbolic terms

A sum is a chain of parts with coefficients that ends in a number, a product a chain of powers that
ends in the number one. In normal form both chains are ordered, no part and no base occurs twice,
no coefficient and no exponent is zero, a sum has more than one part or a coefficient other than
one, and a product more than one power or an exponent other than one. The order is the one in which
the parts and the factors are written down.
-/

namespace Isotherm

inductive UnaryHead where
  | plain (f : Function1)
  | sign
  /-- A function of which nothing is known but its name. -/
  | inert (name : String)
deriving DecidableEq, Repr

inductive BinaryHead where
  | plain (f : Function2)
  /-- The remainder that has the sign of the divisor. -/
  | modulo
  /-- A function of which nothing is known but its name. -/
  | inert (name : String)
deriving DecidableEq, Repr

def UnaryHead.name : UnaryHead → String
  | plain .abs => "Abs"
  | plain .ceil => "ceiling"
  | plain f => f.name.toLower
  | sign => "sign"
  | inert name => name

def BinaryHead.name : BinaryHead → String
  | plain .max => "Max"
  | plain .min => "Min"
  | plain .jn => "besselj"
  | plain .yn => "bessely"
  | plain f => f.name.toLower
  | modulo => "Mod"
  | inert name => name

/-- The place of a function in the order of all: those without rules first, then the exponential and
the logarithm, the circular and the hyperbolic functions, and the others. -/
def UnaryHead.place : UnaryHead → Nat
  | inert _ => 0
  | plain .exp => 1
  | plain .log => 2
  | plain .sin => 3
  | plain .cos => 4
  | plain .tan => 5
  | plain .sinh => 6
  | plain .cosh => 7
  | plain .tanh => 8
  | plain _ | sign => 9

/-- The place of a function in the order of all; the extrema come last. -/
def BinaryHead.place : BinaryHead → Nat
  | inert _ => 0
  | plain .max | plain .min => 10
  | plain _ | modulo => 9

inductive Term where
  | number (value : Amount)
  | symbol (name : String)
  /-- The base of the natural logarithm. -/
  | euler
  /-- The sum `coefficient · part + rest`. -/
  | add (coefficient : Amount) (part rest : Term)
  /-- The product `base ^ exponent · rest`. -/
  | multiply (base exponent rest : Term)
  | call (head : UnaryHead) (argument : Term)
  | call2 (head : BinaryHead) (first second : Term)
deriving DecidableEq, Repr

namespace Term

/-- The number zero. -/
def zero : Term := number (.exact 0)

/-- The number one. -/
def one : Term := number (.exact 1)

/-- Whether a number, or the first part of a sum, is negative. -/
def isNegative : Term → Bool
  | number a => a.isNegative
  | add k _ _ => k.isNegative
  | _ => false

def isSum : Term → Bool
  | add .. => true
  | _ => false

/-- Whether the term has a real value wherever its symbols do. -/
def isReal : Term → Bool
  | number (.finite ..) | symbol _ | euler => true
  | number _ => false
  | add _ part rest => part.isReal && rest.isReal
  | multiply euler exponent rest => exponent.isReal && rest.isReal
  | multiply base (number a) rest => a.integer?.isSome && base.isReal && rest.isReal
  | multiply .. => false
  | call (.plain .abs) _ => true
  | call (.plain .sin) a | call (.plain .cos) a | call .sign a => a.isReal
  | call .. | call2 .. => false

def symbols : Term → List String
  | number _ | euler => []
  | symbol name => [name]
  | add _ part rest => part.symbols ++ rest.symbols
  | multiply base exponent rest => base.symbols ++ exponent.symbols ++ rest.symbols
  | call _ a => a.symbols
  | call2 _ a b => a.symbols ++ b.symbols

def hasModulo : Term → Bool
  | number _ | symbol _ | euler => false
  | add _ part rest => part.hasModulo || rest.hasModulo
  | multiply base exponent rest => base.hasModulo || exponent.hasModulo || rest.hasModulo
  | call _ a => a.hasModulo
  | call2 h a b => h == .modulo || a.hasModulo || b.hasModulo

/-! ## Order -/

/-- The place of the kinds of terms in the order of factors; powers of the base of the logarithm count
as calls of the exponential. -/
def rank : Term → Nat
  | number _ => 0
  | symbol _ => 1
  | multiply .. => 2
  | add .. => 3
  | euler => 4 + UnaryHead.place (.plain .exp)
  | call h _ => 4 + h.place
  | call2 h _ _ => 4 + h.place

def headName : Term → String
  | call h _ => h.name
  | call2 h _ _ => h.name
  | _ => ""

/-- The order of factors: by kind, then by name, then by what they are made of. -/
def order : Term → Term → Ordering
  | number a, number b => a.order b
  | symbol a, symbol b => compare a b
  | add k p r, add k' p' r' => (p.order p').then ((k.order k').then (r.order r'))
  | multiply b e r, multiply b' e' r' => (b.order b').then ((e.order e').then (r.order r'))
  | call h a, call h' a' =>
    (compare h.place h'.place).then ((compare h.name h'.name).then (a.order a'))
  | call2 h a b, call2 h' a' b' =>
    (compare h.place h'.place).then
      ((compare h.name h'.name).then ((a.order a').then (b.order b')))
  | a, b => (compare a.rank b.rank).then (compare a.headName b.headName)

/-- The order of parts of a sum, which are chains of factors: the higher power of the first base in
which two of them differ comes first. -/
def productOrder : Term → Term → Ordering
  | multiply b e r, multiply b' e' r' =>
    match b.order b' with
    | .lt => if e.isNegative then .gt else .lt
    | .gt => if e'.isNegative then .lt else .gt
    | .eq => (e'.order e).then (r.productOrder r')
  | multiply _ e _, _ => if e.isNegative then .gt else .lt
  | _, multiply _ e _ => if e.isNegative then .lt else .gt
  | _, _ => .eq

/-! ## Chains -/

def toSum : Term → Term
  | number a => number a
  | add k p r => add k p r
  | t => add (.exact 1) t zero

def ofSum : Term → Term
  | add k p r => if k == .exact 1 && r == zero then p else add k p r
  | t => t

def toProduct : Term → Term
  | number a => number a
  | multiply b e r => multiply b e r
  | t => multiply t one one

def ofProduct : Term → Term
  | multiply b e r => if e == one && r == one then b else multiply b e r
  | t => t

def split : Term → Amount × Term
  | number a => (a, one)
  | add k p r => if r == zero then (k, p) else (.exact 1, add k p r)
  | t => (.exact 1, t)

end Term
end Isotherm
