import Isotherm.Refusal
import Isotherm.Symbolic.Arithmetic

/-!
# Functions of terms

Calls in normal form. An odd function passes the sign of its argument on and an even one drops it,
a magnitude is taken of each factor, a remainder that is known is replaced by its value, and nested
extrema are flattened into one ordered chain.
-/

namespace Isotherm

inductive Parity where
  | even | odd | neither
deriving DecidableEq, Repr

def Function1.parity : Function1 → Parity
  | .abs | .cos | .cosh => .even
  | .asin | .asinh | .atan | .atanh | .erf | .erfinv | .sin | .sinh | .tan | .tanh => .odd
  | _ => .neither

namespace Term

def moduloByZero : Refusal := ⟨"ZeroDivisionError", "Modulo by zero"⟩

/-- An extremum of something that has no place in the order of the reals. -/
def notComparable (text : String) : Refusal :=
  ⟨"ValueError", "The argument '" ++ text ++ "' is not comparable."⟩

/-- The value of a function at an exact constant, where that is an exact number or infinite. -/
def knownValue? (f : Function1) (v : Rat) : Option Amount :=
  match f with
  | .ceil => some (.exact v.ceil)
  | .floor => some (.exact v.floor)
  | .log => if v = 0 then some .unsigned else if v = 1 then some (.exact 0) else none
  | .cos | .cosh | .erfc => if v = 0 then some (.exact 1) else none
  | .acos | .acosh => if v = 1 then some (.exact 0) else none
  | .erfcinv => if v = 1 then some (.exact 0) else none
  | .gamma => if v ≤ 0 && v.den = 1 then some .unsigned else none
  | f => if f.parity = .odd && v = 0 then some (.exact 0) else none

def knownLogarithm? : Term → Option Term
  | euler => some one
  | multiply euler e (number (.finite 1 false)) => if e.isReal then some e else none
  | _ => none

def plainCall (f : Function1) (a : Term) : Term :=
  match f.parity, a.isNegative with
  | .odd, true => (call (.plain f) a.negated).negated
  | .even, true => call (.plain f) a.negated
  | _, _ => call (.plain f) a

/-- A call of a function with a symbolic counterpart of one argument. -/
def callOf (f : Function1) (a : Term) : Term :=
  match a with
  | number (.finite v false) =>
    match knownValue? f v with
    | some value => number value
    | none => plainCall f a
  | number .undefined => a
  | a =>
    match f, knownLogarithm? a with
    | .log, some e => e
    | _, _ => plainCall f a

/-- The magnitude of a chain of factors, without the number at its end. -/
def magnitudeChain : Term → Term
  | multiply b (number e) r =>
    match e.integer? with
    | some n =>
      if n % 2 = 0 && b.isReal then times (power b (number e)) (magnitudeChain r)
      else times (power b.lifted (number e)) (magnitudeChain r)
    | none => times (multiply b (number e) one).lifted (magnitudeChain r)
  | multiply b e r => times (multiply b e one).lifted (magnitudeChain r)
  | _ => one

def absolute (a : Term) : Term :=
  let (k, p) := a.split
  match p with
  | number (.finite 1 false) => number k.magnitude
  | multiply b e r => scale k.magnitude (magnitudeChain (multiply b e r))
  | p => scale k.magnitude (if p.isNegative then p.negated else p).lifted

def signOf (a : Term) : Term :=
  let (k, p) := a.split
  match p with
  | number (.finite 1 false) => number k.sign
  | p =>
    if p.isNegative then scale k.negated.sign (call .sign p.negated)
    else scale k.sign (call .sign p)

/-- The remainder of `p` by `q` that has the sign of `q`. -/
def modulo (p q : Term) : Except Refusal Term :=
  if q = zero then .error moduloByZero
  else if p = zero || p = q || p = q.negated then .ok zero
  else
    match p, q with
    | number a, number b => .ok (number (a.modulo b))
    | p, q =>
      match dividedBy p q with
      | number a => .ok (if a.integer?.isSome then zero else call2 .modulo p q)
      | _ => .ok (call2 .modulo p q)

def extremeNumber (f : Function2) (a b : Amount) : Amount :=
  let below := a.order b != .gt
  if (f == .max) == below then b else a

/-- Puts an argument into the ordered chain of arguments of an extremum. -/
def insertArgument (f : Function2) (a : Term) : Term → Term
  | call2 (.plain g) b rest =>
    if f = g then
      if a = b then call2 (.plain f) b rest
      else
        match a, b with
        | number m, number n => call2 (.plain f) (number (extremeNumber f m n)) rest
        | a, b =>
          if order a b == .gt then call2 (.plain f) b (insertArgument f a rest)
          else call2 (.plain f) a (call2 (.plain f) b rest)
    else pair a (call2 (.plain g) b rest)
  | b => pair a b
where
  /-- The extremum of two arguments. -/
  pair (a b : Term) : Term :=
    if a = b then a
    else
      match a, b with
      | number m, number n => number (extremeNumber f m n)
      | a, b => if order a b == .gt then call2 (.plain f) b a else call2 (.plain f) a b

def insertArguments (f : Function2) : Term → Term → Term
  | call2 (.plain g) a rest, chain =>
    if f = g then insertArguments f rest (insertArgument f a chain)
    else insertArgument f (call2 (.plain g) a rest) chain
  | a, chain => insertArgument f a chain

end Term
end Isotherm
