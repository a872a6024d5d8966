import Isotherm.Symbolic.Term

/-!
# Arithmetic of terms

Sums, products and powers of terms in normal form. Like parts of a sum are added up, powers of one
base in a product are joined, and a number that multiplies a sum multiplies each of its parts; other
products are not expanded. Each operation has the value that its name says, wherever the value of
its operands is defined.
-/

namespace Isotherm.Term

/-! ## Sums -/

def addNumber (a : Amount) : Term → Term
  | number b => number (b.plus a)
  | add k p r => add k p (addNumber a r)
  | t => add (.exact 1) t (number a)

/-- Adds `k · p` to a chain of parts. -/
def addPart (k : Amount) (p : Term) : Term → Term
  | number a => if k.isZero then number a else add k p (number a)
  | add k' p' r =>
    if p = p' then
      let sum := k'.plus k
      if sum.isZero then r else add sum p r
    else
      match productOrder p.toProduct p'.toProduct with
      | .gt => add k' p' (addPart k p r)
      | _ => add k p (add k' p' r)
  | t => add k p (add (.exact 1) t zero)

def addChain : Term → Term → Term
  | number a, sum => addNumber a sum
  | add k p r, sum => addChain r (addPart k p sum)
  | t, sum => addPart (.exact 1) t sum

def plus (a b : Term) : Term :=
  ofSum (addChain b.toSum a.toSum)

def scaleChain (k : Amount) : Term → Term
  | number a => number (k.times a)
  | add k' p r => add (k.times k') p (scaleChain k r)
  | t => add k t zero

def scale (k : Amount) (t : Term) : Term :=
  if k == .exact 1 then t
  else if k.isZero then zero
  else ofSum (scaleChain k t.toSum)

def negated (t : Term) : Term :=
  scale (.exact (-1)) t

/-! ## Products -/

/-- Puts `b ^ e` before a chain of factors; a power that is a number goes to its end. -/
def joinFactor (b e : Term) (chain : Term) : Term :=
  if e = zero then chain
  else
    match b, e with
    | number v, number w =>
      match v.power? w with
      | some a => endWith a chain
      | none => multiply b e chain
    | _, _ => multiply b e chain
where
  /-- Multiplies the number at the end of a chain of factors. -/
  endWith (a : Amount) : Term → Term
    | number c => number (c.times a)
    | multiply b e r => multiply b e (endWith a r)
    | t => multiply t one (number a)

/-- Multiplies a chain of factors by `b ^ e`. -/
def multiplyFactor (b e : Term) : Term → Term
  | multiply b' e' r =>
    if b = b' then joinFactor b (plus e' e) r
    else
      match order b b' with
      | .gt => multiply b' e' (multiplyFactor b e r)
      | _ => multiply b e (multiply b' e' r)
  | t => multiply b e t

def multiplyChain : Term → Term → Term
  | number a, product => joinFactor.endWith a product
  | multiply b e r, product => multiplyChain r (multiplyFactor b e product)
  | t, product => multiplyFactor t one product

def takeNumber : Term → Amount × Term
  | number a => (a, one)
  | multiply b e r => let (a, r) := takeNumber r; (a, multiply b e r)
  | t => (.exact 1, t)

def times (a b : Term) : Term :=
  let (j, p) := a.split
  let (k, q) := b.split
  let (c, product) := takeNumber (multiplyChain q.toProduct p.toProduct)
  scale ((j.times k).times c) (ofProduct product)

/-! ## Powers -/

def raiseChain (n : Amount) : Term → Term
  | multiply b e r => joinFactor b (times e (number n)) (raiseChain n r)
  | number a => number ((a.power? n).getD .undefined)
  | t => multiply t (number n) one

/-- The power `b ^ e` on its own. -/
def lonePower (b e : Term) : Term :=
  let (a, product) := takeNumber (joinFactor b e one)
  scale a (ofProduct product)

def lifted : Term → Term
  | call (.plain .abs) a => call (.plain .abs) a
  | t => call (.plain .abs) t

def isEven (n : Amount) : Bool :=
  n.integer?.any (· % 2 = 0)

/-- The power of one factor to an integer. Even powers need no magnitude. -/
def factorPower (b : Term) (n : Amount) : Term :=
  match b with
  | call (.plain .abs) a =>
    lonePower (if isEven n && a.isReal then a else b) (number n)
  | b => lonePower b (number n)

def integerPower (b : Term) (n : Amount) : Term :=
  let (k, p) := b.split
  match k.power? n, p with
  | some a, multiply c e r =>
    let (a', product) := takeNumber (raiseChain n (multiply c e r))
    scale (a.times a') (ofProduct product)
  | some a, p => scale a (factorPower p n)
  | none, _ => lonePower b (number n)

/-- The power to what is no integer. An even power of something real is one of its magnitude, a
power of the base of the logarithm to a real exponent multiplies exponents, and that base to a
logarithm gives its argument. -/
def otherPower (b e : Term) : Term :=
  match b, e with
  | euler, call (.plain .log) a => a
  | multiply euler inner (number (.finite 1 false)), e =>
    if inner.isReal then lonePower euler (times inner e) else lonePower b e
  | multiply c (number n) (number (.finite 1 false)), e =>
    if isEven n && c.isReal then lonePower c.lifted (times (number n) e) else lonePower b e
  | b, e => lonePower b e

def power (b e : Term) : Term :=
  if e = zero || b = one then one
  else if e = one then b
  else
    match e with
    | number n => if n.integer?.isSome then integerPower b n else otherPower b e
    | e => otherPower b e

def dividedBy (a b : Term) : Term :=
  times a (power b (number (.exact (-1))))

def minus (a b : Term) : Term :=
  plus a b.negated

end Isotherm.Term
