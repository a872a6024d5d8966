import Isotherm.Number.Numeral
import Isotherm.Number.Style
import Isotherm.Symbolic.Function

/-!
# Terms in LaTeX

The parts of a sum and the factors of a product are written in the order in which they are kept. A
constant comes after the positive powers and before the negative ones, and first of all before a
single negative factor, as in `1 - x`. Negative powers go below a fraction line, a factor that is a
sum is bracketed unless it stands alone, and so is everything with a remainder.
-/

namespace Isotherm.Latex

def group (s : String) : String := "\x7b" ++ s ++ "\x7d"

def fraction (above below : String) : String := "\\frac" ++ group above ++ group below

def bracketed (s : String) : String := "\\left(" ++ s ++ "\\right)"

def raised (s exponent : String) : String := s ++ "^" ++ group exponent

/-! ## Numbers -/

/-- Significant digits of a rounded number. -/
def roundedDigits : Nat := 15

/-- Rounded numbers keep their point and are positional up to the fifteenth digit. -/
def roundedStyle : Style := ⟨-4, 15, true, "nan", "inf", "-inf"⟩

def roundedText (v : Rat) : String :=
  let d := (Shortest.rounded roundedDigits (Scaled.ofFloat (Amount.nearestFloat v))).trim
  let digits := Nat.toDigits 10 d.significand
  let exponent := d.exponent + digits.length - 1
  if roundedStyle.positionalFrom ≤ exponent && exponent < roundedStyle.positionalBelow then
    String.ofList (roundedStyle.positional digits exponent)
  else
    String.ofList (roundedStyle.positional digits.head?.toList 0).dropLast
      ++ (if digits.length = 1 then "0" else String.ofList digits.tail)
      ++ " \\cdot 10^" ++ group (toString exponent)

def magnitudeText : Amount → String
  | .finite v false =>
    if v.den = 1 then toString v.num.natAbs
    else fraction (toString v.num.natAbs) (toString v.den)
  | .finite v true => roundedText v.abs
  | .infinite _ => "\\infty"
  | .unsigned => "\\tilde" ++ group "\\infty"
  | .undefined => "\\text" ++ group "NaN"

/-- A number. A minus is set off from a fraction. -/
def numberText (a : Amount) : String :=
  let minus :=
    match a with
    | .finite v false => if v.den = 1 then "-" else "- "
    | _ => "-"
  if a.isNegative then minus ++ magnitudeText a else magnitudeText a

/-! ## Products -/

/-- A factor, and whether it has to be bracketed among others: a sum, or what has a remainder. -/
structure Factor where
  text : String
  isLoose : Bool

/-- Whether a text ends in a digit, blanks and closing braces aside. -/
def endsInDigit (s : String) : Bool :=
  match s.toList.reverse.dropWhile fun c => c == '\x7d' || c == ' ' with
  | c :: _ => c.isDigit
  | [] => false

def startsWithDigit (s : String) : Bool :=
  match s.toList with
  | c :: _ => c.isDigit
  | [] => false

def juxtaposed : List String → String
  | [] => ""
  | [s] => s
  | s :: t :: rest =>
    s ++ (if endsInDigit s && startsWithDigit t then " \\cdot " else " ")
      ++ juxtaposed (t :: rest)

def product : List Factor → String
  | [] => "1"
  | [f] => f.text
  | factors => juxtaposed (factors.map fun f => if f.isLoose then bracketed f.text else f.text)

def numberFactor (n : Nat) : List Factor :=
  if n = 1 then [] else [⟨toString n, false⟩]

/-- The magnitude of `k` times the quotient of two products. -/
def quotient (k : Amount) (above below : List Factor) : String :=
  let (above, below) :=
    match k with
    | .finite v false => (numberFactor v.num.natAbs ++ above, numberFactor v.den ++ below)
    | k => (⟨magnitudeText k, false⟩ :: above, below)
  if below.isEmpty then product above else fraction (product above) (product below)

/-! ## Sums -/

structure Part where
  isNegative : Bool
  /-- The text without the sign. -/
  text : String
  /-- The text with the sign, at the start of a sum. -/
  opening : String
  /-- Whether the part is a single factor. -/
  isSingle : Bool
  /-- Whether the part comes after a constant. -/
  isTrailing : Bool
  /-- Whether the part has to be bracketed among others. -/
  isLoose : Bool

def Part.continued (p : Part) : String :=
  (if p.isNegative then " - " else " + ") ++ p.text

def Part.constant (a : Amount) : Part :=
  ⟨a.isNegative, magnitudeText a, numberText a, true, false, false⟩

def Part.product (isNegative : Bool) (text : String) (isSingle isTrailing isLoose : Bool) : Part :=
  ⟨isNegative, text, (if isNegative then "- " else "") ++ text, isSingle, isTrailing, isLoose⟩

def Part.guarded (p : Part) : Part :=
  if p.isLoose then .product p.isNegative (bracketed p.text) p.isSingle p.isTrailing false else p

def sum : List Part → String
  | [] => "0"
  | [p] => p.opening
  | p :: rest =>
    p.guarded.opening ++ String.join (rest.map fun part => part.guarded.continued)

def withConstant (parts : List Part) (constant : Amount) : List Part :=
  if constant.isZero then parts
  else
    let part := Part.constant constant
    match parts with
    | [p] =>
      if p.isTrailing || (p.isNegative && p.isSingle && !part.isNegative) then [part, p]
      else [p, part]
    | parts =>
      parts.takeWhile (fun p => !p.isTrailing) ++ part :: parts.dropWhile fun p => !p.isTrailing

/-! ## Terms -/

structure Rendering where
  /-- On its own. -/
  whole : String
  /-- As a sum. -/
  parts : List Part
  constant : Amount
  /-- As the base of a power, up to where the exponent goes. -/
  base : String
  /-- What follows the exponent. -/
  arguments : String
  /-- As a product: the factors above and below the fraction line. -/
  above : List Factor
  below : List Factor

def alone (text : String) : List Part := [.product false text true false false]

def Rendering.factor (text : String) : Rendering :=
  ⟨text, alone text, .exact 0, text, "", [⟨text, false⟩], []⟩

/-- The rendering of a call: an exponent goes between the name and the arguments. -/
def Rendering.ofCall (name arguments : String) : Rendering :=
  let text := name ++ arguments
  ⟨text, alone text, .exact 0, name, arguments, [⟨text, false⟩], []⟩

def powerText (b : Rendering) (exponent : String) : Factor :=
  ⟨raised b.base exponent ++ b.arguments, false⟩

/-- A power with a positive rational exponent; a root if that is the inverse of an integer. -/
def rationalPower (b : Rendering) (isLoose : Bool) (e : Rat) : Factor :=
  if e = 1 then ⟨b.whole, isLoose⟩
  else if e.num = 1 then
    let degree := if e.den = 2 then "" else "[" ++ toString e.den ++ "]"
    ⟨"\\sqrt" ++ degree ++ group b.whole, false⟩
  else powerText b (magnitudeText (.exact e))

/-- The name of a function of the library in the usual notation. -/
def operator (name : String) : String := "\\operatorname" ++ group name

def arguments (s : String) : String := group ("\\left(" ++ s ++ " \\right)")

def unaryCall (h : UnaryHead) (a : String) : Rendering :=
  match h with
  | .plain .abs => .factor ("\\left|" ++ group a ++ "\\right|")
  | .plain .floor => .factor ("\\left\\lfloor" ++ group a ++ "\\right\\rfloor")
  | .plain .ceil => .factor ("\\left\\lceil" ++ group a ++ "\\right\\rceil")
  | .plain .gamma => .ofCall "\\Gamma" (bracketed a)
  | .plain .erfinv => .ofCall (operator "erf" ++ "^" ++ group "-1") (arguments a)
  | .plain .erfcinv => .ofCall (operator "erfc" ++ "^" ++ group "-1") (arguments a)
  | .plain f =>
    let name := f.name.toLower
    if f ∈ [.sin, .cos, .tan, .sinh, .cosh, .tanh, .log] then
      .ofCall ("\\" ++ name) (arguments a)
    else .ofCall (operator name) (arguments a)
  | .sign => .ofCall (operator "sign") (arguments a)
  | .inert name => .ofCall (operator name) (arguments a)

def remainder (a b : String) : Rendering :=
  let text := a ++ " \\bmod " ++ b
  { Rendering.factor text with base := bracketed text }

def binaryCall (h : BinaryHead) (a b : String) : Rendering :=
  match h with
  | .plain .max => .ofCall "\\max" (bracketed (a ++ ", " ++ b))
  | .plain .min => .ofCall "\\min" (bracketed (a ++ ", " ++ b))
  | .plain .jn => .ofCall ("J_" ++ group a) (bracketed b)
  | .plain .yn => .ofCall ("Y_" ++ group a) (bracketed b)
  | .plain .atan2 => .ofCall (operator "atan_\x7b2\x7d") (arguments (a ++ "," ++ b))
  | .plain f => .ofCall (operator f.name.toLower) (arguments (a ++ "," ++ b))
  | .modulo => remainder a b
  | .inert name => .ofCall (operator name) (arguments (a ++ "," ++ b))

/-- The text of a term beside an operator that binds like a product. -/
def operand (t : Term) (text : String) : String :=
  if t.isSum && t.split.2.isSum || t.isNegative then bracketed text else text

/-- Whether a term is one factor, as opposed to a product of several. -/
def isSingle : Term → Bool
  | .multiply _ _ rest => rest == .one
  | _ => true

def render : Term → Rendering
  | .number a =>
    let text := numberText a
    let isPlain := text.all Char.isDigit
    ⟨text, [], a, if isPlain then text else bracketed text, "", [], []⟩
  | .symbol name => .factor name
  | .euler => .factor "e"
  | .add k p rest =>
    let part := render p
    let others := render rest
    let text := quotient k part.above part.below
    let isTrailing := p.toProduct.productOrder .one == .gt
    let parts :=
      .product k.isNegative text (isSingle p) isTrailing p.hasModulo :: others.parts
    let whole := sum (withConstant parts others.constant)
    ⟨whole, parts, others.constant, bracketed whole, "", [⟨whole, true⟩], []⟩
  | .multiply b e rest =>
    let base := render b
    let others := render rest
    let isLoose := b.hasModulo || b.isSum
    let (up, down) :=
      match e with
      | .number (.finite v false) =>
        if v < 0 then ([], [rationalPower base isLoose (-v)])
        else ([rationalPower base isLoose v], [])
      | e => ([powerText base (render e).whole], [])
    let above := up ++ others.above
    let below := down ++ others.below
    let whole := quotient (.exact 1) above below
    ⟨whole, alone whole, .exact 0, bracketed whole, "", above, below⟩
  | .call h a => unaryCall h (render a).whole
  | .call2 .modulo a b => remainder (operand a (render a).whole) (operand b (render b).whole)
  | .call2 h a b => binaryCall h (render a).whole (render b).whole

/-! ## Integers that are too long -/

/-- An integer has more digits than are written. -/
def tooManyDigits : Refusal :=
  ⟨"ValueError", "Exceeds the limit (" ++ toString Numeral.longestInteger ++ " digits) for integer "
    ++ "string conversion; use sys.set_int_max_str_digits() to increase the limit"⟩

def hasLongInteger : Term → Bool
  | .number a => isLong a
  | .symbol _ | .euler => false
  | .add k p rest => isLong k || hasLongInteger p || hasLongInteger rest
  | .multiply b e rest => hasLongInteger b || hasLongInteger e || hasLongInteger rest
  | .call _ a => hasLongInteger a
  | .call2 _ a b => hasLongInteger a || hasLongInteger b
where
  /-- Whether an exact number has a long numerator or denominator. -/
  isLong : Amount → Bool
    | .finite v false => hasManyDigits v.num.natAbs || hasManyDigits v.den
    | _ => false
  hasManyDigits (n : Nat) : Bool :=
    Numeral.longestInteger < (Nat.toDigits 10 n).length

/-- A term in LaTeX, unless an integer in it is too long. -/
def text? (t : Term) : Except Refusal String :=
  if hasLongInteger t then .error tooManyDigits else .ok (render t).whole

end Latex
end Isotherm
