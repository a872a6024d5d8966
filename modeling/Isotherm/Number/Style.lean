import Isotherm.Number.Shortest

/-!
# Written numbers

How a double is written. A `Style` fixes where positional writing ends, whether an integer keeps its
`.0`, and the texts of the values that are no numbers; the digits are always the shortest that read
back. `fixedDigits` writes a given count of significant digits instead.
-/

namespace Isotherm

/-- The choices of a way to write doubles. Decimal exponents from `positionalFrom` up to
`positionalBelow` are written positionally. -/
structure Style where
  positionalFrom : Int
  positionalBelow : Int
  keepsPoint : Bool
  notANumber : String
  positiveInfinity : String
  negativeInfinity : String

namespace Style

/-- Numbers inside a formula: an integer has no point, six digits is the longest. -/
def formula : Style := ⟨-4, 6, false, "NaN", "+Inf", "-Inf"⟩

/-- Numbers reported on their own: an integer keeps its point, sixteen digits is the longest. -/
def report : Style := ⟨-4, 16, true, "nan", "inf", "-inf"⟩

/-- `digits` with the point after the digit of exponent `exponent`. -/
def positional (style : Style) (digits : List Char) (exponent : Int) : List Char :=
  if exponent < 0 then
    '0' :: '.' :: (List.replicate (-exponent - 1).toNat '0' ++ digits)
  else
    let whole := exponent.toNat + 1
    if digits.length ≤ whole then
      digits ++ List.replicate (whole - digits.length) '0'
        ++ (if style.keepsPoint then ['.', '0'] else [])
    else
      digits.take whole ++ '.' :: digits.drop whole

def exponentText (exponent : Int) : List Char :=
  let digits := Nat.toDigits 10 exponent.natAbs
  (if exponent < 0 then '-' else '+') :: (List.replicate (2 - digits.length) '0' ++ digits)

/-- `digits` with the point after the first and the exponent behind. -/
def scientific (digits : List Char) (exponent : Int) : List Char :=
  let mantissa :=
    match digits with
    | first :: second :: rest => first :: '.' :: second :: rest
    | short => short
  mantissa ++ 'e' :: exponentText exponent

def ofDecimal (style : Style) (d : Decimal) : List Char :=
  let digits := Nat.toDigits 10 d.significand
  let exponent := d.exponent + digits.length - 1
  if style.positionalFrom ≤ exponent && exponent < style.positionalBelow then
    style.positional digits exponent
  else scientific digits exponent

def magnitude (style : Style) (s : Scaled) : List Char :=
  if s.mantissa = 0 then '0' :: (if style.keepsPoint then ['.', '0'] else [])
  else style.ofDecimal (Shortest.digits s)

/-- The characters of the text of `x`. -/
def chars (style : Style) (x : Float) : List Char :=
  if x.isNaN then style.notANumber.toList
  else if x.isInf then
    (if signBit x then style.negativeInfinity else style.positiveInfinity).toList
  else
    (if signBit x then ['-'] else []) ++ style.magnitude (Scaled.ofFloat x)

/-- The text of `x`. -/
def text (style : Style) (x : Float) : String :=
  String.ofList (style.chars x)

/-- `x` with `count` significant digits and an exponent; either zero is `0`. -/
def fixedDigits (count : Nat) (x : Float) : String :=
  if x.isNaN || x.isInf then report.text x
  else
    let s := Scaled.ofFloat x
    if s.mantissa = 0 then "0"
    else
      let d := Shortest.rounded count s
      let digits := Nat.toDigits 10 d.significand
      String.ofList
        ((if s.negative then ['-'] else [])
          ++ scientific digits (d.exponent + digits.length - 1))

end Style
end Isotherm
