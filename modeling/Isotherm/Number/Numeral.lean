import Isotherm.Number.Decimal
import Isotherm.Text.Blank
import Isotherm.Text.Digit

/-!
# Reading numbers

A numeral is a run of digits, perhaps a point and more digits, perhaps an exponent; it is read
greedily and any part that lacks its digits is left alone. `real?` and `integer?` read a whole text
as a number the way an option is given: blanks around it, a sign, underscores between digits.
-/

namespace Isotherm

structure Numeral where
  whole : List Char
  /-- The digits after the point; empty when there is no point. -/
  fraction : List Char
  /-- The exponent letter, its sign if written, its digits. -/
  exponent : Option (Char × Option Char × List Char)

namespace Numeral

open Text

/-- A point with digits behind it: the digits, and what follows. -/
def takeFraction : List Char → List Char × List Char
  | '.' :: cs =>
    if (cs.takeWhile isDigit).isEmpty then ([], '.' :: cs)
    else (cs.takeWhile isDigit, cs.dropWhile isDigit)
  | cs => ([], cs)

def takeSign : List Char → Option Char × List Char
  | '+' :: cs => (some '+', cs)
  | '-' :: cs => (some '-', cs)
  | cs => (none, cs)

/-- An exponent letter with digits behind it, and what follows. -/
def takeExponent : List Char → Option (Char × Option Char × List Char) × List Char
  | [] => (none, [])
  | c :: cs =>
    if c == 'e' || c == 'E' then
      let (sign, rest) := takeSign cs
      if (rest.takeWhile isDigit).isEmpty then (none, c :: cs)
      else (some (c, sign, rest.takeWhile isDigit), rest.dropWhile isDigit)
    else (none, c :: cs)

/-- The longest numeral at the front of `cs`, and what follows it. -/
def take (cs : List Char) : Numeral × List Char :=
  let (fraction, rest) := takeFraction (cs.dropWhile isDigit)
  let (exponent, rest) := takeExponent rest
  (⟨cs.takeWhile isDigit, fraction, exponent⟩, rest)

def chars (n : Numeral) : List Char :=
  n.whole ++ (if n.fraction.isEmpty then [] else '.' :: n.fraction)
    ++ (match n.exponent with
        | none => []
        | some (letter, sign, digits) => letter :: (sign.toList ++ digits))

def decimal (n : Numeral) : Decimal :=
  let shift : Int :=
    match n.exponent with
    | none => 0
    | some (_, some '-', digits) => -(natOfDigits digits : Int)
    | some (_, _, digits) => natOfDigits digits
  ⟨natOfDigits (n.whole ++ n.fraction), shift - n.fraction.length⟩

/-- `cs` without its underscores, if each of them stands between two digits. -/
def dropUnderscores? : List Char → Option (List Char)
  | [] => some []
  | '_' :: _ => none
  | c :: '_' :: d :: cs =>
    if isDigit c && isDigit d then (dropUnderscores? (d :: cs)).map (c :: ·) else none
  | c :: cs => (dropUnderscores? cs).map (c :: ·)

/-- A point with or without digits behind it: the digits, and what follows. -/
def takePoint : List Char → List Char × List Char
  | '.' :: cs => (cs.takeWhile isDigit, cs.dropWhile isDigit)
  | cs => ([], cs)

/-- The number of the digits, if `rest` is its exponent or nothing. -/
def ending? (whole fraction rest : List Char) : Option Decimal :=
  match takeExponent rest with
  | (exponent, []) => some (decimal ⟨whole, fraction, exponent⟩)
  | _ => none

/-- An unsigned number: a numeral, or one whose digits are all on one side of the point. -/
def unsigned? (cs : List Char) : Option Decimal :=
  let whole := cs.takeWhile isDigit
  let (fraction, rest) := takePoint (cs.dropWhile isDigit)
  if whole.isEmpty && fraction.isEmpty then none else ending? whole fraction rest

def real? (text : String) : Option Float :=
  let (sign, rest) := takeSign (trimBlanks text.toList)
  let negative := sign == some '-'
  let word := String.ofList (rest.map Char.toLower)
  if word == "inf" || word == "infinity" then some (if negative then -infinity else infinity)
  else if word == "nan" then some notANumber
  else (dropUnderscores? rest >>= unsigned?).map (Decimal.toFloat negative)

/-- The longest integer that is read. -/
def longestInteger : Nat := 4300

def integer? (text : String) : Option Int :=
  let (sign, rest) := takeSign (trimBlanks text.toList)
  match dropUnderscores? rest with
  | none => none
  | some digits =>
    if digits.isEmpty || !digits.all isDigit || longestInteger < digits.length then none
    else if sign == some '-' then some (-(natOfDigits digits : Int))
    else some (natOfDigits digits)

end Numeral
end Isotherm
