import Isotherm.Function.Bessel
import Isotherm.Function.Elementary
import Isotherm.Function.ErrorFunction
import Isotherm.Number.Remainder

/-!
# Named functions

The functions that a formula can call, of one and of two arguments. Each has one display name, and
is found by that name in any case. A name belongs to at most one arity.
-/

namespace Isotherm

inductive Function1 where
  | abs | acos | acosh | asin | asinh | atan | atanh | cbrt | ceil | cos | cosh | erf | erfc
  | erfcinv | erfinv | exp | exp2 | expm1 | floor | gamma | ilogb | inf | j0 | j1 | log | log10
  | log1p | log2 | logb | pow10 | round | roundToEven | sin | sinh | sqrt | tan | tanh | trunc
  | y0 | y1
deriving DecidableEq, Repr

inductive Function2 where
  | atan2 | copysign | dim | hypot | jn | ldexp | max | min | mod | nextafter | pow | remainder
  | yn
deriving DecidableEq, Repr

/-- The characters whose upper case is written in unaccented Latin letters, apart from those letters
themselves. -/
def latinUpper : Char → List Char
  | 'ß' => ['S', 'S']
  | 'ı' => ['I']
  | 'ſ' => ['S']
  | 'ﬀ' => ['F', 'F']
  | 'ﬁ' => ['F', 'I']
  | 'ﬂ' => ['F', 'L']
  | 'ﬃ' => ['F', 'F', 'I']
  | 'ﬄ' => ['F', 'F', 'L']
  | 'ﬅ' | 'ﬆ' => ['S', 'T']
  | c => [c.toUpper]

/-- The form under which a name is looked up. Characters that have no part in any function's name
may stay as they are. -/
def caseKey (name : String) : List Char :=
  name.toList.flatMap latinUpper

namespace Function1

def name : Function1 → String
  | abs => "Abs"
  | acos => "Acos"
  | acosh => "Acosh"
  | asin => "Asin"
  | asinh => "Asinh"
  | atan => "Atan"
  | atanh => "Atanh"
  | cbrt => "Cbrt"
  | ceil => "Ceil"
  | cos => "Cos"
  | cosh => "Cosh"
  | erf => "Erf"
  | erfc => "Erfc"
  | erfcinv => "Erfcinv"
  | erfinv => "Erfinv"
  | exp => "Exp"
  | exp2 => "Exp2"
  | expm1 => "Expm1"
  | floor => "Floor"
  | gamma => "Gamma"
  | ilogb => "Ilogb"
  | inf => "Inf"
  | j0 => "J0"
  | j1 => "J1"
  | log => "Log"
  | log10 => "Log10"
  | log1p => "Log1p"
  | log2 => "Log2"
  | logb => "Logb"
  | pow10 => "Pow10"
  | round => "Round"
  | roundToEven => "RoundToEven"
  | sin => "Sin"
  | sinh => "Sinh"
  | sqrt => "Sqrt"
  | tan => "Tan"
  | tanh => "Tanh"
  | trunc => "Trunc"
  | y0 => "Y0"
  | y1 => "Y1"

def apply : Function1 → Float → Float
  | abs => Float.abs
  | acos => Float.acos
  | acosh => Float.acosh
  | asin => Float.asin
  | asinh => Float.asinh
  | atan => Float.atan
  | atanh => Float.atanh
  | cbrt => Float.cbrt
  | ceil => Integral.ceil
  | cos => Float.cos
  | cosh => Float.cosh
  | erf => ErrorFunction.erf
  | erfc => ErrorFunction.erfc
  | erfcinv => ErrorFunction.erfcinv
  | erfinv => ErrorFunction.erfinv
  | exp => Float.exp
  | exp2 => Float.exp2
  | expm1 => Elementary.expm1
  | floor => Integral.floor
  | gamma => Gamma.gamma
  | ilogb => Exponent.ilogb
  | inf => Exponent.signedInfinity
  | j0 => Bessel.j0
  | j1 => Bessel.j1
  | log => Float.log
  | log10 => Float.log10
  | log1p => Elementary.log1p
  | log2 => Float.log2
  | logb => Exponent.logb
  | pow10 => Elementary.pow10
  | round => Integral.roundAway
  | roundToEven => Integral.roundEven
  | sin => Float.sin
  | sinh => Float.sinh
  | sqrt => Float.sqrt
  | tan => Float.tan
  | tanh => Float.tanh
  | trunc => Integral.truncate
  | y0 => Bessel.y0
  | y1 => Bessel.y1

def all : List Function1 :=
  [abs, acos, acosh, asin, asinh, atan, atanh, cbrt, ceil, cos, cosh, erf, erfc, erfcinv,
   erfinv, exp, exp2, expm1, floor, gamma, ilogb, inf, j0, j1, log, log10, log1p, log2, logb,
   pow10, round, roundToEven, sin, sinh, sqrt, tan, tanh, trunc, y0, y1]

/-- The function that is called `spelling`, in any case. -/
def ofName? (spelling : String) : Option Function1 :=
  let key := caseKey spelling
  all.find? fun f => caseKey f.name == key

end Function1

namespace Function2

def name : Function2 → String
  | atan2 => "Atan2"
  | copysign => "Copysign"
  | dim => "Dim"
  | hypot => "Hypot"
  | jn => "Jn"
  | ldexp => "Ldexp"
  | max => "Max"
  | min => "Min"
  | mod => "Mod"
  | nextafter => "Nextafter"
  | pow => "Pow"
  | remainder => "Remainder"
  | yn => "Yn"

def apply : Function2 → Float → Float → Float
  | atan2 => Float.atan2
  | copysign => Exponent.copysign
  | dim => Exponent.positiveDifference
  | hypot => Elementary.hypot
  | jn => Bessel.jn
  | ldexp => Exponent.ldexp
  | max => Exponent.maximum
  | min => Exponent.minimum
  | mod => Remainder.truncated
  | nextafter => Exponent.nextafter
  | pow => Elementary.pow
  | remainder => Remainder.nearest
  | yn => Bessel.yn

def all : List Function2 :=
  [atan2, copysign, dim, hypot, jn, ldexp, max, min, mod, nextafter, pow, remainder, yn]

/-- The function that is called `spelling`, in any case. -/
def ofName? (spelling : String) : Option Function2 :=
  let key := caseKey spelling
  all.find? fun f => caseKey f.name == key

end Function2

namespace Function1

/-- The names of all functions, of one argument or two, in order. -/
def allNames : List String :=
  (all.map name ++ Function2.all.map Function2.name).mergeSort fun a b => decide (a ≤ b)

end Function1
end Isotherm
