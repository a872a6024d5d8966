/-!
# Complex doubles

Arithmetic and elementary functions of complex numbers with doubles as parts. All functions take
their principal values.
-/

namespace Isotherm

structure ComplexFloat where
  re : Float
  im : Float
deriving Repr

namespace ComplexFloat

def ofReal (x : Float) : ComplexFloat := ⟨x, 0.0⟩

/-- The number one. -/
def one : ComplexFloat := ⟨1.0, 0.0⟩

def add (a b : ComplexFloat) : ComplexFloat := ⟨a.re + b.re, a.im + b.im⟩

def sub (a b : ComplexFloat) : ComplexFloat := ⟨a.re - b.re, a.im - b.im⟩

def mul (a b : ComplexFloat) : ComplexFloat :=
  ⟨a.re * b.re - a.im * b.im, a.re * b.im + a.im * b.re⟩

def scale (k : Float) (a : ComplexFloat) : ComplexFloat := ⟨k * a.re, k * a.im⟩

def div (a b : ComplexFloat) : ComplexFloat :=
  let norm := b.re * b.re + b.im * b.im
  ⟨(a.re * b.re + a.im * b.im) / norm, (a.im * b.re - a.re * b.im) / norm⟩

def turned (a : ComplexFloat) : ComplexFloat := ⟨-a.im, a.re⟩

def magnitude (a : ComplexFloat) : Float := (a.re * a.re + a.im * a.im).sqrt

def exp (a : ComplexFloat) : ComplexFloat :=
  ⟨a.re.exp * a.im.cos, a.re.exp * a.im.sin⟩

def log (a : ComplexFloat) : ComplexFloat :=
  ⟨a.magnitude.log, Float.atan2 a.im a.re⟩

def sqrt (a : ComplexFloat) : ComplexFloat :=
  if a.im == 0.0 then
    if a.re < 0.0 then ⟨0.0, (-a.re).sqrt⟩ else ⟨a.re.sqrt, 0.0⟩
  else
    let m := a.magnitude
    let im := ((m - a.re) / 2.0).sqrt
    ⟨((m + a.re) / 2.0).sqrt, if a.im < 0.0 then -im else im⟩

def natPower (a : ComplexFloat) : Nat → ComplexFloat
  | 0 => one
  | n + 1 => (natPower a n).mul a

def pow (a b : ComplexFloat) : ComplexFloat := (b.mul a.log).exp

def cosh (a : ComplexFloat) : ComplexFloat :=
  ⟨a.re.cosh * a.im.cos, a.re.sinh * a.im.sin⟩

def sinh (a : ComplexFloat) : ComplexFloat :=
  ⟨a.re.sinh * a.im.cos, a.re.cosh * a.im.sin⟩

def tanh (a : ComplexFloat) : ComplexFloat := a.sinh.div a.cosh

def cos (a : ComplexFloat) : ComplexFloat := a.turned.cosh

/-- The sine: `sin a = -i · sinh (i a)`. -/
def sin (a : ComplexFloat) : ComplexFloat :=
  let s := a.turned.sinh
  ⟨s.im, -s.re⟩

def tan (a : ComplexFloat) : ComplexFloat := a.sin.div a.cos

def asinh (a : ComplexFloat) : ComplexFloat :=
  (a.add ((a.mul a).add one).sqrt).log

def acosh (a : ComplexFloat) : ComplexFloat :=
  (a.add ((a.add one).sqrt.mul (a.sub one).sqrt)).log

def atanh (a : ComplexFloat) : ComplexFloat :=
  ((one.add a).log.sub (one.sub a).log).scale 0.5

/-- The inverse sine: `asin a = -i · asinh (i a)`. -/
def asin (a : ComplexFloat) : ComplexFloat :=
  let s := a.turned.asinh
  ⟨s.im, -s.re⟩

def acos (a : ComplexFloat) : ComplexFloat :=
  (ofReal 1.5707963267948966).sub a.asin

/-- The inverse tangent: `atan a = -i · atanh (i a)`. -/
def atan (a : ComplexFloat) : ComplexFloat :=
  let s := a.turned.atanh
  ⟨s.im, -s.re⟩

end ComplexFloat
end Isotherm
