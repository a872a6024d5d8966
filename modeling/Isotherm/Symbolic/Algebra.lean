import Isotherm.Function.Named
import Isotherm.Refusal

/-!
# Symbolic algebra

What the conversion of an equation asks of a library of symbolic terms. The library may put a term in
whatever form it likes, and it may refuse an operation.
-/

namespace Isotherm

/-- A library of symbolic terms `τ`, by its operations. Each operation on terms gives a term or is
refused. -/
structure Algebra (τ : Type) where
  integer : Int → τ
  float : Float → τ
  /-- The symbol of a name, which stands for a real number. -/
  symbol : String → τ
  plus : τ → τ → Except Refusal τ
  minus : τ → τ → Except Refusal τ
  times : τ → τ → Except Refusal τ
  dividedBy : τ → τ → Except Refusal τ
  power : τ → τ → Except Refusal τ
  negated : τ → Except Refusal τ
  /-- The sign of a term, itself as a term. -/
  signOf : τ → Except Refusal τ
  /-- The remainder that has the sign of the divisor. -/
  modulo : τ → τ → Except Refusal τ
  squareRoot : τ → Except Refusal τ
  /-- The real cube root. -/
  cubeRoot : τ → Except Refusal τ
  /-- The logarithm to a base. -/
  logarithm : Int → τ → Except Refusal τ
  /-- A function that the library has under its own name. -/
  call : Function1 → τ → Except Refusal τ
  call2 : Function2 → τ → τ → Except Refusal τ
  /-- A function of which the library knows nothing but the name. -/
  inert : String → τ → Except Refusal τ
  inert2 : String → τ → τ → Except Refusal τ
  /-- The names of the symbols in a term. -/
  symbols : τ → List String
  /-- A term in LaTeX. -/
  latex : τ → Except Refusal String

end Isotherm
