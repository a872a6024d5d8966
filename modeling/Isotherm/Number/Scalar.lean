import Isotherm.Number.Style

/-!
# Coordinates as they are given

A coordinate or a time is an integer of any size, or a double. All computing is done in doubles, so
an integer is rounded first, and one past the largest double cannot be used.
-/

namespace Isotherm

/-- A coordinate as it was given: an integer, or a double. -/
inductive Scalar where
  | integer (n : Int)
  | real (v : Float)
deriving Repr

namespace Scalar

/-- The coordinate as a double; an integer past the largest double has none. -/
def toFloat? : Scalar → Option Float
  | real v => some v
  | integer n =>
    let v := Scaled.nearest (n < 0) n.natAbs 1
    if v.isInf then none else some v

@[simp] theorem toFloat?_real (v : Float) : (real v).toFloat? = some v := rfl

def text : Scalar → String
  | integer n => toString n
  | real v => Style.report.text v

end Scalar

end Isotherm
