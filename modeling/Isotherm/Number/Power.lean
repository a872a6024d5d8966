/-!
# Powers of two

Sizes of words and of the fields of a double, as natural numbers.
-/

namespace Isotherm

/-- The power `2 ^ n`. -/
def twoTo (n : Nat) : Nat := 1 <<< n

end Isotherm
