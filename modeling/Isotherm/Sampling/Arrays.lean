import Isotherm.Number.Integral
import Isotherm.Number.Scalar
import Isotherm.Refusal
import Isotherm.Sampling.Rect

/-!
# Arrays

Residuals are kept in the arrays of a library, and so are the pixels of a picture. How large an array
may be is up to the library, and so is the exception for one that is too large.
-/

namespace Isotherm

/-- A library of arrays, by what it refuses to make. -/
structure Arrays where
  /-- The doubles from a lower bound up to an upper bound, as an array. -/
  axisRefusal? : Int → Int → Option Refusal
  /-- A double for every cell of so many rows and columns. -/
  gridRefusal? : Nat → Nat → Option Refusal
  /-- The pixels of so many rows and columns, each repeated so many times in either direction. -/
  magnifyRefusal? : Nat → Nat → Nat → Option Refusal

namespace Arrays

/-- The arrays that the sampling of a rectangle asks for are made. -/
structure Grants (arrays : Arrays) (rect : Rect) : Prop where
  columns : arrays.axisRefusal? rect.minX rect.maxX = none
  rows : arrays.axisRefusal? rect.minY rect.maxY = none
  grid : arrays.gridRefusal? rect.height rect.width = none

/-! ## Arrays in an address space -/

/-- The number of elements is not one of 64 bits. -/
def tooLong : Refusal := ⟨"ValueError", "Maximum allowed size exceeded"⟩

/-- The bytes have no addresses of 64 bits. -/
def tooBig : Refusal :=
  ⟨"ValueError", "array is too big; `arr.size * arr.dtype.itemsize` is larger than the maximum "
    ++ "possible size."⟩

/-- The number of repetitions is not one of 64 bits. -/
def tooOften : Refusal := ⟨"OverflowError", "Python int too large to convert to C long"⟩

/-- The number of elements from one bound to another is counted as a double. -/
def addressedAxis (lower upper : Int) : Option Refusal :=
  match (Scalar.integer (upper - lower)).toFloat? with
  | none => some tooLong
  | some span =>
    let length := Integral.value span
    if length < -twoTo 63 ∨ twoTo 63 ≤ length then some tooLong
    else if twoTo 63 ≤ 8 * length then some tooBig
    else none

/-- A side of no elements counts as one. -/
def addressedGrid (height width : Nat) : Option Refusal :=
  if twoTo 63 ≤ 8 * (max 1 height * max 1 width) then some tooBig else none

def addressedPixels (height width scale : Nat) : Option Refusal :=
  if twoTo 63 ≤ scale then some tooOften
  else if twoTo 63 ≤ 3 * (height * scale * (width * scale)) then some tooBig
  else none

/-- Arrays of any size whose bytes can be addressed. -/
def addressed : Arrays := ⟨addressedAxis, addressedGrid, addressedPixels⟩

end Arrays
end Isotherm
