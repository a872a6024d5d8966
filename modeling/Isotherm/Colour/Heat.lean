import Isotherm.Number.Integral

/-!
# Heat colours

Residuals between `-1` and `1`, the bounds left out, fall into `n` buckets on each side of zero, and
bucket zero is black. Positive buckets go from magenta to red, negative ones from magenta to blue,
the farther from zero the less of the other colour. All other residuals have no colour.
-/

namespace Isotherm

/-- A colour by its channels, which lie between 0 and 255 for all buckets in range. -/
structure Colour where
  red : Int
  green : Int
  blue : Int
deriving DecidableEq, Repr

namespace Colour

/-- The colour of residual zero. -/
def black : Colour := ⟨0, 0, 0⟩

/-- The colour of the background. -/
def white : Colour := ⟨255, 255, 255⟩

/-- The colour of the axes. -/
def line : Colour := ⟨15, 15, 15⟩

end Colour

inductive HeatError where
  | badCount (count : Int)
  /-- The only bucket is zero, and another one was asked for. -/
  | singleBucket
  /-- No double holds the number of buckets, and a residual was to be multiplied by it. -/
  | countOverflow
  /-- A bucket so far out that no double holds its share of the way. -/
  | shareOverflow
  | outsidePalette (index : Int) (size : Nat)
deriving DecidableEq, Repr

def HeatError.message : HeatError → String
  | badCount count => "bucket_count must be positive, got " ++ toString count
  | singleBucket => "division by zero"
  | countOverflow => "int too large to convert to float"
  | shareOverflow => "integer division result too large for a float"
  | outsidePalette index size =>
    "index " ++ toString index ++ " is out of bounds for axis 0 with size " ++ toString size

namespace Heat

/-- The most buckets that fit a table of 256 colours beside line, white and black. -/
def mostBuckets : Int := 126

/-- `bucket` moved into the range of the buckets. -/
def clamp (count bucket : Int) : Int :=
  max (-(count - 1)) (min (count - 1) bucket)

/-- The bucket of a residual within the band: its multiple by `count`, cut off toward zero. -/
def bucketInBand (count : Int) (residual : Float) : Int :=
  clamp count (Integral.value (residual * Integral.ofInt count))

def bucket? (count : Int) (residual : Float) : Option Int :=
  if !residual.isFinite || 1.0 ≤ residual.abs then none else some (bucketInBand count residual)

/-- The share that a bucket has of the way out to the last one, in parts of 255. -/
def share (count bucket : Int) : Float :=
  Scaled.nearest false (255 * bucket.natAbs) (count - 1).natAbs

/-- How much of the other colour is left in a bucket: 255 less its share of the way out, rounded to
the even neighbour from a tie of the doubles. -/
def fade (count bucket : Int) : Int :=
  255 - Integral.value (Integral.roundEven (share count bucket))

/-- The colour of a bucket, for more than one bucket on a side or bucket zero. -/
def ofBucket (count bucket : Int) : Colour :=
  if bucket = 0 then .black
  else if 0 < bucket then ⟨255, 0, fade count bucket⟩
  else ⟨fade count bucket, 0, 255⟩

/-- `value` if the count of buckets is positive. -/
def counted {α : Type} (count : Int) (value : α) : Except HeatError α :=
  if count < 1 then .error (.badCount count) else .ok value

def checkedBucket (count : Int) (residual : Float) : Except HeatError (Option Int) := do
  let bucket? ← counted count (bucket? count residual)
  if bucket?.isSome && (Integral.ofInt count).isInf then .error .countOverflow else .ok bucket?

def checkedColour (count bucket : Int) : Except HeatError Colour := do
  counted count ()
  if bucket ≠ 0 ∧ count = 1 then .error .singleBucket
  else if (share count bucket).isInf then .error .shareOverflow
  else .ok (ofBucket count bucket)

def colour? (count : Int) (residual : Float) : Option Colour :=
  (bucket? count residual).map (ofBucket count)

def checkedResidualColour (count : Int) (residual : Float) : Except HeatError (Option Colour) := do
  match ← checkedBucket count residual with
  | some bucket => return some (← checkedColour count bucket)
  | none => return none

def palette (count : Int) : Array Colour :=
  (Array.range (2 * count - 1).toNat).map fun (i : Nat) => ofBucket count (i - (count - 1))

def checkedPalette (count : Int) : Except HeatError (Array Colour) :=
  counted count (palette count)

end Heat
end Isotherm
