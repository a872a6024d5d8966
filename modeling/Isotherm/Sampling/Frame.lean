import Isotherm.Number.Scalar
import Isotherm.Sampling.Buffer
import Isotherm.Sampling.Rect

/-!
# Frames

The residuals of all cells of a rectangle at one time, with a count of those that were near zero.
The count grows with every value near zero that is written, also over another one.
-/

namespace Isotherm

/-- Whether a residual lies between `-1` and `1`, the bounds included. -/
def nearZero (v : Float) : Bool :=
  -1.0 ≤ v && v ≤ 1.0

structure Frame where
  rect : Rect
  /-- The rows from the lowest up, each from left to right. -/
  rows : Vector (Vector Float rect.width) rect.height
  t : Scalar
  /-- How many values near zero have been written. -/
  sets : Nat

inductive FrameError where
  | shapeMismatch (found wanted : List Nat)
  | ragged (regular : List Nat)
deriving DecidableEq, Repr

def FrameError.message : FrameError → String
  | shapeMismatch found wanted =>
    "Buffer shape " ++ Buffer.lengthsText found ++ " does not match grid "
      ++ Buffer.lengthsText wanted
  | ragged regular =>
    "setting an array element with a sequence. The requested array has an inhomogeneous shape after "
      ++ toString regular.length ++ " dimensions. The detected shape was "
      ++ Buffer.lengthsText regular ++ " + inhomogeneous part."

namespace Frame

def countNearZero {w h : Nat} (rows : Vector (Vector Float w) h) : Nat :=
  rows.toList.foldr (fun row n => row.toList.countP nearZero + n) 0

def ofRows (rect : Rect) (rows : Vector (Vector Float rect.width) rect.height) (t : Scalar) : Frame :=
  ⟨rect, rows, t, countNearZero rows⟩

/-- The frame whose cell in a column and a row has the given value. -/
def ofFn (rect : Rect) (value : Nat → Nat → Float) (t : Scalar) : Frame :=
  ofRows rect (Vector.ofFn fun row => Vector.ofFn fun column => value column row) t

/-- The frame of residuals that are all zero but do not count as written. -/
def empty (rect : Rect) (t : Scalar) : Frame :=
  ⟨rect, Vector.replicate _ (Vector.replicate _ 0.0), t, 0⟩

/-- The frame of nested values, which have to fit the rectangle. -/
def ofBuffer (rect : Rect) (b : Buffer) (t : Scalar) : Except FrameError Frame :=
  let shape := b.shape
  if shape.ragged then .error (.ragged shape.lengths)
  else if shape.lengths = [rect.height, rect.width] then
    let rows := b.rows
    .ok (ofFn rect (fun column row => (rows.getD row #[]).getD column 0.0) t)
  else .error (.shapeMismatch shape.lengths [rect.height, rect.width])

/-- The residual of a cell; zero outside the rectangle. -/
def get (f : Frame) (x y : Int) : Float :=
  if h : f.rect.Contains x y then
    have := Rect.row_lt h
    have := Rect.column_lt h
    f.rows[f.rect.row y][f.rect.column x]
  else 0.0

/-- Writes the residual of a cell; nothing changes outside the rectangle. -/
def set (f : Frame) (x y : Int) (v : Float) : Frame :=
  if h : f.rect.Contains x y then
    have := Rect.row_lt h
    have := Rect.column_lt h
    let row := f.rows[f.rect.row y].set (f.rect.column x) v
    { f with
      rows := f.rows.set (f.rect.row y) row
      sets := if nearZero v then f.sets + 1 else f.sets }
  else f

def recount (f : Frame) : Nat :=
  countNearZero f.rows

def toArrays (f : Frame) : Array (Array Float) :=
  f.rows.toArray.map Vector.toArray

/-- Whether two frames have the same shape and equal residuals. A NaN equals nothing. -/
def equal (a b : Frame) : Bool :=
  a.rect.height == b.rect.height && a.rect.width == b.rect.width
    && (a.toArrays.zip b.toArrays).all fun (r, s) => (r.zip s).all fun (v, w) => v == w

def outline (f : Frame) : String :=
  "Plot(t=" ++ f.t.text ++ ", rect=" ++ f.rect.outline ++ ", sets=" ++ toString f.sets ++ ")"

end Frame
end Isotherm
