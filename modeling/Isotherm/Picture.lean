import Isotherm.Colour.Raster
import Isotherm.Formula.Checked
import Isotherm.RenderConfig
import Isotherm.Sampling.Animation

/-!
# Pictures

An animated picture of an equation: its frames magnified, with the equation above them and a caption
below each. The settings are checked before anything is sampled, and all frames are coloured from
one palette. The figure is laid out once, with the first frame in it, and the picture is written
last; both are up to a library.
-/

namespace Isotherm

/-- A frame as it is drawn, and the text under it. -/
structure Panel where
  raster : Raster
  label : String

structure Picture where
  path : String
  /-- The text above the frames. -/
  heading : String
  /-- Pixels to the side of a cell. -/
  scale : Nat
  first : Panel
  later : List Panel
  framesPerSecond : Float

/-- A library of figures, by what it refuses to draw. -/
structure Plotting where
  /-- A figure of a first panel, its cells so many pixels to a side, under a heading. -/
  layoutRefusal? : String → Nat → Panel → Option Refusal
  /-- A picture that is to be written to its path. -/
  saveRefusal? : Picture → Option Refusal

/-- Why there is no picture. -/
inductive RenderError where
  | config (cause : ConfigError)
  | sampling (cause : SampleError)
  | tree (cause : TreeError)
  | colour (cause : HeatError)
  /-- The pixels of a frame are not made, or the figure or the picture is not drawn. -/
  | refused (cause : Refusal)
  /-- The time between frames is past the largest double. -/
  | speed
deriving Repr

def RenderError.message : RenderError → String
  | config cause => cause.message
  | sampling cause => cause.message
  | tree cause => cause.message
  | colour cause => cause.message
  | refused cause => cause.message
  | speed => "int too large to convert to float"

namespace Picture

/-- The width of the white around the frames, in cells. -/
def border : Nat := 20

/-- The pixels of the figure from left to right. -/
def width (p : Picture) : Nat :=
  p.first.raster.width + 2 * (border * p.scale)

def height (p : Picture) : Nat :=
  p.first.raster.rows.size + 2 * (border * p.scale)

def panel (arrays : Arrays) (c : RenderConfig) (palette : Array Colour) (timeUsed : Bool)
    (f : Frame) : Except RenderError Panel := do
  let raster ← (Raster.ofFrame f c.heatColourCount (some palette)).mapError .colour
  let magnified ← (raster.magnify arrays c.scale.toNat).mapError .refused
  return ⟨magnified, footerLabel f.t c.timeUpper timeUsed c.footerText⟩

/-- The picture of sampled frames; there is none without a frame. -/
def ofFrames? (arrays : Arrays) (plotting : Plotting) (c : RenderConfig) (heading : String)
    (timeUsed : Bool) : List Frame → Except RenderError (Option Picture)
  | [] => .ok none
  | first :: later => do
    let palette ← (Heat.checkedPalette c.heatColourCount).mapError .colour
    let first ← panel arrays c palette timeUsed first
    let later ← later.mapM (panel arrays c palette timeUsed)
    Refusal.guard .refused (plotting.layoutRefusal? heading c.scale.toNat first)
    match (Scalar.integer c.speedMs).toFloat? with
    | none => throw .speed
    | some speed =>
      let picture : Picture :=
        ⟨c.outputFile, heading, c.scale.toNat, first, later, 1000.0 / speed⟩
      Refusal.guard .refused (plotting.saveRefusal? picture)
      return some picture

end Picture

/-! ## Animated pictures with a palette

Their sides are numbers of 16 bits, and so is the time between two frames, in hundredths of a
second. -/

namespace Plotting

def tooLarge (p : Picture) : Refusal :=
  ⟨"ValueError", "Image size of " ++ toString p.width ++ "x" ++ toString p.height
    ++ " pixels is too large. It must be less than 2^16 in each direction."⟩

def tooSlow : Refusal := ⟨"error", "'H' format requires 0 <= number <= 65535"⟩

def animatedRefusal? (p : Picture) : Option Refusal :=
  if twoTo 16 ≤ p.width ∨ twoTo 16 ≤ p.height then some (tooLarge p)
  else if twoTo 16 ≤ Integral.value (1000.0 / p.framesPerSecond) / 10 then some tooSlow
  else none

/-- Figures are laid out whatever is on them. -/
def animated : Plotting := ⟨fun _ _ _ => none, animatedRefusal?⟩

end Plotting

/-- Samples an equation and draws it under its text. -/
def Equation.render (e : Equation) (arrays : Arrays) (plotting : Plotting) (c : RenderConfig)
    (cellSize : Float) : Except RenderError (Option Picture) :=
  match c.invalid? with
  | some cause => .error (.config cause)
  | none => do
    let animation ←
      (e.animate arrays c.timeLower c.timeUpper c.gridRect cellSize).mapError .sampling
    let heading ← e.checkedText.mapError .tree
    Picture.ofFrames? arrays plotting c heading animation.timeUsed animation.frames.toList

end Isotherm
