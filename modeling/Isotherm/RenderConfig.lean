import Isotherm.Colour.Heat
import Isotherm.Evaluation.Residual
import Isotherm.Sampling.Rect

/-!
# Render settings

Everything that turns an equation into an animation, with its defaults and its limits.
-/

namespace Isotherm

structure RenderConfig where
  /-- Colour buckets on each side of zero. -/
  heatColourCount : Int := 126
  /-- Milliseconds between frames. -/
  speedMs : Int := 100
  /-- The distance between neighbouring cells. -/
  pointSize : Scalar := .real 0.1
  /-- Pixels to the side of a cell. -/
  scale : Int := 2
  /-- The first time. -/
  timeLower : Int := 0
  /-- The time before which frames end. -/
  timeUpper : Int := 100
  /-- Cells to each side of the origin. -/
  size : Int := 100
  outputFile : String := "./out.gif"
  footerText : String := ""

/-- The first setting that is out of its limits, with its value. -/
inductive ConfigError where
  | heatColourCount (value : Int)
  | speedMs (value : Int)
  | pointSize (value : Scalar)
  | scale (value : Int)
  | size (value : Int)
  | outputFile
deriving Repr

def ConfigError.message : ConfigError → String
  | heatColourCount v =>
    "heat_colour_count must be between 1 and " ++ toString Heat.mostBuckets ++ ", got "
      ++ toString v
  | speedMs v => "speed_ms must be positive, got " ++ toString v
  | pointSize v => "point_size must be positive, got " ++ v.text
  | scale v => "scale must be at least 1, got " ++ toString v
  | size v => "size must be at least 1, got " ++ toString v
  | outputFile => "output_file must not be empty"

namespace RenderConfig

/-- The defaults for equations found at random. -/
def forRandom : RenderConfig := { timeUpper := 25, footerText := "RND" }

def gridRect (c : RenderConfig) : Rect := Rect.aroundOrigin c.size

/-- Whether a distance is zero or less; a NaN is not. -/
def notPositive : Scalar → Bool
  | .integer n => n ≤ 0
  | .real v => v ≤ 0.0

def invalid? (c : RenderConfig) : Option ConfigError :=
  if c.heatColourCount < 1 || Heat.mostBuckets < c.heatColourCount then
    some (.heatColourCount c.heatColourCount)
  else if c.speedMs ≤ 0 then some (.speedMs c.speedMs)
  else if notPositive c.pointSize then some (.pointSize c.pointSize)
  else if c.scale < 1 then some (.scale c.scale)
  else if c.size < 1 then some (.size c.size)
  else if c.outputFile.isEmpty then some .outputFile
  else none

end RenderConfig
end Isotherm
