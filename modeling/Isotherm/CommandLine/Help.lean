/-!
# The help text

What the program prints about itself.
-/

namespace Isotherm.CommandLine

/-- The name of the program. -/
def programName : String := "heatplot"

/-- The version of the program. -/
def programVersion : String := "0.3.0"

def usage : List String :=
  ["usage: heatplot [-h] [--random] [--seed SEED] [--attempts ATTEMPTS]",
   "                [--list-functions] [--simplify] [--latex] [--verbose]",
   "                [--hcc HCC] [--speed SPEED] [--point-size POINT_SIZE]",
   "                [--scale SCALE] [--tlb TLB] [--tub TUB] [--size SIZE]",
   "                [--output-file OUTPUT_FILE] [--footer-text FOOTER_TEXT]",
   "                [--version]",
   "                [formula]"]

def details : List String :=
  ["heatplot v0.3.0 - animated heat maps of implicit equations in X, Y and T",
   "",
   "positional arguments:",
   "  formula               Equation using x, y and t (t for time)",
   "",
   "options:",
   "  -h, --help            show this help message and exit",
   "  --random              Render a randomly generated equation",
   "  --seed SEED           Seed for --random (default: current time)",
   "  --attempts ATTEMPTS   Random equations to try before giving up (default:",
   "                        1000)",
   "  --list-functions      Print the callable function names",
   "  --simplify            Render the simplified equation",
   "  --latex               Print the residual as LaTeX",
   "  --verbose             Report rejected random equations",
   "  --hcc HCC             Heat colour buckets on each side of zero, at most 126",
   "                        (default: 126)",
   "  --speed SPEED         Milliseconds between frames (default: 100)",
   "  --point-size POINT_SIZE",
   "                        How many x or y units one unscaled pixel covers",
   "                        (default: 0.1)",
   "  --scale SCALE         Magnification of the picture (default: 2)",
   "  --tlb TLB             Where to start T (default: 0)",
   "  --tub TUB             Where to end T (default: 100, 25 with --random)",
   "  --size SIZE           Grid cells in each direction from the origin (default:",
   "                        100)",
   "  --output-file OUTPUT_FILE",
   "                        The output filename (default: ./out.gif)",
   "  --footer-text FOOTER_TEXT",
   "                        Text to put at the bottom of the picture (default:",
   "                        empty, 'RND' with --random)",
   "  --version             show program's version number and exit",
   "",
   "Examples:",
   "  # Render an equation; T animates it when used",
   "  heatplot \"y / 4 = x * (x + 2)\"",
   "",
   "  # Expanding circle, written to a custom file",
   "  heatplot \"T = Y ^ 2 + X ^ 2\" --output-file circle.gif",
   "",
   "  # Let the program find an interesting random equation",
   "  heatplot --random --seed 42",
   "",
   "  # List the functions equations may call",
   "  heatplot --list-functions",
   "        "]

/-- What is printed where the formula is missing. -/
def formulaWanted : String :=
  "Please include the formula after the command; "
    ++ "you can use x, y and t (t for time) in any way you wish"

end Isotherm.CommandLine
