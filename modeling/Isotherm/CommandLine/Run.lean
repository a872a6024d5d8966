import Isotherm.CommandLine.Arguments
import Isotherm.CommandLine.Help
import Isotherm.Formula.Reader
import Isotherm.Picture
import Isotherm.Random.RandomEquation
import Isotherm.Random.Search
import Isotherm.Symbolic.Terms

/-!
# Running the command line

What the program prints, the status it ends with, and which pictures it makes, as a function of its
arguments. The list of functions comes before everything else, then the settings are checked, and
only then is a formula read or searched for. A picture is made last, so a status other than zero
comes without one. What a library refuses ends a run without a status.
-/

namespace Isotherm.CommandLine

/-- The libraries a run makes use of, with terms `τ`. -/
structure Library (τ : Type) where
  algebra : Algebra τ
  arrays : Arrays
  plotting : Plotting

/-- Terms in normal form, arrays in an address space, and animated pictures with a palette. -/
def Library.standard : Library Term := ⟨Term.algebra, .addressed, .animated⟩

structure Outcome where
  status : Nat
  /-- What is printed. -/
  output : List String
  /-- What is said about a wrong use of the command line. -/
  usageError : Option String := none
  pictures : List Picture := []

inductive Crash where
  | negativeSeed
  | symbolic (e : SymbolicError)
  | render (e : RenderError)
deriving Repr

def Crash.message : Crash → String
  | negativeSeed => SeedSequence.negativeSeed
  | symbolic e => e.message
  | render e => e.message

namespace Outcome

def failure (status : Nat) (output : List String) : Outcome :=
  { status, output }

def rendered (output : List String) (p : Picture) : Outcome :=
  { status := 0
    output := output ++ ["Done see " ++ p.path]
    pictures := [p] }

/-- The help, after `before`. -/
def withHelp (before : List String) : Outcome :=
  { status := 0, output := before ++ usage ++ "" :: details }

end Outcome

variable {τ : Type}

/-- The names of all functions, then of those of either arity in upper case. -/
def functionListing : List String :=
  let keys (names : List String) : List String := names.map fun n => String.ofList (caseKey n)
  "Function Names: " :: Function1.allNames
    ++ "Single Functions: " :: keys (Function1.all.map Function1.name)
    ++ "Double Functions: " :: keys (Function2.all.map Function2.name)

namespace Arguments

/-- The settings. A search has its own defaults. -/
def config (a : Arguments) : RenderConfig :=
  let base : RenderConfig := if a.random then .forRandom else {}
  { heatColourCount := a.heatColourCount
    speedMs := a.speed
    pointSize := .real a.pointSize
    scale := a.scale
    timeLower := a.timeLower
    timeUpper := a.timeUpper.getD base.timeUpper
    size := a.size
    outputFile := a.outputFile
    footerText := a.footerText.getD base.footerText }

/-- The residual of two sides in LaTeX, if that is asked for. -/
def latexLines (a : Arguments) (lib : Library τ) (lhs rhs : Expr) : Except Crash (List String) :=
  if a.latex then
    match (((Equation.ofSides lhs rhs).latex lib.algebra).run Engine.empty).1 with
    | .ok text => .ok [text]
    | .error e => .error (.symbolic e)
  else .ok []

/-- Draws the equation of two sides that was given as `formula`. -/
def runSides (a : Arguments) (lib : Library τ) (c : RenderConfig) (formula : String)
    (said : List String) (lhs rhs : Expr) : Except Crash Outcome := do
  let latex ← a.latexLines lib lhs rhs
  let picture? := (Equation.ofSides lhs rhs).render lib.arrays lib.plotting c a.pointSize
  match ← picture?.mapError .render with
  | none => return .failure 1 (said ++ latex ++ ["Rendering failed for " ++ formula])
  | some picture => return .rendered (said ++ latex) picture

def runFormula (a : Arguments) (lib : Library τ) (c : RenderConfig) (formula : String) :
    Except Crash Outcome :=
  match Equation.parse formula with
  | .error e => .ok (.failure 1 ["Error: " ++ e.message])
  | .ok e =>
    match e.sides? with
    | none => .ok (.failure 1 ["Failed: " ++ TreeError.unbound.message])
    | some (lhs, rhs) =>
      if a.simplify then
        let lhs := lhs.simplify false
        let rhs := rhs.simplify false
        a.runSides lib c formula ["Simplified: " ++ Equation.textOfSides lhs rhs] lhs rhs
      else a.runSides lib c formula [] lhs rhs

/-- The depth of equations made at random. -/
def randomDepth : Nat := 10

def nextCandidate (g : Permuted) : Except Empty (Expr × Expr) × Permuted :=
  let (sides, after) := (RandomEquation.sides .permuted randomDepth).run g
  (.ok sides, after)

def runRandom (a : Arguments) (lib : Library τ) (c : RenderConfig) (seed : Int) :
    Except Crash Outcome := do
  if seed < 0 then throw .negativeSeed
  let window : Search.Window := ⟨c.gridRect, c.timeLower, c.timeUpper, a.pointSize⟩
  let search :=
    Search.run lib.arrays a.verbose window nextCandidate a.attempts (Permuted.ofSeed seed.toNat)
  let log := search.log.toList.map SearchNote.text
  match search.result with
  | .error (.tree e) => throw (.render (.tree e))
  | .error (.sampling e) => throw (.render (.sampling e))
  | .error e => return .failure 1 (log ++ ["Failed: " ++ e.message Empty.elim])
  | .ok found =>
    let text := Equation.textOfSides found.lhs found.rhs
    let notes :=
      .candidate found.candidateText
        :: (if text = found.candidateText then [] else [SearchNote.simplified text])
    let latex ← a.latexLines lib found.lhs found.rhs
    let said := log ++ notes.map SearchNote.text
      ++ ("looks good making image (attempt " ++ toString found.attempts ++ ")") :: latex
    let caption := c.footerText ++ " seed: " ++ toString seed
    let picture? := Picture.ofFrames? lib.arrays lib.plotting { c with footerText := caption } text
      found.animation.timeUsed found.animation.frames.toList
    match ← picture?.mapError .render with
    | none => return .failure 1 said
    | some picture => return .rendered said picture

/-- Runs what the arguments ask for; `clock` is the seed of a search without one. -/
def run (a : Arguments) (lib : Library τ) (clock : Nat) : Except Crash Outcome :=
  if a.listFunctions then .ok { status := 0, output := functionListing }
  else
    let c := a.config
    match c.invalid? with
    | some e => .ok (.failure 2 ["Error: " ++ e.message])
    | none =>
      if a.random then a.runRandom lib c (a.seed.getD clock)
      else
        match a.formula with
        | some formula =>
          if formula.isEmpty then .ok (.withHelp [formulaWanted]) else a.runFormula lib c formula
        | none => .ok (.withHelp [formulaWanted])

end Arguments

def Exit.outcome : Exit → Outcome
  | help => .withHelp []
  | version => { status := 0, output := [programName ++ " " ++ programVersion] }
  | usage e =>
    { status := 2, output := [], usageError := some (programName ++ ": error: " ++ e.message) }

def run (lib : Library τ) (words : List String) (clock : Nat) : Except Crash Outcome :=
  match Arguments.read words with
  | .error exit => .ok exit.outcome
  | .ok a => a.run lib clock

end Isotherm.CommandLine
