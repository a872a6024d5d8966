import Isotherm.Formula.Checked
import Isotherm.Sampling.Assessment

/-!
# The search for an equation worth rendering

Candidates are simplified, and the first is kept that is neither too shallow nor too deep and whose
animation passes the assessment. A verbose search tells what becomes of each candidate.
-/

namespace Isotherm

inductive SearchNote where
  | candidate (text : String)
  | simplified (text : String)
  | tooShallow
  | tooDeep
  | rejected (reason : Rejection)
deriving DecidableEq, Repr

def SearchNote.text : SearchNote → String
  | candidate text => "Got function: " ++ text
  | simplified text => "Got simplified function: " ++ text
  | tooShallow => "Not deep enough"
  | tooDeep => "Too deep"
  | rejected reason => reason.text

/-- The candidate that is kept: its sides simplified, with their animation and its tally. -/
structure Found where
  lhs : Expr
  rhs : Expr
  /-- The text of the candidate before it was simplified. -/
  candidateText : String
  animation : Animation
  tally : Tally
  attempts : Nat

inductive SearchError (ε : Type) where
  | exhausted (attempts : Int)
  /-- The next candidate could not be made. -/
  | candidate (cause : ε)
  /-- A candidate has no text or cannot be simplified. -/
  | tree (cause : TreeError)
  /-- A candidate could not be sampled. -/
  | sampling (cause : SampleError)

def SearchError.message {ε : Type} (describe : ε → String) : SearchError ε → String
  | exhausted attempts =>
    "No acceptable random equation after " ++ toString attempts ++ " attempts"
  | candidate cause => describe cause
  | tree cause => cause.message
  | sampling cause => cause.message

namespace Search

structure Window where
  rect : Rect
  timeLower : Int
  timeUpper : Int
  cellSize : Float

/-- The least and the greatest depth of an equation that is sampled. -/
def depthBounds : Nat × Nat := (4, 10)

/-- What becomes of a candidate. The last two end the search. -/
inductive Verdict where
  | kept (found : Found)
  | passed (why : SearchNote)
  | broken (cause : TreeError)
  | unsampled (cause : SampleError)

/-- What a verbose search says about a verdict. -/
def Verdict.notes : Verdict → List SearchNote
  | passed why => [why]
  | kept _ | broken _ | unsampled _ => []

/-- Judges the simplified sides of a candidate that was written `text`. -/
def judge (arrays : Arrays) (w : Window) (attempt : Nat) (text : String) (lhs rhs : Expr) : Verdict :=
  let simplified := Equation.ofSides lhs rhs
  match simplified.checkedDepth with
  | .error cause => .broken cause
  | .ok depth =>
    if depth < depthBounds.1 then .passed .tooShallow
    else if depthBounds.2 < depth then .passed .tooDeep
    else
      match simplified.animate arrays w.timeLower w.timeUpper w.rect w.cellSize with
      | .error cause => .unsampled cause
      | .ok animation =>
        let tally := Tally.ofFrames animation.frames.toList
        match tally.rejection? with
        | some reason => .passed (.rejected reason)
        | none => .kept ⟨lhs, rhs, text, animation, tally, attempt⟩

/-- The text of a candidate, and its simplified sides. -/
def prepare (lhs rhs : Expr) : Except TreeError (String × Expr × Expr) := do
  let text ← (Equation.ofSides lhs rhs).checkedText
  let simpleLhs ← lhs.checkedSimplify false
  let simpleRhs ← rhs.checkedSimplify false
  return (text, simpleLhs, simpleRhs)

/-- What is said about a candidate, and what becomes of it. -/
def consider (arrays : Arrays) (verbose : Bool) (w : Window) (attempt : Nat) (lhs rhs : Expr) :
    List SearchNote × Verdict :=
  match prepare lhs rhs with
  | .error cause => ([], .broken cause)
  | .ok (text, simpleLhs, simpleRhs) =>
    let verdict := judge arrays w attempt text simpleLhs simpleRhs
    if verbose then
      match (Equation.ofSides simpleLhs simpleRhs).checkedText with
      | .error cause => ([.candidate text], .broken cause)
      | .ok simpleText =>
        let simplified := if simpleText = text then [] else [.simplified simpleText]
        (.candidate text :: simplified ++ verdict.notes, verdict)
    else ([], verdict)

structure Outcome (σ ε : Type) where
  log : Array SearchNote
  result : Except (SearchError ε) Found
  state : σ

/-- Tries `left` more candidates after `made`. -/
def tryNext {σ ε : Type} (arrays : Arrays) (verbose : Bool) (w : Window)
    (next : σ → Except ε (Expr × Expr) × σ) (limit : Int) (left made : Nat)
    (log : Array SearchNote) (s : σ) : Outcome σ ε :=
  match left with
  | 0 => ⟨log, .error (.exhausted limit), s⟩
  | left + 1 =>
    match next s with
    | (.error cause, after) => ⟨log, .error (.candidate cause), after⟩
    | (.ok (lhs, rhs), after) =>
      let (notes, verdict) := consider arrays verbose w (made + 1) lhs rhs
      let log := log ++ notes.toArray
      match verdict with
      | .kept found => ⟨log, .ok found, after⟩
      | .passed _ => tryNext arrays verbose w next limit left (made + 1) log after
      | .broken cause => ⟨log, .error (.tree cause), after⟩
      | .unsampled cause => ⟨log, .error (.sampling cause), after⟩

/-- The first acceptable candidate among at most `limit`. -/
def run {σ ε : Type} (arrays : Arrays) (verbose : Bool) (w : Window)
    (next : σ → Except ε (Expr × Expr) × σ) (limit : Int) (s : σ) : Outcome σ ε :=
  tryNext arrays verbose w next limit limit.toNat 0 #[] s

end Search
end Isotherm
