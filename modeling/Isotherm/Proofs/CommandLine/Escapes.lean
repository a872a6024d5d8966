import Isotherm.Proofs.CommandLine.Outcomes
import Isotherm.Proofs.Random.FirstAcceptable
import Isotherm.Proofs.Random.Writable
import Isotherm.Proofs.Symbolic.Failures

/-!
# Runs without a status

Whatever the words on the command line, a run ends with the status 0, 1 or 2, or one of a few things
happens that no status stands for: a search is given a negative seed, the algebra refuses the LaTeX
of an equation, the settings are past what arrays and doubles hold, or a picture is not drawn.
-/

namespace Isotherm.CommandLine

variable {τ : Type}

namespace Arguments

variable {a : Arguments} {lib : Library τ} {formula : String}

/-! ## A formula -/

/-- LaTeX is asked for, and the equation has none. -/
def Unwritten (a : Arguments) (lib : Library τ) (e : Equation) (cause : SymbolicError) : Prop :=
  a.latex = true ∧ ((e.latex lib.algebra).run Engine.empty).1 = .error cause

theorem Unwritten.unique {e : Equation} {cause cause' : SymbolicError}
    (h : a.Unwritten lib e cause) (h' : a.Unwritten lib e cause') : cause = cause' :=
  Except.error.inj (h.2.symm.trans h'.2)

section Drawing

variable (a lib) (lhs rhs : Expr) (picture : Except RenderError (Option Picture))
  (missing : List String → Outcome) (made : List String → Picture → Outcome)

variable {a lib lhs rhs picture missing made}

end Drawing

/-- The random numbers that are left after some candidates. -/
def leftAfter (seed : Nat) : Nat → Permuted
  | 0 => .ofSeed seed
  | n + 1 => (nextCandidate (leftAfter seed n)).2

def candidate (seed n : Nat) : Expr × Expr :=
  ((RandomEquation.sides .permuted randomDepth).run (leftAfter seed n)).1

/-- A candidate as it is tried. -/
def tried (seed n : Nat) : Equation :=
  .ofSides ((candidate seed n).1.simplify false) ((candidate seed n).2.simplify false)

theorem candidate_printable (seed n : Nat) :
    (candidate seed n).1.Printable ∧ (candidate seed n).2.Printable := by
  obtain ⟨⟨lhs, rhs⟩, after, draws, hrun, -, -, hl, hr⟩ :=
    RandomEquation.draws_sides .permuted randomDepth (leftAfter seed n) 0
  rw [candidate, hrun]
  exact ⟨hl.printable, hr.printable⟩

def window (a : Arguments) : Search.Window :=
  ⟨a.config.gridRect, a.config.timeLower, a.config.timeUpper, a.pointSize⟩

def search (a : Arguments) (lib : Library τ) (seed : Nat) : Search.Outcome Permuted Empty :=
  Search.run lib.arrays a.verbose a.window nextCandidate a.attempts (.ofSeed seed)

/-- The settings of the picture of what was found: the seed is part of the caption. -/
def captioned (a : Arguments) (seed : Nat) : RenderConfig :=
  { a.config with footerText := a.config.footerText ++ " seed: " ++ toString (seed : Int) }

/-- The search comes to the `k`-th candidate: those before it are passed over. -/
structure ComesTo (a : Arguments) (lib : Library τ) (clock seed k : Nat) : Prop where
  random : a.random = true
  seeded : a.seed.getD clock = seed
  tries : k < a.attempts.toNat
  before : ∀ j < k, Search.PassedOver lib.arrays a.window (candidate seed j)

/-- What no status stands for. -/
inductive Escapes (a : Arguments) (lib : Library τ) (clock : Nat) : Crash → Prop where
  | unwritten {formula : String} {e : Equation} {cause : SymbolicError}
      (random : a.random = false) (given : a.formula = some formula) (nonempty : formula ≠ "")
      (parsed : Equation.parse formula = .ok e) (h : a.Unwritten lib (a.shown e) cause) :
      Escapes a lib clock (.symbolic cause)
  | undrawable {formula : String} {e : Equation} {cause : RenderError}
      (random : a.random = false) (given : a.formula = some formula) (nonempty : formula ≠ "")
      (parsed : Equation.parse formula = .ok e)
      (written : ∀ cause, ¬a.Unwritten lib (a.shown e) cause) (h : a.Undrawable lib e cause) :
      Escapes a lib clock (.render cause)
  | negativeSeed (random : a.random = true) (h : a.seed.getD clock < 0) :
      Escapes a lib clock .negativeSeed
  | triedUnsampled {seed k : Nat} {cause : SampleError} (comes : a.ComesTo lib clock seed k)
      (fits : Search.Fits (tried seed k))
      (h : (tried seed k).Unsampled lib.arrays a.size a.timeLower a.config.timeUpper a.pointSize
        cause) :
      Escapes a lib clock (.render (.sampling cause))
  | foundUnwritten {seed k : Nat} {cause : SymbolicError} (comes : a.ComesTo lib clock seed k)
      (found : Search.Acceptable lib.arrays a.window (candidate seed k))
      (h : a.Unwritten lib (tried seed k) cause) : Escapes a lib clock (.symbolic cause)
  | foundUndrawn {seed k : Nat} {cause : RenderError} (comes : a.ComesTo lib clock seed k)
      (found : Search.Acceptable lib.arrays a.window (candidate seed k))
      (written : ∀ cause, ¬a.Unwritten lib (tried seed k) cause)
      (h : a.Undrawn lib (a.captioned seed) (tried seed k) cause) :
      Escapes a lib clock (.render cause)

section Search

variable {seed k : Nat}

end Search

/-- What an escape comes from: a negative seed, LaTeX that was asked for and is refused, a picture
that is refused, or settings out of reach. -/
theorem Escapes.cause {clock : Nat} {crash : Crash} (h : a.Escapes lib clock crash) :
    (a.random = true ∧ a.seed.getD clock < 0 ∧ crash = .negativeSeed) ∨
    (a.latex = true ∧ ∃ refusal, crash = .symbolic (.refused refusal)) ∨
    (∃ refusal, crash = .render (.refused refusal)) ∨
    (a.OutOfReach lib.arrays ∧ ∃ cause, crash = .render cause) := by
  have hrefusal {lhs rhs : Expr} {cause : SymbolicError} (hl : lhs.Named) (hr : rhs.Named)
      (h : a.Unwritten lib (.ofSides lhs rhs) cause) :
      a.latex = true ∧ ∃ refusal, Crash.symbolic cause = .symbolic (.refused refusal) := by
    obtain ⟨refusal, rfl⟩ := Equation.failsOnly_latex lib.algebra hl hr _ _ h.2
    exact ⟨h.1, refusal, rfl⟩
  have hundrawn {c : RenderConfig} {e : Equation} {cause : RenderError}
      (hspeed : c.speedMs = a.speed) (h : a.Undrawn lib c e cause) :
      (∃ refusal, Crash.render cause = .render (.refused refusal)) ∨
        (a.OutOfReach lib.arrays ∧ ∃ cause', Crash.render cause = .render cause') := by
    obtain ⟨text, p, -, hcause⟩ := h
    rcases Picture.refused_of_undrawn? hcause with ⟨refusal, rfl⟩ | hslow
    · exact .inl ⟨refusal, rfl⟩
    · rw [hspeed] at hslow
      exact .inr ⟨.inr (.inr (.inr (.inr (.inr hslow)))), cause, rfl⟩
  cases h with
  | unwritten _ _ _ parsed h =>
    obtain ⟨lhs, rhs, hshown, hreadable⟩ := exists_shown (a := a) parsed
    rw [hshown] at h
    exact .inr (.inl (hrefusal hreadable.named.1 hreadable.named.2 h))
  | undrawable _ _ _ _ _ h =>
    cases h with
    | unsampled h => exact .inr (.inr (.inr ⟨outOfReach_of_unsampled h, _, rfl⟩))
    | undrawn h => exact .inr (.inr (hundrawn rfl h))
  | negativeSeed random h => exact .inl ⟨random, h, rfl⟩
  | triedUnsampled _ _ h => exact .inr (.inr (.inr ⟨outOfReach_of_unsampled h, _, rfl⟩))
  | @foundUnwritten seed k _ _ _ h =>
    obtain ⟨hl, hr⟩ := candidate_printable seed k
    have hnamed {e : Expr} (he : e.Printable) : (e.simplify false).Named :=
      (Expr.printable_iff.mp he).1.simplify false
    exact .inr (.inl (hrefusal (hnamed hl) (hnamed hr) h))
  | foundUndrawn _ _ _ h => exact .inr (.inr (hundrawn rfl h))

end Arguments

end Isotherm.CommandLine
