import Isotherm.Formula.Expr

/-!
# Collapsing double negations

Two negations in a row cancel, also with one layer of brackets between them; nothing else changes.
A negation carries its own parentheses, so a chain that loses them as an operand of another chain
gets brackets in their place.
-/

namespace Isotherm

namespace Expr

def regroup (grouped : Bool) (e : Expr) : Expr :=
  if grouped && e.isCompound then brackets e else e

/-- The tree without double negations. `grouped` says that it stands as an operand of a chain. -/
def simplify (grouped : Bool) : Expr → Expr
  | number v => number v
  | var name => var name
  | negate (negate e) => regroup grouped (simplify grouped e)
  | negate (brackets (negate e)) => regroup grouped (simplify grouped e)
  | negate e => negate (simplify false e)
  | brackets e => brackets (simplify false e)
  | binary l o r => binary (simplify true l) o (simplify true r)
  | call name e => call name (simplify false e)
  | call2 name l r infixed =>
    call2 name (simplify infixed l) (simplify infixed r) infixed
  | foreign => foreign

def isNegate : Expr → Bool
  | negate _ => true
  | _ => false

/-- A negation, or one in brackets: what another negation in front of it cancels with. -/
def isNegation : Expr → Bool
  | negate _ => true
  | brackets e => e.isNegate
  | _ => false

theorem isNegation_iff {e : Expr} :
    e.isNegation = true ↔ ∃ inner, e = negate inner ∨ e = brackets (negate inner) := by
  constructor
  · intro h
    unfold isNegation isNegate at h
    split at h
    · exact ⟨_, .inl rfl⟩
    · split at h
      · exact ⟨_, .inr rfl⟩
      · cases h
    · cases h
  · rintro ⟨inner, rfl | rfl⟩ <;> rfl

theorem isNegation_eq_false {e : Expr} (hbare : ∀ inner, e = negate inner → False)
    (hbracketed : ∀ inner, e = brackets (negate inner) → False) : e.isNegation = false := by
  rw [← Bool.not_eq_true, isNegation_iff]
  intro h
  obtain ⟨inner, rfl | rfl⟩ := h
  · exact hbare inner rfl
  · exact hbracketed inner rfl

theorem simplify_negate {e : Expr} (h : e.isNegation = false) (grouped : Bool) :
    (negate e).simplify grouped = negate (e.simplify false) := by
  rw [simplify]
  · rintro e rfl
    cases h
  · rintro e rfl
    cases h

theorem isCompound_regroup (e : Expr) : (regroup true e).isCompound = false := by
  unfold regroup
  split <;> simp_all [isCompound]

/-- As an operand, a chain stays a chain, and nothing else becomes one. -/
theorem isCompound_simplify (e : Expr) : (e.simplify true).isCompound = e.isCompound := by
  fun_cases simplify true e with
  | case3 e => exact isCompound_regroup _
  | case4 e => exact isCompound_regroup _
  | case1 | case2 | case5 | case6 | case7 | case8 | case9 | case10 => rfl

end Expr

namespace Equation

def simplify (e : Equation) : Equation :=
  ⟨e.lhs.map (Expr.simplify false), e.rhs.map (Expr.simplify false)⟩

def hasForeign (e : Equation) : Bool :=
  e.lhs.any Expr.hasForeign || e.rhs.any Expr.hasForeign

end Equation
end Isotherm
