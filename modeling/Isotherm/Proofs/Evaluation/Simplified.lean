import Isotherm.Evaluation.Residual
import Isotherm.Proofs.Number.Bits

/-!
# Simplifying keeps the value

A tree and its simplified form evaluate alike in every arithmetic whose negation undoes itself: the
same value, the same variables read, the same stop. The collapsed negations may have brackets
between them and may leave brackets behind, but brackets evaluate to what they hold. Doubles are such
an arithmetic, NaNs and signed zeros included.
-/

namespace Isotherm

/-! ## Negations that cancel -/

/-- Arithmetic whose negation undoes itself. -/
def Arithmetic.NegationInvolutive {α : Type} (A : Arithmetic α) : Prop :=
  ∀ a, A.negated (A.negated a) = a

theorem Arithmetic.point_negationInvolutive : Arithmetic.point.NegationInvolutive :=
  Bits.neg_neg

namespace Expr

variable {α : Type} (A : Arithmetic α) (strict : Bool) (b : Bindings α)

theorem evaluate_regroup (grouped : Bool) (e : Expr) :
    (regroup grouped e).evaluate A strict b = e.evaluate A strict b := by
  unfold regroup
  split <;> rfl

theorem evaluate_negate_negate (hA : A.NegationInvolutive) (e : Expr) :
    (negate (negate e)).evaluate A strict b = e.evaluate A strict b := by
  have h (a : α) : A.negated (A.negated a) = a := hA a
  simp only [evaluate, bind_assoc, pure_bind, h, bind_pure]

/-- Simplifying changes neither the value of a tree nor what is read on the way to it, whether or
not the tree stands as an operand of a chain. -/
theorem evaluate_simplify (hA : A.NegationInvolutive) (grouped : Bool) (e : Expr) :
    (e.simplify grouped).evaluate A strict b = e.evaluate A strict b := by
  -- The cases are those of `simplify`: two ways for negations to cancel, then one per constructor.
  fun_induction simplify grouped e with
  | case1 grouped v => rfl
  | case2 grouped name => rfl
  | case3 grouped e ih =>
    rw [evaluate_regroup, ih, evaluate_negate_negate A strict b hA]
  | case4 grouped e ih =>
    rw [evaluate_regroup, ih]
    exact (evaluate_negate_negate A strict b hA e).symm
  | case5 grouped e _ _ ih => simp only [evaluate, ih]
  | case6 grouped e ih => simp only [evaluate, ih]
  | case7 grouped l o r ihl ihr => simp only [evaluate, ihl, ihr]
  | case8 grouped name e ih => simp only [evaluate, ih]
  | case9 grouped name l r infixed ihl ihr => simp only [evaluate, ihl, ihr]
  | case10 grouped => rfl

end Expr

/-! ## Equations -/

namespace Equation

/-- What the evaluation of an equation at a point has read when it ends, also where it ends in a
fault. There is none without both sides, or at a coordinate past the largest double. -/
def readsAt (e : Equation) (strict : Bool) (x y t : Scalar) : Option Reads :=
  match x.toFloat?, y.toFloat?, t.toFloat?, e.sides? with
  | some x, some y, some t, some (lhs, rhs) => some (run .point strict ⟨x, y, t⟩ lhs rhs).2
  | _, _, _, _ => none

theorem run_simplify {α : Type} {A : Arithmetic α} (hA : A.NegationInvolutive) (strict : Bool)
    (b : Bindings α) (grouped grouped' : Bool) (lhs rhs : Expr) :
    run A strict b (lhs.simplify grouped) (rhs.simplify grouped') = run A strict b lhs rhs := by
  unfold run difference
  rw [Expr.evaluate_simplify A strict b hA, Expr.evaluate_simplify A strict b hA]

theorem sides?_simplify (e : Equation) :
    e.simplify.sides? = e.sides?.map fun s => (s.1.simplify false, s.2.simplify false) := by
  obtain ⟨_ | lhs, _ | rhs⟩ := e <;> rfl

theorem readsAt_simplify (e : Equation) (strict : Bool) (x y t : Scalar) :
    e.simplify.readsAt strict x y t = e.readsAt strict x y t := by
  unfold readsAt
  rw [sides?_simplify]
  cases x.toFloat? <;> cases y.toFloat? <;> cases t.toFloat? <;> cases e.sides? <;>
    simp only [Option.map_none, Option.map_some,
      run_simplify Arithmetic.point_negationInvolutive]

theorem residualAt_simplify (e : Equation) (strict : Bool) (x y t : Scalar) :
    e.simplify.residualAt strict x y t = e.residualAt strict x y t := by
  unfold residualAt
  rw [sides?_simplify]
  cases e.sides? <;>
    simp only [Option.map_none, Option.map_some, strictResidual, residual,
      run_simplify Arithmetic.point_negationInvolutive]

/-- A bound equation without foreign nodes has a simplified form, and the two have one outcome at
every point, strict or not: the same residual to the bit, the same fault recovered from or raised,
and the same variables read. -/
theorem residualAt_checkedSimplify (e : Equation) (hb : e.isBound = true)
    (hf : e.hasForeign = false) :
    ∃ s, e.checkedSimplify = .ok s ∧ s.isBound = true ∧ ∀ strict x y t,
      s.residualAt strict x y t = e.residualAt strict x y t ∧
      s.readsAt strict x y t = e.readsAt strict x y t := by
  refine ⟨e.simplify, ?_, ?_, fun strict x y t => ⟨?_, ?_⟩⟩
  · simp [checkedSimplify, guarded, hf]
  · simpa [isBound, sides?_simplify] using hb
  · exact residualAt_simplify e strict x y t
  · exact readsAt_simplify e strict x y t

/-- `Y = X - -(-(X + T))`, whose simplified form has brackets in place of the negations. -/
theorem residualAt_checkedSimplify_chain :
    let e := ofSides (.var "Y")
      (.binary (.var "X") .subtract (.negate (.negate (.binary (.var "X") .add (.var "T")))))
    e.isBound = true ∧ e.hasForeign = false ∧
      ∃ s, e.checkedSimplify = .ok s ∧ s.isBound = true ∧ ∀ strict x y t,
        s.residualAt strict x y t = e.residualAt strict x y t ∧
        s.readsAt strict x y t = e.readsAt strict x y t :=
  ⟨rfl, rfl, residualAt_checkedSimplify _ rfl rfl⟩

end Equation
end Isotherm
