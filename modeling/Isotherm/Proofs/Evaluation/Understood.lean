import Isotherm.Proofs.Evaluation.Correspondence
import Isotherm.Proofs.Evaluation.Simplified
import Isotherm.Proofs.Formula.NormalForm

/-!
# Trees that evaluate without a stop

The evaluator stops at three things: an operator outside the grammar, a foreign node, and in a strict
evaluation a function that it does not know. A tree without them has a value whatever the variables
are bound to, strict or not, and so has the simplified tree.
-/

namespace Isotherm

namespace Evaluation

variable {α β : Type}

/-- Whatever was read before, the evaluation ends in a value. -/
def Succeeds (m : Evaluation α) : Prop :=
  ∀ s, ∃ a r, m.outcome s = (.ok a, r)

theorem succeeds_pure (a : α) : Succeeds (pure a) :=
  fun s => ⟨a, s, rfl⟩

theorem Succeeds.bind {m : Evaluation α} {k : α → Evaluation β} (h : m.Succeeds)
    (hk : ∀ a, (k a).Succeeds) : (m >>= k).Succeeds := by
  intro s
  obtain ⟨a, r, hm⟩ := h s
  obtain ⟨b, q, hb⟩ := hk a r
  refine ⟨b, q, ?_⟩
  rw [outcome_bind, hm]
  exact hb

end Evaluation

namespace Expr

open Evaluation

/-- A node that every evaluation understands. -/
def Understood : Expr → Prop
  | number _ | var _ | negate _ | brackets _ => True
  | binary _ o _ => o ∈ Operator.known
  | call name _ => (Function1.ofName? name).isSome = true
  | call2 name _ _ _ => (Function2.ofName? name).isSome = true
  | foreign => False

theorem succeeds_readVariable {α : Type} (A : Arithmetic α) (b : Bindings α) (name : String) :
    (readVariable A b name).Succeeds := by
  unfold readVariable
  split
  · exact fun s => ⟨_, _, rfl⟩
  · exact succeeds_pure _

theorem exists_value_of_mem_known {α : Type} (A : Arithmetic α) {o : Operator}
    (h : o ∈ Operator.known) (l r : α) : ∃ value, A.operator? o l r = some value := by
  simp only [Operator.known, List.mem_cons, List.not_mem_nil, or_false] at h
  rcases h with rfl | rfl | rfl | rfl | rfl | rfl <;> exact ⟨_, rfl⟩

/-- A tree of nodes that are understood has a value, in every arithmetic and with any bindings. -/
theorem succeeds_evaluate {e : Expr} (h : ∀ s ∈ e.subtrees, s.Understood) {α : Type}
    (A : Arithmetic α) (strict : Bool) (b : Bindings α) : (e.evaluate A strict b).Succeeds := by
  induction e with
  | number v => exact succeeds_pure _
  | var name => exact succeeds_readVariable A b name
  | binary l o r ihl ihr =>
    simp only [subtrees, List.forall_mem_cons, List.forall_mem_append] at h
    refine (ihl h.2.1).bind fun left => (ihr h.2.2).bind fun right => ?_
    obtain ⟨value, hvalue⟩ := exists_value_of_mem_known A h.1 left right
    rw [hvalue]
    exact succeeds_pure _
  | negate e ih =>
    simp only [subtrees, List.forall_mem_cons] at h
    exact (ih h.2).bind fun _ => succeeds_pure _
  | brackets e ih =>
    simp only [subtrees, List.forall_mem_cons] at h
    exact ih h.2
  | call name e ih =>
    simp only [subtrees, List.forall_mem_cons] at h
    obtain ⟨f, hf⟩ := Option.isSome_iff_exists.mp h.1
    refine (ih h.2).bind fun value => ?_
    rw [hf]
    exact succeeds_pure _
  | call2 name l r infixed ihl ihr =>
    simp only [subtrees, List.forall_mem_cons, List.forall_mem_append] at h
    obtain ⟨f, hf⟩ := Option.isSome_iff_exists.mp h.1
    refine (ihl h.2.1).bind fun first => (ihr h.2.2).bind fun second => ?_
    rw [hf]
    exact succeeds_pure _
  | foreign => exact (h foreign List.mem_cons_self).elim

theorem hasForeign_of_understood {e : Expr} (h : ∀ s ∈ e.subtrees, s.Understood) :
    e.hasForeign = false := by
  induction e with
  | number | var => rfl
  | negate e ih | brackets e ih | call name e ih =>
    simp only [subtrees, List.forall_mem_cons] at h
    exact ih h.2
  | binary l o r ihl ihr | call2 name l r infixed ihl ihr =>
    simp only [subtrees, List.forall_mem_cons, List.forall_mem_append] at h
    rw [hasForeign, ihl h.2.1, ihr h.2.2]
    rfl
  | foreign => exact (h foreign List.mem_cons_self).elim

end Expr

namespace Equation

/-- At every point whose coordinates are doubles the equation has a residual, without a fault that
was recovered from; at any other point evaluating it fails for the coordinate. -/
def NeverFaults (e : Equation) (strict : Bool) : Prop :=
  ∀ x y t : Scalar,
    (∃ r, e.residualAt strict x y t = .ok r ∧ r.recovered = none) ∨
    (x.toFloat? = none ∨ y.toFloat? = none ∨ t.toFloat? = none) ∧
      e.residualAt strict x y t = .error .overflow

theorem exists_run_eq_ok {lhs rhs : Expr} (hl : ∀ s ∈ lhs.subtrees, s.Understood)
    (hr : ∀ s ∈ rhs.subtrees, s.Understood) {α : Type} (A : Arithmetic α) (strict : Bool)
    (b : Bindings α) : ∃ v r, run A strict b lhs rhs = (.ok v, r) := by
  have hright := Expr.succeeds_evaluate hr A strict b
  have hleft := Expr.succeeds_evaluate hl A strict b
  exact hright.bind (fun _ => hleft.bind fun _ => Evaluation.succeeds_pure _) .none

theorem neverFaults_ofSides {lhs rhs : Expr} (hl : ∀ s ∈ lhs.subtrees, s.Understood)
    (hr : ∀ s ∈ rhs.subtrees, s.Understood) (strict : Bool) :
    (ofSides lhs rhs).NeverFaults strict := by
  intro x y t
  cases hx : x.toFloat? with
  | none => exact .inr ⟨.inl rfl, by simp [residualAt, hx]⟩
  | some x' =>
    cases hy : y.toFloat? with
    | none => exact .inr ⟨.inr (.inl rfl), by simp [residualAt, hx, hy]⟩
    | some y' =>
      cases ht : t.toFloat? with
      | none => exact .inr ⟨.inr (.inr rfl), by simp [residualAt, hx, hy, ht]⟩
      | some t' =>
        obtain ⟨v, r, hrun⟩ := exists_run_eq_ok hl hr .point strict ⟨x', y', t'⟩
        refine .inl ⟨⟨v, r.t, none⟩, ?_, rfl⟩
        cases strict with
        | true => simp [residualAt, hx, hy, ht, sides?, ofSides, strictResidual, hrun]
        | false => simp [residualAt, hx, hy, ht, sides?, ofSides, residual, hrun]

theorem NeverFaults.simplify {e : Equation} {strict : Bool} (h : e.NeverFaults strict) :
    e.simplify.NeverFaults strict := by
  intro x y t
  rw [residualAt_simplify]
  exact h x y t

end Equation
end Isotherm
