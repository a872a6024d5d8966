import Isotherm.Proofs.Formula.Literals
import Isotherm.Proofs.Formula.NormalForm
import Isotherm.Symbolic.Engine

/-!
# What has no term

The nodes of a formula become terms one by one, by the operations of an algebra. A formula has no
operator but those of the grammar and no foreign node, so nothing stands in the way of its term, or
of its LaTeX, but an operation that the algebra refuses.
-/

namespace Isotherm

namespace Symbolic

variable {α β : Type}

/-- Whatever was asked for before, the computation fails with nothing but what satisfies `P`. -/
def FailsOnly (m : Symbolic α) (P : SymbolicError → Prop) : Prop :=
  ∀ engine cause, (m.run engine).1 = .error cause → P cause

variable {P : SymbolicError → Prop}

theorem failsOnly_pure (a : α) : FailsOnly (pure a) P := by
  intro engine cause h
  cases h

theorem failsOnly_lift (m : StateM Engine α) : FailsOnly (liftM m) P := by
  intro engine cause h
  cases h

theorem run_bind (m : Symbolic α) (k : α → Symbolic β) (engine : Engine) :
    (m >>= k).run engine =
      match m.run engine with
      | (.ok a, after) => (k a).run after
      | (.error e, after) => (.error e, after) := by
  show ExceptT.bindCont k (m.run engine).1 (m.run engine).2 = _
  cases m.run engine with
  | mk result after => cases result <;> rfl

theorem FailsOnly.bind {m : Symbolic α} {k : α → Symbolic β} (h : FailsOnly m P)
    (hk : ∀ a, FailsOnly (k a) P) : FailsOnly (m >>= k) P := by
  intro engine cause hcause
  rw [run_bind] at hcause
  split at hcause
  next a after _ => exact hk a after cause hcause
  next e after hm =>
    obtain rfl := Except.error.inj hcause
    exact h engine e (congrArg Prod.fst hm)

end Symbolic

/-- The algebra refuses an operation. -/
def SymbolicError.IsRefusal (cause : SymbolicError) : Prop :=
  ∃ refusal, cause = .refused refusal

section

open Symbolic

variable {τ : Type} (A : Algebra τ)

theorem failsOnly_ofResult {α : Type} (result : Except Refusal α) :
    FailsOnly (ofResult result) SymbolicError.IsRefusal := by
  cases result with
  | ok a => exact failsOnly_pure a
  | error refusal =>
    intro engine cause h
    obtain rfl := Except.error.inj h
    exact ⟨refusal, rfl⟩

namespace Expr

/-- An operator of the grammar is an operation of every algebra. -/
theorem exists_operation {o : Operator} (ho : o ∈ Operator.known) (l r : τ) :
    ∃ result, A.operator? o l r = some result := by
  simp only [Operator.known, List.mem_cons, List.not_mem_nil, or_false] at ho
  rcases ho with rfl | rfl | rfl | rfl | rfl | rfl
  all_goals exact ⟨_, rfl⟩

/-- A tree as formulas have them becomes a term unless an operation is refused. -/
theorem failsOnly_toTerm {e : Expr} (h : e.Named) :
    FailsOnly (e.toTerm A) SymbolicError.IsRefusal := by
  induction e with
  | number v => exact failsOnly_pure _
  | var name => exact (failsOnly_lift _).bind fun _ => failsOnly_pure _
  | binary l o r ihl ihr =>
    refine (ihl h.1).bind fun left => (ihr h.2.2).bind fun right => ?_
    obtain ⟨result, hresult⟩ := exists_operation A h.2.1 left right
    rw [hresult]
    exact failsOnly_ofResult result
  | negate e ih => exact (ih h).bind fun _ => failsOnly_ofResult _
  | brackets e ih => exact ih h
  | call name e ih =>
    refine (ih h.2).bind fun a => ?_
    split
    · split
      · exact failsOnly_ofResult _
      · exact (failsOnly_lift _).bind fun _ => failsOnly_ofResult _
    · exact failsOnly_pure _
  | call2 name l r infixed ihl ihr =>
    refine (ihl h.2.1).bind fun a => (ihr h.2.2).bind fun b => ?_
    split
    · split
      · exact failsOnly_ofResult _
      · exact (failsOnly_lift _).bind fun _ => failsOnly_ofResult _
    · exact failsOnly_pure _
  | foreign => exact h.elim

end Expr

namespace Equation

/-- The equation of a formula is written in LaTeX unless an operation is refused. -/
theorem failsOnly_latex {lhs rhs : Expr} (hl : lhs.Named) (hr : rhs.Named) :
    FailsOnly ((ofSides lhs rhs).latex A) SymbolicError.IsRefusal := by
  have hresidual : FailsOnly ((ofSides lhs rhs).residualTerm A) SymbolicError.IsRefusal :=
    (Expr.failsOnly_toTerm A hr).bind fun _ =>
      (Expr.failsOnly_toTerm A hl).bind fun _ => failsOnly_ofResult _
  exact hresidual.bind fun _ => (failsOnly_ofResult _).bind fun _ => failsOnly_pure _

end Equation

end
end Isotherm
