import Isotherm.Proofs.Evaluation.Strictness
import Isotherm.Proofs.Formula.LetterCase

/-!
# Letter case in evaluations

A variable is found by its letter in either case, and a function by its name in any. So a tree and
the tree with all names in upper case are evaluated alike: they read the same variables and have the
same value or stop at the same node, and only the name that an unknown function is reported under
keeps its spelling.
-/

namespace Isotherm

/-! ## Names -/

theorem caseKey_toUpper (name : String) : caseKey name.toUpper = caseKey name := by
  unfold caseKey
  rw [String.toUpper, String.toList_map, List.flatMap_map]
  simp only [latinUpper_toUpper]

theorem Coordinate.ofName?_toUpper (name : String) : ofName? name.toUpper = ofName? name := by
  rw [ofName?, caseKey_toUpper, ofName?]

theorem Function1.ofName?_toUpper (name : String) : ofName? name.toUpper = ofName? name := by
  rw [ofName?, caseKey_toUpper, ofName?]

theorem Function2.ofName?_toUpper (name : String) : ofName? name.toUpper = ofName? name := by
  rw [ofName?, caseKey_toUpper, ofName?]

/-- A stop that names a function in upper case. -/
def Stop.upper : Stop → Stop
  | unknownFunction name arity => unknownFunction name.toUpper arity
  | stop => stop

def ResidualError.upper : ResidualError → ResidualError
  | unknownFunction name arity => unknownFunction name.toUpper arity
  | error => error

/-! ## Evaluations -/

namespace Evaluation

variable {α β : Type}

/-- The end of an evaluation, with its stop in upper case. -/
def upperEnd (o : Except Stop α × Reads) : Except Stop α × Reads :=
  (o.1.mapError Stop.upper, o.2)

theorem outcome_bind_upper {m m' : Evaluation α} {k k' : α → Evaluation β} {s : Reads}
    (h : m'.outcome s = upperEnd (m.outcome s))
    (hk : ∀ a r, (k' a).outcome r = upperEnd ((k a).outcome r)) :
    (m' >>= k').outcome s = upperEnd ((m >>= k).outcome s) := by
  rw [outcome_bind, outcome_bind, h]
  cases m.outcome s with
  | mk result r =>
    cases result with
    | ok a => exact hk a r
    | error stop => rfl

end Evaluation

namespace Expr

open Evaluation

variable {α : Type} (A : Arithmetic α) (strict : Bool) (b : Bindings α)

theorem outcome_upper (e : Expr) (s : Reads) :
    (e.upper.evaluate A strict b).outcome s = upperEnd ((e.evaluate A strict b).outcome s) := by
  induction e generalizing s with
  | number v => rfl
  | var name =>
    rw [upper, evaluate, evaluate, readVariable, readVariable, Coordinate.ofName?_toUpper]
    cases Coordinate.ofName? name <;> rfl
  | binary l o r ihl ihr =>
    apply outcome_bind_upper (ihl s)
    intro left s₁
    apply outcome_bind_upper (ihr s₁)
    intro right s₂
    cases A.operator? o left right <;> rfl
  | negate e ih =>
    apply outcome_bind_upper (ih s)
    intro value s₁
    rfl
  | brackets e ih => exact ih s
  | call name e ih =>
    apply outcome_bind_upper (ih s)
    intro value s₁
    rw [Function1.ofName?_toUpper]
    cases Function1.ofName? name with
    | some f => rfl
    | none => cases strict <;> rfl
  | call2 name l r infixed ihl ihr =>
    apply outcome_bind_upper (ihl s)
    intro first s₁
    apply outcome_bind_upper (ihr s₁)
    intro second s₂
    rw [Function2.ofName?_toUpper]
    cases Function2.ofName? name with
    | some f => rfl
    | none => cases strict <;> rfl
  | foreign => rfl

/-- Without strictness no node stops an evaluation for its name. -/
theorem stop?_recovering_ne (node : Expr) (name : String) (arity : Nat) :
    node.stop? false ≠ some (.unknownFunction name arity) := by
  cases node with
  | binary l o r => cases o <;> simp [stop?]
  | _ => simp [stop?]

end Expr

namespace Equation

open Evaluation Grammar

theorem run_upper {α : Type} (A : Arithmetic α) (strict : Bool) (b : Bindings α) (lhs rhs : Expr) :
    run A strict b lhs.upper rhs.upper = upperEnd (run A strict b lhs rhs) := by
  apply outcome_bind_upper (rhs.outcome_upper A strict b .none)
  intro right s₁
  apply outcome_bind_upper (lhs.outcome_upper A strict b s₁)
  intro left s₂
  rfl

theorem run_recovering_ne {α : Type} {A : Arithmetic α} {b : Bindings α} {lhs rhs : Expr}
    {name : String} {arity : Nat} {r : Reads} :
    run A false b lhs rhs ≠ (.error (.unknownFunction name arity), r) := by
  intro h
  have hstop := (stop_run A false b lhs rhs (.unknownFunction name arity)).mp (by rw [h])
  obtain ⟨before, node, hfirst⟩ := Expr.findSome?_stop?_iff.mp hstop
  exact Expr.stop?_recovering_ne node name arity hfirst.stops

theorem residual_upper (lhs rhs : Expr) (x y t : Float) :
    residual lhs.upper rhs.upper x y t = residual lhs rhs x y t := by
  rw [residual, residual, run_upper]
  cases hrun : run .point false ⟨x, y, t⟩ lhs rhs with
  | mk result r =>
    cases result with
    | ok value => rfl
    | error stop =>
      cases stop with
      | unknownFunction name arity => exact absurd hrun run_recovering_ne
      | _ => rfl

theorem strictResidual_upper (lhs rhs : Expr) (x y t : Float) :
    strictResidual lhs.upper rhs.upper x y t =
      (strictResidual lhs rhs x y t).mapError Stop.upper := by
  rw [strictResidual, strictResidual, run_upper]
  cases run .point true ⟨x, y, t⟩ lhs rhs with
  | mk result r => cases result <;> rfl

theorem sides?_upper (e : Equation) :
    e.upper.sides? = e.sides?.map fun s => (s.1.upper, s.2.upper) := by
  obtain ⟨_ | lhs, _ | rhs⟩ := e <;> rfl

theorem readsAt_upper (e : Equation) (strict : Bool) (x y t : Scalar) :
    e.upper.readsAt strict x y t = e.readsAt strict x y t := by
  unfold readsAt
  rw [sides?_upper]
  cases x.toFloat? <;> cases y.toFloat? <;> cases t.toFloat? <;> cases e.sides? <;>
    simp only [Option.map_none, Option.map_some, run_upper, upperEnd]

/-- The equation with all names in upper case has the same residual, or the same error under a name
in upper case. -/
theorem residualAt_upper (e : Equation) (strict : Bool) (x y t : Scalar) :
    e.upper.residualAt strict x y t =
      (e.residualAt strict x y t).mapError ResidualError.upper := by
  unfold residualAt
  rw [sides?_upper]
  split
  next x' y' t' _ _ _ =>
    cases e.sides? with
    | none => rfl
    | some sides =>
      cases strict with
      | false =>
        simp only [Option.map_some, residual_upper, Bool.false_eq_true, if_false, Except.mapError]
      | true =>
        simp only [Option.map_some, strictResidual_upper, if_true]
        cases strictResidual sides.1 sides.2 x' y' t' with
        | ok r => simp only [Except.mapError]
        | error stop => cases stop <;> simp only [Except.mapError, Stop.upper, ResidualError.upper]
  next => rfl

/-- Letter case matters to no formula. Two texts that differ in the case of ASCII letters alone are
both equations or are both rejected at one position. The equations have one tree but for the case of
the names in it, and at every point, recovering or strict, they read the same variables and have the
same residual, or fail with the same error but for the case of the name in it. -/
theorem letter_case_never_matters {source source' : String}
    (h : source'.toUpper = source.toUpper) :
    (∃ e e', parse source = .ok e ∧ parse source' = .ok e' ∧ e'.upper = e.upper ∧
      ∀ strict x y t, e'.readsAt strict x y t = e.readsAt strict x y t ∧
        (e'.residualAt strict x y t).mapError ResidualError.upper =
          (e.residualAt strict x y t).mapError ResidualError.upper) ∨
    ∃ error error', parse source = .error error ∧ parse source' = .error error' ∧
      error'.position = error.position := by
  obtain ⟨e, e', he, he', hsame⟩ | hrejected := parse_of_toUpper_eq h
  · refine .inl ⟨e, e', he, he', hsame, fun strict x y t => ⟨?_, ?_⟩⟩
    · rw [← readsAt_upper e', hsame, readsAt_upper]
    · rw [← residualAt_upper, hsame, residualAt_upper]
  · exact .inr hrejected

/-- Variables, an exponent, and a function that is not known. -/
theorem letter_case_never_matters_names :
    "Y = FOO(t, 1e2)".toUpper = "y = foo(T, 1E2)".toUpper ∧
      ∃ e e', parse "y = foo(T, 1E2)" = .ok e ∧ parse "Y = FOO(t, 1e2)" = .ok e' ∧
        e'.upper = e.upper ∧ ∀ strict x y t,
          e'.readsAt strict x y t = e.readsAt strict x y t ∧
          (e'.residualAt strict x y t).mapError ResidualError.upper =
            (e.residualAt strict x y t).mapError ResidualError.upper := by
  have hcase : "Y = FOO(t, 1e2)".toUpper = "y = foo(T, 1E2)".toUpper := by
    rw [← String.toList_inj, String.toUpper, String.toUpper, String.toList_map, String.toList_map]
    decide
  let f : Token := ⟨.identifier, "foo", 4, trivial⟩
  let o : Token := ⟨.leftParenthesis, "(", 7, trivial⟩
  let m : Token := ⟨.comma, ",", 9, trivial⟩
  let c : Token := ⟨.rightParenthesis, ")", 14, trivial⟩
  let hundred : Token := ⟨.number, "1E2", 11, by decide +kernel⟩
  have htokens : Token.tokenize "y = foo(T, 1E2)" =
      .ok ([⟨.var, "y", 0, trivial⟩] ++ ⟨.equals, "=", 2, trivial⟩ ::
        (f :: o :: ([⟨.var, "T", 8, trivial⟩] ++ m :: ([hundred] ++ [c])))) := by cbv
  have hy : Derives expression [⟨.var, "y", 0, trivial⟩] (.var "y") :=
    (Derives.primary (.var rfl)).expression_of_unary
  have ht : Derives expression [⟨.var, "T", 8, trivial⟩] (.var "T") :=
    (Derives.primary (.var rfl)).expression_of_unary
  obtain ⟨v, hv⟩ := Token.exists_number? (t := hundred) rfl
  have hnumber : Derives expression [hundred] (.number v) :=
    (Derives.primary (.number hv)).expression_of_unary
  have hcall : Derives .primary (f :: o :: ([⟨.var, "T", 8, trivial⟩] ++ m :: ([hundred] ++ [c])))
      (.call2 f.text (.var "T") (.number v) false) :=
    .call2 rfl rfl ht rfl hnumber rfl
  have haccepted := (parse_eq_ok _ _).mpr
    ⟨_, htokens, .sides hy rfl (Derives.primary hcall).expression_of_unary⟩
  refine ⟨hcase, ?_⟩
  obtain haccepts | ⟨error, error', herror, -⟩ := letter_case_never_matters hcase
  · exact haccepts
  · cases herror.symm.trans haccepted

end Equation
end Isotherm
