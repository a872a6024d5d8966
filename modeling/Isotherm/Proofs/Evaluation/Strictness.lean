import Isotherm.Proofs.Evaluation.ReadTracking
import Isotherm.Proofs.Number.Integers

/-!
# Strict and recovering evaluations

A strict evaluation and one that recovers part ways at one kind of node only: at a call of a
function that is not known, the strict one stops and the other goes on with the first argument. So
they end alike, or the strict one ends at such a call. Where the strict one ends at another node,
that node is the first that the other cannot compute either, and both have read what stands in front
of it.
-/

namespace Isotherm

namespace Expr

/-! ## The first node that cannot be computed -/

/-- A call of a function that is not known with that many arguments. -/
def CallsUnknown (name : String) (arity : Nat) : Expr → Prop
  | call other _ => Function1.ofName? other = none ∧ other = name ∧ 1 = arity
  | call2 other _ _ _ => Function2.ofName? other = none ∧ other = name ∧ 2 = arity
  | _ => False

theorem stop?_eq_unknownFunction_iff (node : Expr) (name : String) (arity : Nat) :
    node.stop? true = some (.unknownFunction name arity) ↔ node.CallsUnknown name arity := by
  cases node with
  | binary l o r => cases o <;> simp [stop?, CallsUnknown]
  | call other e => cases hname : Function1.ofName? other <;> simp [stop?, CallsUnknown, hname]
  | call2 other l r infixed =>
    cases hname : Function2.ofName? other <;> simp [stop?, CallsUnknown, hname]
  | _ => simp [stop?, CallsUnknown]

/-- A node stops both evaluations or neither, unless it calls an unknown function. -/
theorem stop?_strict_eq_or (node : Expr) :
    node.stop? true = node.stop? false ∨
      node.stop? false = none ∧
        ∃ name arity, node.stop? true = some (.unknownFunction name arity) := by
  cases node with
  | call name e =>
    cases hname : Function1.ofName? name with
    | some f => exact .inl (by simp [stop?, hname])
    | none => exact .inr ⟨rfl, name, 1, by simp [stop?, hname]⟩
  | call2 name l r infixed =>
    cases hname : Function2.ofName? name with
    | some f => exact .inl (by simp [stop?, hname])
    | none => exact .inr ⟨rfl, name, 2, by simp [stop?, hname]⟩
  | binary l o r => cases o <;> exact .inl rfl
  | _ => exact .inl rfl

/-- `node` is the first of `nodes` that cannot be computed, `before` are those in front of it. -/
structure FirstStop (strict : Bool) (nodes before : List Expr) (node : Expr) (cause : Stop) :
    Prop where
  inside : ∃ after, nodes = before ++ node :: after
  computed : ∀ other ∈ before, other.stop? strict = none
  stops : node.stop? strict = some cause

variable {strict : Bool} {nodes before : List Expr} {node : Expr} {cause : Stop}

theorem findSome?_stop?_iff : nodes.findSome? (stop? strict) = some cause ↔
    ∃ before node, FirstStop strict nodes before node cause := by
  rw [List.findSome?_eq_some_iff]
  constructor
  · intro h
    obtain ⟨before, node, after, hnodes, hstops, hcomputed⟩ := h
    exact ⟨before, node, ⟨after, hnodes⟩, hcomputed, hstops⟩
  · intro h
    obtain ⟨before, node, ⟨after, hnodes⟩, hcomputed, hstops⟩ := h
    exact ⟨before, node, after, hnodes, hstops, hcomputed⟩

theorem FirstStop.reached_eq (h : FirstStop strict nodes before node cause) :
    reached strict nodes = before := by
  obtain ⟨after, rfl⟩ := h.inside
  have hbefore : ∀ other ∈ before, (other.stop? strict).isNone = true :=
    fun other hother => Option.isNone_iff_eq_none.mpr (h.computed other hother)
  rw [reached, List.takeWhile_append_of_pos hbefore, List.takeWhile_cons_of_neg (by simp [h.stops]),
    List.append_nil]

/-- The first node that stops a strict evaluation, if it calls no unknown function, is also the
first that stops the other. -/
theorem FirstStop.recovering (h : FirstStop true nodes before node cause)
    (hcause : ∀ name arity, cause ≠ .unknownFunction name arity) :
    FirstStop false nodes before node cause := by
  refine ⟨h.inside, fun other hother => ?_, ?_⟩
  · obtain hsame | ⟨hnone, -⟩ := stop?_strict_eq_or other
    · exact hsame.symm.trans (h.computed other hother)
    · exact hnone
  · obtain hsame | ⟨-, name, arity, hunknown⟩ := stop?_strict_eq_or node
    · exact hsame.symm.trans h.stops
    · exact absurd (Option.some.inj (h.stops.symm.trans hunknown)) (hcause name arity)

end Expr

/-! ## Two evaluations side by side -/

namespace Evaluation

variable {α β : Type}

/-- How the end of a strict evaluation stands to that of one that recovers: they are one, or the
strict one ends at a call of an unknown function. -/
inductive Refines : Except Stop α × Reads → Except Stop α × Reads → Prop where
  | alike (o : Except Stop α × Reads) : Refines o o
  | unknown (name : String) (arity : Nat) (r : Reads) (o : Except Stop α × Reads) :
      Refines (.error (.unknownFunction name arity), r) o

theorem refines_bind {m m' : Evaluation α} {k k' : α → Evaluation β} {s : Reads}
    (h : Refines (m.outcome s) (m'.outcome s))
    (hk : ∀ a r, Refines ((k a).outcome r) ((k' a).outcome r)) :
    Refines ((m >>= k).outcome s) ((m' >>= k').outcome s) := by
  rw [outcome_bind, outcome_bind]
  generalize m.outcome s = o at h
  generalize m'.outcome s = o' at h
  cases h with
  | alike =>
    obtain ⟨a | c, r⟩ := o
    · exact .alike _
    · exact hk _ r
  | unknown name arity r => exact .unknown name arity r _

end Evaluation

namespace Expr

open Evaluation

/-- The evaluations of one tree end alike, unless the strict one meets an unknown function. -/
theorem refines_evaluate {α : Type} (A : Arithmetic α) (b : Bindings α) (e : Expr) (s : Reads) :
    Refines ((e.evaluate A true b).outcome s) ((e.evaluate A false b).outcome s) := by
  induction e generalizing s with
  | number v => exact .alike _
  | var name => exact .alike _
  | binary l o r ihl ihr =>
    apply refines_bind (ihl s)
    intro left s₁
    apply refines_bind (ihr s₁)
    intro right s₂
    exact .alike _
  | negate e ih =>
    apply refines_bind (ih s)
    intro value s₁
    exact .alike _
  | brackets e ih => exact ih s
  | call name e ih =>
    apply refines_bind (ih s)
    intro value s₁
    cases Function1.ofName? name with
    | some f => exact .alike _
    | none => exact .unknown name 1 s₁ _
  | call2 name l r infixed ihl ihr =>
    apply refines_bind (ihl s)
    intro first s₁
    apply refines_bind (ihr s₁)
    intro second s₂
    cases Function2.ofName? name with
    | some f => exact .alike _
    | none => exact .unknown name 2 s₂ _
  | foreign => exact .alike _

end Expr

namespace Equation

open Evaluation

theorem refines_run {α : Type} (A : Arithmetic α) (b : Bindings α) (lhs rhs : Expr) :
    Refines (run A true b lhs rhs) (run A false b lhs rhs) := by
  apply refines_bind (rhs.refines_evaluate A b .none)
  intro right s₁
  apply refines_bind (lhs.refines_evaluate A b s₁)
  intro left s₂
  exact .alike _

/-- The strict run of two sides ends in a value only if the other ends in the same value after the
same reads. -/
theorem run_eq_ok_of_strict {α : Type} {A : Arithmetic α} {b : Bindings α} {lhs rhs : Expr} {v : α}
    {r : Reads} (h : run A true b lhs rhs = (.ok v, r)) : run A false b lhs rhs = (.ok v, r) := by
  have hrefines := refines_run A b lhs rhs
  rw [h] at hrefines
  generalize run A false b lhs rhs = o at hrefines ⊢
  cases hrefines
  rfl

theorem run_eq_error_of_strict {α : Type} {A : Arithmetic α} {b : Bindings α} {lhs rhs : Expr}
    {cause : Stop} {r : Reads} (h : run A true b lhs rhs = (.error cause, r))
    (hcause : ∀ name arity, cause ≠ .unknownFunction name arity) :
    run A false b lhs rhs = (.error cause, r) := by
  have hrefines := refines_run A b lhs rhs
  rw [h] at hrefines
  generalize run A false b lhs rhs = o at hrefines ⊢
  cases hrefines with
  | alike => rfl
  | unknown name arity => exact absurd rfl (hcause name arity)

/-! ## Residuals -/

/-- The sides of an equation, and the doubles that they are evaluated at. -/
structure Posed (e : Equation) (x y t : Scalar) (lhs rhs : Expr) (b : Bindings Float) : Prop where
  sides : e.sides? = some (lhs, rhs)
  x : x.toFloat? = some b.x
  y : y.toFloat? = some b.y
  t : t.toFloat? = some b.t

section

variable {e : Equation} {x y t : Scalar} {lhs rhs : Expr} {b : Bindings Float} {r : Reads}

theorem Posed.readsAt_eq (h : e.Posed x y t lhs rhs b) (strict : Bool) :
    e.readsAt strict x y t = some (run .point strict b lhs rhs).2 := by
  simp only [readsAt, h.x, h.y, h.t, h.sides]

theorem Posed.residualAt_recovering (h : e.Posed x y t lhs rhs b) :
    e.residualAt false x y t = .ok (residual lhs rhs b.x b.y b.t) := by
  simp [residualAt, h.x, h.y, h.t, h.sides]

theorem Posed.residualAt_of_ok (h : e.Posed x y t lhs rhs b) {strict : Bool} {v : Float}
    (hrun : run .point strict b lhs rhs = (.ok v, r)) :
    e.residualAt strict x y t = .ok ⟨v, r.t, none⟩ := by
  cases strict <;>
    simp [residualAt, h.x, h.y, h.t, h.sides, residual, strictResidual, hrun]

theorem Posed.residualAt_of_unknown (h : e.Posed x y t lhs rhs b) {name : String} {arity : Nat}
    (hrun : run .point true b lhs rhs = (.error (.unknownFunction name arity), r)) :
    e.residualAt true x y t = .error (.unknownFunction name arity) := by
  simp [residualAt, h.x, h.y, h.t, h.sides, strictResidual, hrun]

theorem Posed.residualAt_of_fault (h : e.Posed x y t lhs rhs b) {cause : Stop}
    (hcause : ∀ name arity, cause ≠ .unknownFunction name arity)
    (hrun : run .point true b lhs rhs = (.error cause, r)) :
    e.residualAt true x y t = .error (.fault x y t cause) := by
  cases cause with
  | unknownFunction name arity => exact absurd rfl (hcause name arity)
  | _ => simp [residualAt, h.x, h.y, h.t, h.sides, strictResidual, hrun]

/-- A strict evaluation gives a residual, meets an unknown function, or faults. -/
theorem Posed.residualAt_strict_cases (h : e.Posed x y t lhs rhs b) :
    (∃ v r, run .point true b lhs rhs = (.ok v, r) ∧
      e.residualAt true x y t = .ok ⟨v, r.t, none⟩) ∨
    (∃ name arity r, run .point true b lhs rhs = (.error (.unknownFunction name arity), r) ∧
      e.residualAt true x y t = .error (.unknownFunction name arity)) ∨
    ∃ cause r, (∀ name arity, cause ≠ .unknownFunction name arity) ∧
      run .point true b lhs rhs = (.error cause, r) ∧
      e.residualAt true x y t = .error (.fault x y t cause) := by
  cases hrun : run .point true b lhs rhs with
  | mk outcome r =>
    cases outcome with
    | ok v => exact .inl ⟨v, r, rfl, h.residualAt_of_ok hrun⟩
    | error cause =>
      by_cases hcause : ∃ name arity, cause = .unknownFunction name arity
      · obtain ⟨name, arity, rfl⟩ := hcause
        exact .inr (.inl ⟨name, arity, r, rfl, h.residualAt_of_unknown hrun⟩)
      · have hfault : ∀ name arity, cause ≠ .unknownFunction name arity :=
          fun name arity heq => hcause ⟨name, arity, heq⟩
        exact .inr (.inr ⟨cause, r, hfault, rfl, h.residualAt_of_fault hfault hrun⟩)

/-- A residual of the strict evaluation is that of the other, which recovered from nothing. -/
theorem Posed.recovering_of_ok (h : e.Posed x y t lhs rhs b) {result : Residual}
    (hresult : e.residualAt true x y t = .ok result) :
    result.recovered = none ∧ e.residualAt false x y t = .ok result := by
  obtain ⟨v, r, hrun, hok⟩ | ⟨_, _, _, _, herror⟩ | ⟨_, _, _, _, herror⟩ :=
    h.residualAt_strict_cases
  · have hrecovering := h.residualAt_of_ok (run_eq_ok_of_strict hrun)
    obtain rfl := Except.ok.inj (hok.symm.trans hresult)
    exact ⟨rfl, hrecovering⟩
  · cases herror.symm.trans hresult
  · cases herror.symm.trans hresult

/-- Where the strict evaluation faults, the other recovers from the same fault at the same node,
after the same reads. -/
theorem Posed.recovering_of_fault (h : e.Posed x y t lhs rhs b) {x' y' t' : Scalar} {cause : Stop}
    (hfault : e.residualAt true x y t = .error (.fault x' y' t' cause)) :
    ∃ reads before node,
      e.residualAt false x y t = .ok ⟨0.0, reads.t, some cause⟩ ∧
      (∀ strict, e.readsAt strict x y t = some reads) ∧
      (∀ strict, Expr.FirstStop strict (postorder lhs rhs) before node cause) ∧
      ∀ c, reads.has c = true ↔ ∃ name ∈ c.spellings, Expr.var name ∈ before := by
  obtain ⟨_, _, _, hok⟩ | ⟨_, _, _, _, hunknown⟩ | ⟨cause, r, hcause, hrun, herror⟩ :=
    h.residualAt_strict_cases
  · cases hok.symm.trans hfault
  · cases hunknown.symm.trans hfault
  · cases herror.symm.trans hfault
    have hother := run_eq_error_of_strict hrun hcause
    have hstop : (postorder lhs rhs).findSome? (Expr.stop? true) = some cause :=
      (stop_run .point true b lhs rhs cause).mp (by rw [hrun])
    obtain ⟨before, node, hfirst⟩ := Expr.findSome?_stop?_iff.mp hstop
    refine ⟨r, before, node, ?_, ?_, ?_, ?_⟩
    · rw [h.residualAt_recovering, residual, hother]
    · intro strict
      rw [h.readsAt_eq]
      cases strict with
      | true => rw [hrun]
      | false => rw [hother]
    · intro strict
      cases strict with
      | true => exact hfirst
      | false => exact hfirst.recovering hcause
    · intro c
      have hreads := has_run .point true b lhs rhs c
      rwa [hrun, hfirst.reached_eq] at hreads

/-- A strict evaluation meets an unknown function if the first node that it cannot compute is a call
of one, and only then. -/
theorem Posed.unknownFunction_iff (h : e.Posed x y t lhs rhs b) (name : String) (arity : Nat) :
    e.residualAt true x y t = .error (.unknownFunction name arity) ↔
      ∃ before node, node.CallsUnknown name arity ∧
        Expr.FirstStop true (postorder lhs rhs) before node (.unknownFunction name arity) := by
  have hrun : e.residualAt true x y t = .error (.unknownFunction name arity) ↔
      (run .point true b lhs rhs).1 = .error (.unknownFunction name arity) := by
    obtain ⟨v, r, hrun, hok⟩ | ⟨name', arity', r, hrun, hunknown⟩ |
      ⟨cause, r, hcause, hrun, herror⟩ := h.residualAt_strict_cases
    · rw [hok, hrun]
      simp
    · rw [hunknown, hrun]
      simp
    · rw [herror, hrun]
      simpa using hcause name arity
  rw [hrun, stop_run, Expr.findSome?_stop?_iff]
  constructor
  · intro hstop
    obtain ⟨before, node, hfirst⟩ := hstop
    have hcalls := (Expr.stop?_eq_unknownFunction_iff node name arity).mp hfirst.stops
    exact ⟨before, node, hcalls, hfirst⟩
  · intro hcalls
    obtain ⟨before, node, -, hfirst⟩ := hcalls
    exact ⟨before, node, hfirst⟩

end

/-- Without both sides, no evaluation takes place in either mode. -/
theorem residualAt_of_unbound {e : Equation} (hb : e.isBound = false) {x y t : Scalar}
    (hx : x.toFloat? ≠ none) (hy : y.toFloat? ≠ none) (ht : t.toFloat? ≠ none) (strict : Bool) :
    e.residualAt strict x y t = .error .unbound ∧ e.readsAt strict x y t = none := by
  obtain ⟨x', hx⟩ := Option.ne_none_iff_exists'.mp hx
  obtain ⟨y', hy⟩ := Option.ne_none_iff_exists'.mp hy
  obtain ⟨t', ht⟩ := Option.ne_none_iff_exists'.mp ht
  have hsides : e.sides? = none := by simpa [isBound] using hb
  constructor
  · simp only [residualAt, hx, hy, ht, hsides]
  · simp only [readsAt, hx, hy, ht, hsides]

/-- The strict evaluation refines the recovering one, at all coordinates that are doubles. The
recovering one always gives a residual; a residual of the strict one is the same residual, without a
fault; where the strict one faults, the other recovers at the same node after the same reads; and
the strict one meets an unknown function only where a call of one comes before any fault. An unbound
equation fails alike in both, and is not evaluated, and so does any at other coordinates. -/
theorem strict_refines_recovering (e : Equation) (x y t : Scalar) :
    (x.toFloat? ≠ none → y.toFloat? ≠ none → t.toFloat? ≠ none →
      (e.isBound = true → ∃ lhs rhs, e.sides? = some (lhs, rhs) ∧
        (∃ result, e.residualAt false x y t = .ok result) ∧
        (∀ result, e.residualAt true x y t = .ok result →
          result.recovered = none ∧ e.residualAt false x y t = .ok result) ∧
        (∀ x' y' t' cause, e.residualAt true x y t = .error (.fault x' y' t' cause) →
          ∃ reads before node,
            e.residualAt false x y t = .ok ⟨0.0, reads.t, some cause⟩ ∧
            (∀ strict, e.readsAt strict x y t = some reads) ∧
            (∀ strict, Expr.FirstStop strict (postorder lhs rhs) before node cause) ∧
            ∀ c, reads.has c = true ↔ ∃ name ∈ c.spellings, Expr.var name ∈ before) ∧
        ∀ name arity, e.residualAt true x y t = .error (.unknownFunction name arity) ↔
          ∃ before node, node.CallsUnknown name arity ∧
            Expr.FirstStop true (postorder lhs rhs) before node (.unknownFunction name arity)) ∧
      (e.isBound = false → ∀ strict,
        e.residualAt strict x y t = .error .unbound ∧ e.readsAt strict x y t = none)) ∧
    (x.toFloat? = none ∨ y.toFloat? = none ∨ t.toFloat? = none → ∀ strict,
      e.residualAt strict x y t = .error .overflow ∧ e.readsAt strict x y t = none) := by
  refine ⟨fun hx hy ht => ⟨?_, ?_⟩, fun h _ => ⟨residualAt_of_overflow h e, readsAt_of_overflow h e⟩⟩
  · intro hb
    obtain ⟨⟨lhs, rhs⟩, hsides⟩ := Option.isSome_iff_exists.mp hb
    obtain ⟨x', hx⟩ := Option.ne_none_iff_exists'.mp hx
    obtain ⟨y', hy⟩ := Option.ne_none_iff_exists'.mp hy
    obtain ⟨t', ht⟩ := Option.ne_none_iff_exists'.mp ht
    have hposed : e.Posed x y t lhs rhs ⟨x', y', t'⟩ := ⟨hsides, hx, hy, ht⟩
    refine ⟨lhs, rhs, hsides, ⟨_, hposed.residualAt_recovering⟩, ?_, ?_, ?_⟩
    · intro result hresult
      exact hposed.recovering_of_ok hresult
    · intro _ _ _ cause hfault
      exact hposed.recovering_of_fault hfault
    · intro name arity
      exact hposed.unknownFunction_iff name arity
  · intro hb strict
    exact residualAt_of_unbound hb hx hy ht strict

/-- `Foo(T) = x & Y`: the fault on the right comes before the unknown function on the left, so
nothing but `x` and `Y` is read. -/
theorem strict_refines_recovering_fault :
    let lhs := Expr.call "Foo" (.var "T")
    let rhs := Expr.binary (.var "x") (.unknown "&") (.var "Y")
    let x := Scalar.real 0.5
    let y := Scalar.integer 1
    let t := Scalar.integer (-2)
    (x.toFloat? ≠ none ∧ y.toFloat? ≠ none ∧ t.toFloat? ≠ none) ∧
      (ofSides lhs rhs).residualAt true x y t = .error (.fault x y t (.unknownOperator "&")) ∧
      ∃ reads before node,
        (ofSides lhs rhs).residualAt false x y t =
          .ok ⟨0.0, reads.t, some (.unknownOperator "&")⟩ ∧
        (∀ strict, (ofSides lhs rhs).readsAt strict x y t = some reads) ∧
        (∀ strict, Expr.FirstStop strict (postorder lhs rhs) before node (.unknownOperator "&")) ∧
        ∀ c, reads.has c = true ↔ ∃ name ∈ c.spellings, Expr.var name ∈ before := by
  intro lhs rhs x y t
  have hy : y.toFloat? = some (Integral.ofInt 1) := Scalar.toFloat?_integer (by decide)
  have ht : t.toFloat? = some (Integral.ofInt (-2)) := Scalar.toFloat?_integer (by decide)
  have hposed : (ofSides lhs rhs).Posed x y t lhs rhs
      ⟨0.5, Integral.ofInt 1, Integral.ofInt (-2)⟩ := ⟨rfl, rfl, hy, ht⟩
  have hfault : (ofSides lhs rhs).residualAt true x y t =
      .error (.fault x y t (.unknownOperator "&")) :=
    hposed.residualAt_of_fault nofun (r := ⟨true, true, false⟩) rfl
  have hx' : x.toFloat? ≠ none := nofun
  have hy' : y.toFloat? ≠ none := by simp [hy]
  have ht' : t.toFloat? ≠ none := by simp [ht]
  obtain ⟨lhs', rhs', hsides, -, -, hrecovers, -⟩ :=
    ((strict_refines_recovering (ofSides lhs rhs) x y t).1 hx' hy' ht').1 rfl
  cases hsides
  exact ⟨⟨hx', hy', ht'⟩, hfault, hrecovers x y t _ hfault⟩

/-- No evaluation of `y = 0` takes place at a coordinate past the largest double, strict or not. -/
theorem evaluation_past_doubles :
    let e := ofSides (.var "y") (.number 0.0)
    e.isBound = true ∧ ∀ strict,
      e.residualAt strict (.integer (10 ^ 400)) (.integer 0) (.integer 0) = .error .overflow := by
  intro e
  have hnone : (Scalar.integer (10 ^ 400)).toFloat?.isNone = true := by decide +kernel
  have hx : (Scalar.integer (10 ^ 400)).toFloat? = none := Option.isNone_iff_eq_none.mp hnone
  exact ⟨rfl, fun _ => residualAt_of_overflow (.inl hx) e⟩

end Equation
end Isotherm
