import Isotherm.Evaluation.Residual

/-!
# Two evaluations of one tree

The evaluator does not look at the values it computes with. So two evaluations of a tree, with other
arithmetics and other bindings, take the same steps: they read the same variables and stop at the
same node for the same cause, and if they do not stop, their values are related wherever the
bindings are that were read. From this follow all of these: a grid holds at each point the value of
that point, no fault depends on the point, and an evaluation that did not read the time has the same
value at all times.
-/

namespace Isotherm

namespace Reads

/-- What was read first was still read later. -/
instance : LE Reads :=
  ⟨fun s r => (s.x = true → r.x = true) ∧ (s.y = true → r.y = true) ∧ (s.t = true → r.t = true)⟩

theorem le_refl (s : Reads) : s ≤ s := ⟨id, id, id⟩

theorem le_trans {s r q : Reads} (h : s ≤ r) (h' : r ≤ q) : s ≤ q :=
  ⟨h'.1 ∘ h.1, h'.2.1 ∘ h.2.1, h'.2.2 ∘ h.2.2⟩

end Reads

theorem Coordinate.le_mark (c : Coordinate) (s : Reads) : s ≤ c.mark s := by
  cases c with
  | x => exact ⟨fun _ => rfl, id, id⟩
  | y => exact ⟨id, fun _ => rfl, id⟩
  | t => exact ⟨id, id, fun _ => rfl⟩

variable {α β : Type}

/-- Operations keep `R`: on related operands they have related results. -/
structure Arithmetic.Keeps (R : α → β → Prop) (A : Arithmetic α) (B : Arithmetic β) : Prop where
  constant (v : Float) : R (A.constant v) (B.constant v)
  negated {a b} (h : R a b) : R (A.negated a) (B.negated b)
  plus {a a' b b'} (h : R a b) (h' : R a' b') : R (A.plus a a') (B.plus b b')
  minus {a a' b b'} (h : R a b) (h' : R a' b') : R (A.minus a a') (B.minus b b')
  times {a a' b b'} (h : R a b) (h' : R a' b') : R (A.times a a') (B.times b b')
  dividedBy {a a' b b'} (h : R a b) (h' : R a' b') : R (A.dividedBy a a') (B.dividedBy b b')
  power {a a' b b'} (h : R a b) (h' : R a' b') : R (A.power a a') (B.power b b')
  remainder {a a' b b'} (h : R a b) (h' : R a' b') : R (A.remainder a a') (B.remainder b b')
  call (f : Function1) {a b} (h : R a b) : R (A.call f a) (B.call f b)
  call2 (f : Function2) {a a' b b'} (h : R a b) (h' : R a' b') : R (A.call2 f a a') (B.call2 f b b')

namespace Arithmetic

theorem keeps_true (A : Arithmetic α) (B : Arithmetic β) : Keeps (fun _ _ => True) A B := by
  constructor <;> intros <;> trivial

theorem keeps_eq (A : Arithmetic α) : Keeps Eq A A := by
  constructor <;> intros <;> subst_vars <;> rfl

/-- A field of doubles is computed with as the double at each of its points is. -/
theorem keeps_field_point {ι : Type} (i : ι) : Keeps (fun a v => a i = v) (field ι) point := by
  constructor <;> intros <;> subst_vars <;> rfl

end Arithmetic

/-- The variables that were read are bound to related values. -/
structure Bindings.Agree (R : α → β → Prop) (b : Bindings α) (b' : Bindings β) (r : Reads) :
    Prop where
  x (h : r.x = true) : R b.x b'.x
  y (h : r.y = true) : R b.y b'.y
  t (h : r.t = true) : R b.t b'.t

theorem Bindings.Agree.mono {R : α → β → Prop} {b : Bindings α} {b' : Bindings β} {s r : Reads}
    (h : b.Agree R b' r) (hsr : s ≤ r) : b.Agree R b' s :=
  ⟨fun hx => h.x (hsr.1 hx), fun hy => h.y (hsr.2.1 hy), fun ht => h.t (hsr.2.2 ht)⟩

theorem Bindings.Agree.value {R : α → β → Prop} {b : Bindings α} {b' : Bindings β} {s : Reads}
    {c : Coordinate} (h : b.Agree R b' (c.mark s)) : R (c.value b) (c.value b') := by
  cases c with
  | x => exact h.x rfl
  | y => exact h.y rfl
  | t => exact h.t rfl

namespace Evaluation

/-- How an evaluation ends, and what was read then, if `s` was read before. -/
def outcome (m : Evaluation α) (s : Reads) : Except Stop α × Reads :=
  StateT.run (ExceptT.run m) s

theorem outcome_bind (m : Evaluation α) (k : α → Evaluation β) (s : Reads) :
    (m >>= k).outcome s =
      match m.outcome s with
      | (.ok a, r) => (k a).outcome r
      | (.error c, r) => (.error c, r) := by
  unfold outcome ExceptT.run StateT.run
  simp only [bind, ExceptT.bind, ExceptT.mk, StateT.bind, ExceptT.bindCont]
  cases m s with
  | mk result r => cases result <;> rfl

/-- Two outcomes with the same reads, which hold all of `s`: two stops with the same cause, or two
values that `P` relates. -/
inductive Corresponds (P : Reads → α → β → Prop) (s : Reads) :
    Except Stop α × Reads → Except Stop β × Reads → Prop where
  | value {r : Reads} {a : α} {b : β} (hr : s ≤ r) (h : P r a b) :
      Corresponds P s (.ok a, r) (.ok b, r)
  | stop {r : Reads} (c : Stop) (hr : s ≤ r) : Corresponds P s (.error c, r) (.error c, r)

variable {P : Reads → α → β → Prop} {s r : Reads}

theorem Corresponds.after {o : Except Stop α × Reads} {o' : Except Stop β × Reads}
    (h : Corresponds P r o o') (hsr : s ≤ r) : Corresponds P s o o' := by
  cases h with
  | value hr h => exact .value (Reads.le_trans hsr hr) h
  | stop c hr => exact .stop c (Reads.le_trans hsr hr)

theorem corresponds_pure {a : α} {b : β} (h : P s a b) :
    Corresponds P s (outcome (pure a) s) (outcome (pure b) s) :=
  .value (Reads.le_refl s) h

theorem corresponds_throw (c : Stop) :
    Corresponds P s (outcome (throw c : Evaluation α) s) (outcome (throw c : Evaluation β) s) :=
  .stop c (Reads.le_refl s)

theorem corresponds_bind {γ δ : Type} {Q : Reads → γ → δ → Prop} {m : Evaluation α}
    {m' : Evaluation β} {k : α → Evaluation γ} {k' : β → Evaluation δ}
    (h : Corresponds P s (m.outcome s) (m'.outcome s))
    (hk : ∀ r a b, s ≤ r → P r a b → Corresponds Q r ((k a).outcome r) ((k' b).outcome r)) :
    Corresponds Q s ((m >>= k).outcome s) ((m' >>= k').outcome s) := by
  rw [outcome_bind, outcome_bind]
  generalize m.outcome s = o at h
  generalize m'.outcome s = o' at h
  cases h with
  | value hr h => exact (hk _ _ _ hr h).after hr
  | stop c hr => exact .stop c hr

end Evaluation

section

open Evaluation

variable {R : α → β → Prop} {A : Arithmetic α} {B : Arithmetic β} {b : Bindings α}
  {b' : Bindings β}

/-- The values are related where the bindings are that were read. -/
def Bindings.Lifts (R : α → β → Prop) (b : Bindings α) (b' : Bindings β) (r : Reads) (v : α)
    (v' : β) : Prop :=
  b.Agree R b' r → R v v'

theorem Expr.corresponds_readVariable (h : Arithmetic.Keeps R A B) (name : String) (s : Reads) :
    Corresponds (b.Lifts R b') s ((readVariable A b name).outcome s)
      ((readVariable B b' name).outcome s) := by
  unfold readVariable
  split
  · exact .value (Coordinate.le_mark _ s) fun hb => hb.value
  · exact corresponds_pure fun _ => h.constant 0.0

/-- Evaluations of one tree correspond. -/
theorem Expr.corresponds_evaluate (h : Arithmetic.Keeps R A B) (strict : Bool) (e : Expr)
    (s : Reads) :
    Corresponds (b.Lifts R b') s ((e.evaluate A strict b).outcome s)
      ((e.evaluate B strict b').outcome s) := by
  -- What the bindings agree on at the end, they agreed on before: reads only grow.
  induction e generalizing s with
  | number v => exact corresponds_pure fun _ => h.constant v
  | var name => exact corresponds_readVariable h name s
  | binary l o r ihl ihr =>
    refine corresponds_bind (ihl s) fun s₁ left left' _ hl => ?_
    refine corresponds_bind (ihr s₁) fun s₂ right right' hs₂ hr => ?_
    cases o with
    | add => exact corresponds_pure fun hb => h.plus (hr hb) (hl (hb.mono hs₂))
    | subtract => exact corresponds_pure fun hb => h.minus (hr hb) (hl (hb.mono hs₂))
    | multiply => exact corresponds_pure fun hb => h.times (hr hb) (hl (hb.mono hs₂))
    | divide => exact corresponds_pure fun hb => h.dividedBy (hr hb) (hl (hb.mono hs₂))
    | power => exact corresponds_pure fun hb => h.power (hl (hb.mono hs₂)) (hr hb)
    | remainder => exact corresponds_pure fun hb => h.remainder (hl (hb.mono hs₂)) (hr hb)
    | unknown symbol => exact corresponds_throw _
  | negate e ih =>
    refine corresponds_bind (ih s) fun s₁ v v' _ hv => ?_
    exact corresponds_pure fun hb => h.negated (hv hb)
  | brackets e ih => exact ih s
  | call name e ih =>
    refine corresponds_bind (ih s) fun s₁ v v' _ hv => ?_
    cases Function1.ofName? name with
    | some f => exact corresponds_pure fun hb => h.call f (hv hb)
    | none =>
      cases strict with
      | true => exact corresponds_throw _
      | false => exact corresponds_pure hv
  | call2 name l r infixed ihl ihr =>
    refine corresponds_bind (ihl s) fun s₁ left left' _ hl => ?_
    refine corresponds_bind (ihr s₁) fun s₂ right right' hs₂ hr => ?_
    cases Function2.ofName? name with
    | some f => exact corresponds_pure fun hb => h.call2 f (hl (hb.mono hs₂)) (hr hb)
    | none =>
      cases strict with
      | true => exact corresponds_throw _
      | false => exact corresponds_pure fun hb => hl (hb.mono hs₂)
  | foreign => exact corresponds_throw _

/-- Evaluations of the sides of one equation correspond. -/
theorem Equation.corresponds_run (h : Arithmetic.Keeps R A B) (b : Bindings α) (b' : Bindings β)
    (strict : Bool) (lhs rhs : Expr) :
    Corresponds (b.Lifts R b') .none (run A strict b lhs rhs) (run B strict b' lhs rhs) := by
  refine corresponds_bind (rhs.corresponds_evaluate h strict .none) fun s₁ right right' _ hr => ?_
  refine corresponds_bind (lhs.corresponds_evaluate h strict s₁) fun s₂ left left' hs₂ hl => ?_
  exact corresponds_pure fun hb => h.minus (hr (hb.mono hs₂)) (hl hb)

end

/-! ## What does not depend on the point -/

namespace Equation

/-- A fault depends on the tree alone: it has the same cause with any bindings, after the same
variables were read. -/
theorem run_eq_error {A : Arithmetic α} {b : Bindings α} {strict : Bool} {lhs rhs : Expr}
    {c : Stop} {r : Reads} (h : run A strict b lhs rhs = (.error c, r)) (B : Arithmetic β)
    (b' : Bindings β) : run B strict b' lhs rhs = (.error c, r) := by
  have hrun := corresponds_run (A.keeps_true B) b b' strict lhs rhs
  rw [h] at hrun
  generalize run B strict b' lhs rhs = o at hrun ⊢
  cases hrun
  rfl

/-- An evaluation that did not read the time has the same outcome at all times. -/
theorem run_of_time_unread {A : Arithmetic α} {b : Bindings α} {strict : Bool} {lhs rhs : Expr}
    (h : (run A strict b lhs rhs).2.t = false) (t : α) :
    run A strict { b with t } lhs rhs = run A strict b lhs rhs := by
  have hrun := corresponds_run A.keeps_eq b { b with t } strict lhs rhs
  generalize run A strict b lhs rhs = o at h hrun ⊢
  generalize run A strict { b with t } lhs rhs = o' at hrun ⊢
  cases hrun with
  | stop c hr => rfl
  | value hr hv =>
    have hagree := hv ⟨fun _ => rfl, fun _ => rfl, fun ht => absurd ht (Bool.eq_false_iff.mp h)⟩
    rw [hagree]

end Equation

/-- The bindings of one point among those of many. -/
def Bindings.at {ι : Type} (b : Bindings (ι → Float)) (i : ι) : Bindings Float :=
  ⟨b.x i, b.y i, b.t i⟩

/-- A field of values holds at each point what that point has on its own. -/
theorem Equation.run_point {ι : Type} (b : Bindings (ι → Float)) (strict : Bool) (lhs rhs : Expr)
    (i : ι) : run .point strict (b.at i) lhs rhs =
      ((run (.field ι) strict b lhs rhs).1.map (· i), (run (.field ι) strict b lhs rhs).2) := by
  have hrun := corresponds_run (Arithmetic.keeps_field_point i) b (b.at i) strict lhs rhs
  generalize run (.field ι) strict b lhs rhs = o at hrun ⊢
  generalize run .point strict (b.at i) lhs rhs = o' at hrun ⊢
  cases hrun with
  | stop c hr => rfl
  | value hr hv =>
    have hvalue := hv ⟨fun _ => rfl, fun _ => rfl, fun _ => rfl⟩
    rw [← hvalue]
    rfl

end Isotherm
