import Isotherm.Formula.Checked
import Isotherm.Proofs.Number.Bits

/-!
# Normal forms

A tree is normal where no two negations in it cancel. Simplifying makes every tree normal, although
a collapse may bring together negations that stood apart and may put brackets between others, and it
changes no tree that is normal already. So one pass is enough, and it is the identity exactly on the
normal trees.
-/

namespace Isotherm

namespace Expr

/-! ## What is inside a tree -/

/-- The tree itself and all trees inside it. -/
def subtrees : Expr → List Expr
  | number v => [number v]
  | var name => [var name]
  | binary l o r => binary l o r :: (l.subtrees ++ r.subtrees)
  | negate e => negate e :: e.subtrees
  | brackets e => brackets e :: e.subtrees
  | call name e => call name e :: e.subtrees
  | call2 name l r infixed => call2 name l r infixed :: (l.subtrees ++ r.subtrees)
  | foreign => [foreign]

/-- Two negations in a row, with at most one layer of brackets between them. -/
inductive DoubleNegation : Expr → Prop where
  | bare (e : Expr) : DoubleNegation (negate (negate e))
  | bracketed (e : Expr) : DoubleNegation (negate (brackets (negate e)))

/-- No two negations in the tree cancel. -/
def Normal (e : Expr) : Prop :=
  ∀ s ∈ e.subtrees, ¬s.DoubleNegation

theorem doubleNegation_negate {e : Expr} : (negate e).DoubleNegation ↔ e.isNegation = true := by
  rw [isNegation_iff]
  constructor
  · intro h
    cases h with
    | bare inner => exact ⟨inner, .inl rfl⟩
    | bracketed inner => exact ⟨inner, .inr rfl⟩
  · rintro ⟨inner, rfl | rfl⟩
    · exact .bare inner
    · exact .bracketed inner

/-- Where a tree is no negation, it is normal if all inside it is. -/
theorem normal_of_subtrees {e : Expr} {inside : List Expr} (hsub : e.subtrees = e :: inside)
    (he : e.isNegate = false) : e.Normal ↔ ∀ s ∈ inside, ¬s.DoubleNegation := by
  have hnot : ¬e.DoubleNegation := by
    intro h
    cases h <;> cases he
  unfold Normal
  rw [hsub, List.forall_mem_cons]
  exact and_iff_right hnot

@[simp] theorem normal_number (v : Float) : (number v).Normal :=
  (normal_of_subtrees rfl rfl).mpr (by simp)

@[simp] theorem normal_var (name : String) : (var name).Normal :=
  (normal_of_subtrees rfl rfl).mpr (by simp)

@[simp] theorem normal_foreign : foreign.Normal :=
  (normal_of_subtrees rfl rfl).mpr (by simp)

@[simp] theorem normal_negate {e : Expr} :
    (negate e).Normal ↔ e.isNegation = false ∧ e.Normal := by
  unfold Normal
  rw [subtrees, List.forall_mem_cons, doubleNegation_negate, Bool.not_eq_true]

@[simp] theorem normal_brackets {e : Expr} : (brackets e).Normal ↔ e.Normal :=
  normal_of_subtrees rfl rfl

@[simp] theorem normal_call {name : String} {e : Expr} : (call name e).Normal ↔ e.Normal :=
  normal_of_subtrees rfl rfl

@[simp] theorem normal_binary {l r : Expr} {o : Operator} :
    (binary l o r).Normal ↔ l.Normal ∧ r.Normal :=
  (normal_of_subtrees rfl rfl).trans List.forall_mem_append

@[simp] theorem normal_call2 {name : String} {l r : Expr} {infixed : Bool} :
    (call2 name l r infixed).Normal ↔ l.Normal ∧ r.Normal :=
  (normal_of_subtrees rfl rfl).trans List.forall_mem_append

/-- Whether a tree is normal can be computed. -/
instance decidableNormal : (e : Expr) → Decidable e.Normal
  | number v => .isTrue (normal_number v)
  | var name => .isTrue (normal_var name)
  | foreign => .isTrue normal_foreign
  | negate e =>
    have := decidableNormal e
    decidable_of_iff _ normal_negate.symm
  | brackets e =>
    have := decidableNormal e
    decidable_of_iff _ normal_brackets.symm
  | call _ e =>
    have := decidableNormal e
    decidable_of_iff _ normal_call.symm
  | binary l _ r =>
    have := decidableNormal l
    have := decidableNormal r
    decidable_of_iff _ normal_binary.symm
  | call2 _ l r _ =>
    have := decidableNormal l
    have := decidableNormal r
    decidable_of_iff _ normal_call2.symm

/-! ## Simplified trees are normal -/

theorem normal_regroup {grouped : Bool} {e : Expr} : (regroup grouped e).Normal ↔ e.Normal := by
  unfold regroup
  split
  · exact normal_brackets
  · exact Iff.rfl

/-- Simplifying makes no negation of what is none. -/
theorem isNegate_simplify {e : Expr} (h : e.isNegate = false) (grouped : Bool) :
    (e.simplify grouped).isNegate = false := by
  cases e with
  | negate e => cases h
  | number | var | binary | brackets | call | call2 | foreign => simp only [simplify, isNegate]

theorem isNegation_simplify {e : Expr} (h : e.isNegation = false) (grouped : Bool) :
    (e.simplify grouped).isNegation = false := by
  cases e with
  | negate e => cases h
  | brackets e =>
    rw [simplify]
    exact isNegate_simplify h false
  | number | var | binary | call | call2 | foreign => simp only [simplify, isNegation]

theorem normal_simplify (grouped : Bool) (e : Expr) : (e.simplify grouped).Normal := by
  fun_induction simplify grouped e with
  | case1 | case2 | case10 => simp
  | case3 grouped e ih | case4 grouped e ih => exact normal_regroup.mpr ih
  | case5 grouped e hbare hbracketed ih =>
    -- What the negation keeps below it was no negation before, and is none now.
    have he : e.isNegation = false := isNegation_eq_false hbare hbracketed
    exact normal_negate.mpr ⟨isNegation_simplify he false, ih⟩
  | case6 grouped e ih => exact normal_brackets.mpr ih
  | case7 grouped l o r ihl ihr => exact normal_binary.mpr ⟨ihl, ihr⟩
  | case8 grouped name e ih => exact normal_call.mpr ih
  | case9 grouped name l r infixed ihl ihr => exact normal_call2.mpr ⟨ihl, ihr⟩

/-- A normal tree stays as it is. -/
theorem simplify_of_normal {e : Expr} (h : e.Normal) (grouped : Bool) : e.simplify grouped = e := by
  fun_induction simplify grouped e with
  | case1 | case2 | case10 => rfl
  | case3 grouped e => cases (normal_negate.mp h).1
  | case4 grouped e => cases (normal_negate.mp h).1
  | case5 grouped e _ _ ih => rw [ih (normal_negate.mp h).2]
  | case6 grouped e ih => rw [ih (normal_brackets.mp h)]
  | case7 grouped l o r ihl ihr => rw [ihl (normal_binary.mp h).1, ihr (normal_binary.mp h).2]
  | case8 grouped name e ih => rw [ih (normal_call.mp h)]
  | case9 grouped name l r infixed ihl ihr =>
    rw [ihl (normal_call2.mp h).1, ihr (normal_call2.mp h).2]

theorem hasForeign_simplify (grouped : Bool) (e : Expr) :
    (e.simplify grouped).hasForeign = e.hasForeign := by
  have hregroup (grouped : Bool) (e : Expr) : (regroup grouped e).hasForeign = e.hasForeign := by
    unfold regroup
    split <;> rfl
  fun_induction simplify grouped e with
  | case1 | case2 | case10 => rfl
  | case3 grouped e ih | case4 grouped e ih => exact (hregroup grouped _).trans ih
  | case5 grouped e _ _ ih | case6 grouped e ih | case8 grouped name e ih => exact ih
  | case7 grouped l o r ihl ihr | case9 grouped name l r infixed ihl ihr =>
    simp only [hasForeign, ihl, ihr]

theorem checkedSimplify_eq_ok {e : Expr} (h : e.hasForeign = false) (grouped : Bool) :
    e.checkedSimplify grouped = .ok (e.simplify grouped) := by
  rw [checkedSimplify, guarded, h]
  rfl

/-! ## Trees of one shape -/

section

variable {agree : Float → Float → Bool}

theorem matching_refl (hagree : ∀ v, agree v v = true) (e : Expr) : e.matching agree e = true := by
  induction e with
  | number v => exact hagree v
  | var | foreign => simp [matching]
  | negate e ih | brackets e ih => exact ih
  | call name e ih => simp [matching, ih]
  | binary l o r ihl ihr | call2 name l r infixed ihl ihr => simp [matching, ihl, ihr]

/-- Trees of one shape cancel in the same places. -/
theorem isNegate_of_matching {a b : Expr} (h : a.matching agree b = true) :
    a.isNegate = b.isNegate := by
  cases a <;> cases b <;> first | rfl | cases h

theorem isNegation_of_matching {a b : Expr} (h : a.matching agree b = true) :
    a.isNegation = b.isNegation := by
  cases a <;> cases b <;> first | rfl | cases h | exact isNegate_of_matching h

theorem normal_of_matching {a b : Expr} (h : a.matching agree b = true) (ha : a.Normal) :
    b.Normal := by
  fun_induction matching agree a b with
  | case1 a b => exact normal_number b
  | case2 a b => exact normal_var b
  | case3 l o r l' o' r' ihl ihr =>
    simp only [Bool.and_eq_true] at h
    obtain ⟨hl, hr⟩ := normal_binary.mp ha
    exact normal_binary.mpr ⟨ihl h.1.1 hl, ihr h.2 hr⟩
  | case4 e e' ih =>
    obtain ⟨he, hnormal⟩ := normal_negate.mp ha
    exact normal_negate.mpr ⟨isNegation_of_matching h ▸ he, ih h hnormal⟩
  | case5 e e' ih => exact normal_brackets.mpr (ih h (normal_brackets.mp ha))
  | case6 name e name' e' ih =>
    simp only [Bool.and_eq_true] at h
    exact normal_call.mpr (ih h.2 (normal_call.mp ha))
  | case7 name l r infixed name' l' r' infixed' ihl ihr =>
    simp only [Bool.and_eq_true] at h
    obtain ⟨hl, hr⟩ := normal_call2.mp ha
    exact normal_call2.mpr ⟨ihl h.1.1.2 hl, ihr h.1.2 hr⟩
  | case8 => exact normal_foreign
  | case9 => cases h

/-- A tree is equal to itself, as one that was built from it. -/
theorem unchanged_refl (e : Expr) : e.unchanged e = true := by
  refine matching_refl (fun v => ?_) e
  cases hv : v.isNaN with
  | true => exact Bool.or_true _
  | false => rw [(Bits.beq_self_iff v).mpr hv, Bool.true_or]

end

end Expr

/-! ## Equations -/

namespace Equation

/-- No two negations in the equation cancel. A missing side has none. -/
def Normal (e : Equation) : Prop :=
  (∀ lhs ∈ e.lhs, lhs.Normal) ∧ ∀ rhs ∈ e.rhs, rhs.Normal

theorem normal_simplify (e : Equation) : e.simplify.Normal := by
  obtain ⟨lhs, rhs⟩ := e
  constructor
  · rintro _ h
    obtain ⟨l, -, rfl⟩ := Option.map_eq_some_iff.mp h
    exact l.normal_simplify false
  · rintro _ h
    obtain ⟨r, -, rfl⟩ := Option.map_eq_some_iff.mp h
    exact r.normal_simplify false

theorem simplify_of_normal {e : Equation} (h : e.Normal) : e.simplify = e := by
  have hside {side : Option Expr} (hs : ∀ s ∈ side, s.Normal) :
      side.map (Expr.simplify false) = side := by
    cases side with
    | none => rfl
    | some s => exact congrArg some (Expr.simplify_of_normal (hs s rfl) false)
  obtain ⟨lhs, rhs⟩ := e
  rw [simplify, hside h.1, hside h.2]

theorem unchanged_refl (e : Equation) : e.unchanged e = true := by
  obtain ⟨_ | lhs, _ | rhs⟩ := e <;> simp [unchanged, matching, Expr.unchanged_refl]

theorem normal_of_unchanged {a b : Equation} (h : a.unchanged b = true) (ha : a.Normal) :
    b.Normal := by
  obtain ⟨la, ra⟩ := a
  obtain ⟨lb, rb⟩ := b
  simp only [unchanged, matching, Bool.and_eq_true] at h
  constructor
  · rintro l ⟨⟩
    cases la with
    | none => cases h.1
    | some l' => exact Expr.normal_of_matching h.1 (ha.1 l' rfl)
  · rintro r ⟨⟩
    cases ra with
    | none => cases h.2
    | some r' => exact Expr.normal_of_matching h.2 (ha.2 r' rfl)

theorem hasForeign_simplify (e : Equation) : e.simplify.hasForeign = e.hasForeign := by
  obtain ⟨_ | lhs, _ | rhs⟩ := e <;> simp [simplify, hasForeign, Expr.hasForeign_simplify]

theorem checkedSimplify_eq_ok {e : Equation} (h : e.hasForeign = false) :
    e.checkedSimplify = .ok e.simplify := by
  rw [checkedSimplify, guarded, h]
  rfl

theorem hasForeign_ofSides (lhs rhs : Expr) :
    (ofSides lhs rhs).hasForeign = (lhs.hasForeign || rhs.hasForeign) := rfl

theorem checkedDepth_ofSides {lhs rhs : Expr} (hl : lhs.hasForeign = false)
    (hr : rhs.hasForeign = false) :
    (ofSides lhs rhs).checkedDepth = .ok (max lhs.depth rhs.depth + 1) := by
  show (ofSides lhs rhs).guarded .measure _ = _
  rw [guarded, hasForeign_ofSides, hl, hr]
  rfl

/-- Simplifying a tree without foreign nodes, as an operand or not, succeeds with a normal tree that a
second pass leaves alone, and it changes nothing exactly where the tree is normal. The same holds of
equations, also with equality as it is computed in place of identity. -/
theorem checkedSimplify_normal_form :
    (∀ (e : Expr) (grouped : Bool), e.hasForeign = false →
      ∃ s, e.checkedSimplify grouped = .ok s ∧ s.Normal ∧ s.checkedSimplify grouped = .ok s ∧
        (s = e ↔ e.Normal)) ∧
    ∀ e : Equation, e.hasForeign = false →
      ∃ s, e.checkedSimplify = .ok s ∧ s.Normal ∧ s.checkedSimplify = .ok s ∧
        (s = e ↔ e.Normal) ∧ (s.unchanged e = true ↔ e.Normal) := by
  constructor
  · intro e grouped h
    have hnormal := e.normal_simplify grouped
    have hforeign := (Expr.hasForeign_simplify grouped e).trans h
    refine ⟨e.simplify grouped, Expr.checkedSimplify_eq_ok h grouped, hnormal, ?_, ?_⟩
    · rw [Expr.checkedSimplify_eq_ok hforeign, Expr.simplify_of_normal hnormal]
    · exact ⟨fun hs => hs ▸ hnormal, fun he => Expr.simplify_of_normal he grouped⟩
  · intro e h
    have hnormal := e.normal_simplify
    have hforeign := e.hasForeign_simplify.trans h
    refine ⟨e.simplify, checkedSimplify_eq_ok h, hnormal, ?_, ?_, ?_⟩
    · rw [checkedSimplify_eq_ok hforeign, simplify_of_normal hnormal]
    · exact ⟨fun hs => hs ▸ hnormal, simplify_of_normal⟩
    · refine ⟨fun hs => normal_of_unchanged hs hnormal, fun he => ?_⟩
      rw [simplify_of_normal he]
      exact e.unchanged_refl

/-- Five negations with brackets among them around a sum, as an operand and on their own. -/
theorem checkedSimplify_normal_form_run :
    let e : Expr := .negate (.negate (.negate (.brackets (.negate (.negate
      (.binary (.var "X") .add (.var "T")))))))
    let equation := Equation.ofSides (.binary (.number 1) .subtract e) e
    (e.hasForeign = false ∧ ∃ s, e.checkedSimplify true = .ok s ∧ s.Normal ∧
      s.checkedSimplify true = .ok s ∧ (s = e ↔ e.Normal)) ∧
    equation.hasForeign = false ∧ ∃ s, equation.checkedSimplify = .ok s ∧ s.Normal ∧
      s.checkedSimplify = .ok s ∧ (s = equation ↔ equation.Normal) ∧
      (s.unchanged equation = true ↔ equation.Normal) :=
  ⟨⟨rfl, checkedSimplify_normal_form.1 _ true rfl⟩, rfl, checkedSimplify_normal_form.2 _ rfl⟩

end Equation
end Isotherm
