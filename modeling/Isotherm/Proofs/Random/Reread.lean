import Isotherm.Proofs.Evaluation.ReadTracking
import Isotherm.Proofs.Formula.Precedence
import Isotherm.Proofs.Random.Writable

/-!
# Random equations read again

A random equation nests its operators without regard to precedence, and its text has no parentheses
that say so. The text is always read, as the equation with the same operands and links nested by
precedence. That equation has the same nodes but for what they join, so it reads the time where the
random one does and never faults; its residual is another one where it is nested in another way.
-/

namespace Isotherm

namespace Expr

/-! ## Nodes without their operands -/

/-- A node without its operands. -/
def head : Expr → Expr
  | binary _ o _ => binary foreign o foreign
  | negate _ => negate foreign
  | brackets _ => brackets foreign
  | call name _ => call name foreign
  | call2 name _ _ infixed => call2 name foreign foreign infixed
  | e => e

def heads (e : Expr) : List Expr :=
  e.subtrees.map head

theorem mem_heads_join (t : Link) (l r h : Expr) :
    h ∈ (t.join l r).heads ↔ h = (t.join l r).head ∨ h ∈ l.heads ∨ h ∈ r.heads := by
  cases t <;> simp [Link.join, heads, subtrees]

theorem head_join (t : Link) (l r l' r' : Expr) : (t.join l r).head = (t.join l' r').head := by
  cases t <;> rfl

theorem mem_heads_attach (t : Link) (l r h : Expr) :
    h ∈ (attach t l r).heads ↔ h = (t.join l r).head ∨ h ∈ l.heads ∨ h ∈ r.heads := by
  induction r using chain_induction with
  | operand r hr => rw [attach_operand t l hr, mem_heads_join]
  | join s a b ih =>
    rw [attach_join, mem_heads_join, mem_heads_join, ih, head_join t l a l (s.join a b),
      head_join s (attach t l a) b a b]
    tauto

/-- Nesting chains anew keeps every node, but for its operands. -/
theorem mem_heads_leftNested (e h : Expr) : h ∈ e.leftNested.heads ↔ h ∈ e.heads := by
  induction e with
  | number | var | foreign => rfl
  | negate e ih | brackets e ih | call name e ih =>
    simp only [heads, leftNested, subtrees, List.map_cons, List.mem_cons] at ih ⊢
    rw [ih]
    rfl
  | binary l o r ihl ihr =>
    rw [leftNested, mem_heads_attach, ihl, ihr]
    exact (mem_heads_join (.operator o) l r h).symm
  | call2 name l r infixed ihl ihr =>
    cases infixed with
    | true =>
      rw [leftNested, mem_heads_attach, ihl, ihr]
      exact (mem_heads_join (.name name) l r h).symm
    | false =>
      simp only [heads, leftNested, subtrees, List.map_cons, List.map_append, List.mem_cons,
        List.mem_append] at ihl ihr ⊢
      rw [ihl, ihr]
      rfl

theorem mem_heads_congr {e e' : Expr} (h : e'.leftNested = e.leftNested) (node : Expr) :
    node ∈ e'.heads ↔ node ∈ e.heads := by
  rw [← mem_heads_leftNested, h, mem_heads_leftNested]

theorem understood_head (e : Expr) : e.head.Understood ↔ e.Understood := by
  cases e <;> rfl

theorem understood_of_leftNested {e e' : Expr} (h : e'.leftNested = e.leftNested)
    (he : ∀ s ∈ e.subtrees, s.Understood) : ∀ s ∈ e'.subtrees, s.Understood := by
  intro s hs
  obtain ⟨s', hs', heq⟩ := List.mem_map.mp ((mem_heads_congr h s.head).mp (List.mem_map_of_mem hs))
  rw [← understood_head, ← heq, understood_head]
  exact he s' hs'

theorem var_mem_subtrees_iff (name : String) (e : Expr) :
    var name ∈ e.subtrees ↔ var name ∈ e.heads := by
  constructor
  · exact List.mem_map_of_mem (f := head)
  · intro h
    obtain ⟨s, hs, heq⟩ := List.mem_map.mp h
    cases s <;> cases heq
    exact hs

theorem understood_regroup {e : Expr} (h : ∀ s ∈ e.subtrees, s.Understood) (grouped : Bool) :
    ∀ s ∈ (regroup grouped e).subtrees, s.Understood := by
  unfold regroup
  split
  · rw [subtrees, List.forall_mem_cons]
    exact ⟨trivial, h⟩
  · exact h

theorem understood_simplify {e : Expr} (h : ∀ s ∈ e.subtrees, s.Understood) (grouped : Bool) :
    ∀ s ∈ (e.simplify grouped).subtrees, s.Understood := by
  fun_induction simplify grouped e with
  | case1 | case2 | case10 => exact h
  | case3 grouped e ih =>
    simp only [subtrees, List.forall_mem_cons] at h
    exact understood_regroup (ih h.2.2) grouped
  | case4 grouped e ih =>
    simp only [subtrees, List.forall_mem_cons] at h
    exact understood_regroup (ih h.2.2.2) grouped
  | case5 grouped e _ _ ih | case6 grouped e ih =>
    simp only [subtrees, List.forall_mem_cons] at h ⊢
    exact ⟨trivial, ih h.2⟩
  | case7 grouped l o r ihl ihr =>
    simp only [subtrees, List.forall_mem_cons, List.forall_mem_append] at h ⊢
    exact ⟨h.1, ihl h.2.1, ihr h.2.2⟩
  | case8 grouped name e ih =>
    simp only [subtrees, List.forall_mem_cons] at h ⊢
    exact ⟨h.1, ih h.2⟩
  | case9 grouped name l r infixed ihl ihr =>
    simp only [subtrees, List.forall_mem_cons, List.forall_mem_append] at h ⊢
    exact ⟨h.1, ihl h.2.1, ihr h.2.2⟩

end Expr

namespace Equation

/-! ## The same reads -/

variable {lhs rhs l r : Expr} {strict : Bool} {x y t : Scalar}

/-- A residual without a fault has read the time where one of its sides holds it. -/
theorem timeUsed_iff {q : Residual} (h : (ofSides lhs rhs).residualAt strict x y t = .ok q)
    (hnone : q.recovered = none) : q.timeUsed = true ↔
      ∃ name ∈ Coordinate.t.spellings, Expr.var name ∈ lhs.heads ∨ Expr.var name ∈ rhs.heads := by
  obtain ⟨_, _, b, ⟨⟩, hused, hrecovered⟩ := exists_run_of_residualAt h
  have hstop : (postorder lhs rhs).findSome? (Expr.stop? strict) = none := by
    refine Option.eq_none_iff_forall_ne_some.mpr fun cause hcause => ?_
    have hfault := (hrecovered cause).mpr ((stop_run .point strict b lhs rhs cause).mpr hcause)
    cases hnone.symm.trans hfault
  rw [hused, has_run, Expr.reached_eq_self hstop, postorder]
  simp only [List.mem_append, Expr.mem_postorder, Expr.var_mem_subtrees_iff, or_comm]

/-- Two equations that read the time at the same points, without a fault at any. -/
def ReadsAlike (e e' : Equation) : Prop :=
  ∀ (strict : Bool) (x y t : Scalar),
    (e.residualAt strict x y t = .error .overflow ∧
      e'.residualAt strict x y t = .error .overflow) ∨
    ∃ q q', e.residualAt strict x y t = .ok q ∧ e'.residualAt strict x y t = .ok q' ∧
      q.recovered = none ∧ q'.recovered = none ∧ q.timeUsed = q'.timeUsed

/-- Nesting the chains of an equation in another way changes neither that it is evaluated without a
fault nor where it reads the time. -/
theorem readsAlike_of_leftNested (hl : ∀ s ∈ lhs.subtrees, s.Understood)
    (hr : ∀ s ∈ rhs.subtrees, s.Understood) (hnl : l.leftNested = lhs.leftNested)
    (hnr : r.leftNested = rhs.leftNested) : (ofSides l r).ReadsAlike (ofSides lhs rhs) := by
  intro strict x y t
  have hnever := neverFaults_ofSides hl hr strict x y t
  have hnever' := neverFaults_ofSides (Expr.understood_of_leftNested hnl hl)
    (Expr.understood_of_leftNested hnr hr) strict x y t
  rcases hnever with ⟨q, hq, hnone⟩ | ⟨hpast, hq⟩
  · rcases hnever' with ⟨q', hq', hnone'⟩ | ⟨hpast, -⟩
    · refine .inr ⟨q', q, hq', hq, hnone', hnone, ?_⟩
      rw [Bool.eq_iff_iff, timeUsed_iff hq' hnone', timeUsed_iff hq hnone]
      simp only [Expr.mem_heads_congr hnl, Expr.mem_heads_congr hnr]
    · cases hq.symm.trans (residualAt_of_overflow hpast _)
  · exact .inl ⟨residualAt_of_overflow hpast _, hq⟩

end Equation

namespace RandomEquation

/-- The text of a simplified random equation is read as the equation with the same operands and links,
in the one nesting of them that follows precedence. Read again it has the same text; it is evaluated
without a fault and reads the time at the points where the random equation does. It is the random
equation, with the same residual everywhere, exactly where that follows precedence itself. -/
theorem text_of_drawn_regroups {σ : Type} (source : DrawSource σ) (maxDepth : Int) (s : σ) :
    let drawn := ((sides source maxDepth.toNat).run s).1
    let lhs := drawn.1.simplify false
    let rhs := drawn.2.simplify false
    (Equation.ofSides drawn.1 drawn.2).checkedSimplify = .ok (.ofSides lhs rhs) ∧
    ∃ text l r, (Equation.ofSides lhs rhs).checkedText = .ok text ∧
      Equation.parse text = .ok (.ofSides l r) ∧ (Equation.ofSides l r).checkedText = .ok text ∧
      (∀ e, e = l ↔ e.leftNested = lhs.leftNested ∧ e.followsPrecedence = true) ∧
      (∀ e, e = r ↔ e.leftNested = rhs.leftNested ∧ e.followsPrecedence = true) ∧
      (Equation.ofSides l r).ReadsAlike (.ofSides lhs rhs) ∧
      (l = lhs ∧ r = rhs ↔ lhs.followsPrecedence = true ∧ rhs.followsPrecedence = true) ∧
      (lhs.followsPrecedence = true ∧ rhs.followsPrecedence = true → ∀ strict x y t,
        (Equation.ofSides l r).residualAt strict x y t =
          (Equation.ofSides lhs rhs).residualAt strict x y t) := by
  intro drawn lhs rhs
  obtain ⟨pair, after, draws, hrun, -, -, hgrownl, hgrownr⟩ :=
    draws_sides source maxDepth.toNat s 0
  have hdrawn : drawn = pair := congrArg Prod.fst hrun
  rw [← hdrawn] at hgrownl hgrownr
  have hl : lhs.Printable := hgrownl.printable.simplify false
  have hr : rhs.Printable := hgrownr.printable.simplify false
  obtain ⟨l, r, hparse, htext, hnl, hnr, hfl, hfr⟩ := Equation.parse_text_regrouped hl hr
  have hpl : l.Printable := Expr.printable_leftNested.mp (hnl ▸ Expr.printable_leftNested.mpr hl)
  have hpr : r.Printable := Expr.printable_leftNested.mp (hnr ▸ Expr.printable_leftNested.mpr hr)
  have hshown := Equation.checkedText_ofSides hpl.hasForeign hpr.hasForeign
  rw [htext] at hshown
  have hone {e e' : Expr} (he : e.Printable) (hf : e.followsPrecedence = true) :
      e' = e ↔ e'.leftNested = e.leftNested ∧ e'.followsPrecedence = true := by
    constructor
    · intro h
      subst h
      exact ⟨rfl, hf⟩
    · intro ⟨hn, hf'⟩
      exact Expr.eq_of_followsPrecedence he hn hf hf'
  have hsame : l = lhs ∧ r = rhs ↔
      lhs.followsPrecedence = true ∧ rhs.followsPrecedence = true := by
    constructor
    · intro ⟨hll, hrr⟩
      rw [← hll, ← hrr]
      exact ⟨hfl, hfr⟩
    · intro ⟨hll, hrr⟩
      exact ⟨((hone hl hll).mpr ⟨hnl, hfl⟩), ((hone hr hrr).mpr ⟨hnr, hfr⟩)⟩
  refine ⟨Equation.checkedSimplify_ofSides hgrownl.printable hgrownr.printable, _, l, r,
    Equation.checkedText_ofSides hl.hasForeign hr.hasForeign, hparse, hshown, ?_, ?_, ?_, hsame, ?_⟩
  · intro e
    rw [← hnl]
    exact hone hpl hfl
  · intro e
    rw [← hnr]
    exact hone hpr hfr
  · exact Equation.readsAlike_of_leftNested (Expr.understood_simplify hgrownl.understood false)
      (Expr.understood_simplify hgrownr.understood false) hnl hnr
  · intro h strict x y t
    obtain ⟨hll, hrr⟩ := hsame.mpr h
    rw [hll, hrr]

/-- A product of a sum is drawn. Its text is read as a sum with a product, which has another
residual. -/
theorem other_residual_of_drawn_text :
    let drawn := ((sides .listed 2).run ⟨#[4, 2, 0, 1, 1, 2, 1, 0], 0⟩).1
    let e := Equation.ofSides (drawn.1.simplify false) (drawn.2.simplify false)
    (Equation.ofSides drawn.1 drawn.2).checkedSimplify = .ok e ∧
    ∃ text e', e.checkedText = .ok text ∧ text = "X + Y * T = X" ∧
      Equation.parse text = .ok e' ∧
      e.residualAt false (.real 1) (.real 2) (.real 3) = .ok ⟨-8, true, none⟩ ∧
      e'.residualAt false (.real 1) (.real 2) (.real 3) = .ok ⟨-6, true, none⟩ ∧
      (-8 : Float) ≠ -6 := by
  intro drawn e
  let product : Expr := .binary (.binary (.var "X") .add (.var "Y")) .multiply (.var "T")
  let sum : Expr := .binary (.var "X") .add (.binary (.var "Y") .multiply (.var "T"))
  have hdrawn : drawn = (product, .var "X") := rfl
  have he : e = .ofSides product (.var "X") := rfl
  rw [he, hdrawn]
  have hparse : Equation.parse "X + Y * T = X" = .ok (.ofSides sum (.var "X")) := by cbv
  have hdiffer : (-8 : Float) ≠ -6 := by decide +kernel
  exact ⟨rfl, _, _, rfl, rfl, hparse, rfl, rfl, hdiffer⟩

end RandomEquation
end Isotherm
