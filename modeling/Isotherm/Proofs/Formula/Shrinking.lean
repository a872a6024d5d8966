import Isotherm.Proofs.Formula.NormalForm

/-!
# Simplified trees are smaller

A collapse takes two negations away, and with them the brackets between; all that it can leave in
their place is one pair of brackets. So no tree grows deeper, and a tree that changes at all has
lost nodes. As an operand of a chain, a tree also stays what it was on paper: a chain without
brackets of its own, or none.
-/

namespace Isotherm

namespace Expr

/-- The number of nodes. -/
def size : Expr → Nat
  | number _ | var _ | foreign => 1
  | negate e | brackets e | call _ e => e.size + 1
  | binary l _ r | call2 _ l r _ => l.size + r.size + 1

/-! ## Depth -/

theorem depth_regroup_le (grouped : Bool) (e : Expr) : (regroup grouped e).depth ≤ e.depth + 1 := by
  unfold regroup
  split
  · exact Nat.le_refl _
  · exact Nat.le_succ _

theorem depth_simplify_le (grouped : Bool) (e : Expr) : (e.simplify grouped).depth ≤ e.depth := by
  fun_induction simplify grouped e with
  | case1 | case2 | case10 => exact Nat.le_refl _
  | case3 grouped e ih | case4 grouped e ih =>
    have hregroup := depth_regroup_le grouped (e.simplify grouped)
    simp only [depth]
    omega
  | case5 grouped e _ _ ih | case6 grouped e ih | case8 grouped name e ih =>
    exact Nat.succ_le_succ ih
  | case7 grouped l o r ihl ihr | case9 grouped name l r infixed ihl ihr =>
    exact Nat.succ_le_succ (max_le_max ihl ihr)

/-! ## Size -/

/-- A tree has fewer nodes than another, or it is the same. -/
def Shrinks (s e : Expr) : Prop :=
  s.size < e.size ∨ s = e

namespace Shrinks

theorem refl (e : Expr) : e.Shrinks e :=
  .inr rfl

theorem size_le {s e : Expr} (h : s.Shrinks e) : s.size ≤ e.size := by
  obtain hlt | rfl := h
  · exact hlt.le
  · exact Nat.le_refl _

theorem size_lt_iff {s e : Expr} (h : s.Shrinks e) : s.size < e.size ↔ s ≠ e := by
  constructor
  · rintro hlt rfl
    exact Nat.lt_irrefl _ hlt
  · exact h.resolve_right

/-- A node of one operand shrinks with the operand. -/
theorem under {s e : Expr} (node : Expr → Expr) (hnode : ∀ e, (node e).size = e.size + 1)
    (h : s.Shrinks e) : (node s).Shrinks (node e) := by
  obtain hlt | rfl := h
  · left
    rw [hnode, hnode]
    exact Nat.succ_lt_succ hlt
  · exact refl _

/-- A node of two operands shrinks with either. -/
theorem under₂ {sl sr l r : Expr} (node : Expr → Expr → Expr)
    (hnode : ∀ l r, (node l r).size = l.size + r.size + 1) (hl : sl.Shrinks l) (hr : sr.Shrinks r) :
    (node sl sr).Shrinks (node l r) := by
  have hlle := hl.size_le
  have hrle := hr.size_le
  unfold Shrinks
  rw [hnode, hnode]
  obtain hllt | rfl := hl
  · left
    omega
  · obtain hrlt | rfl := hr
    · left
      omega
    · exact .inr rfl

end Shrinks

theorem size_regroup_le (grouped : Bool) (e : Expr) : (regroup grouped e).size ≤ e.size + 1 := by
  unfold regroup
  split
  · exact Nat.le_refl _
  · exact Nat.le_succ _

theorem shrinks_simplify (grouped : Bool) (e : Expr) : (e.simplify grouped).Shrinks e := by
  fun_induction simplify grouped e with
  | case1 | case2 | case10 => exact .refl _
  | case3 grouped e ih | case4 grouped e ih =>
    -- two negations go, and one pair of brackets comes at most
    have hregroup := size_regroup_le grouped (e.simplify grouped)
    have hle := ih.size_le
    left
    simp only [size]
    omega
  | case5 grouped e _ _ ih => exact ih.under negate fun _ => rfl
  | case6 grouped e ih => exact ih.under brackets fun _ => rfl
  | case7 grouped l o r ihl ihr => exact ihl.under₂ (binary · o ·) (fun _ _ => rfl) ihr
  | case8 grouped name e ih => exact ih.under (call name) fun _ => rfl
  | case9 grouped name l r infixed ihl ihr =>
    exact ihl.under₂ (call2 name · · infixed) (fun _ _ => rfl) ihr

/-- Equality as it is computed holds of a simplified tree only where nothing was changed. -/
theorem unchanged_simplify_iff (grouped : Bool) (e : Expr) :
    (e.simplify grouped).unchanged e = true ↔ e.simplify grouped = e := by
  constructor
  · intro h
    exact simplify_of_normal (normal_of_matching h (e.normal_simplify grouped)) grouped
  · intro h
    rw [h]
    exact e.unchanged_refl

end Expr

namespace Equation

/-- A tree without foreign nodes is simplified to one that is no deeper, and that has fewer nodes
unless it is the same, also by equality as it is computed; as an operand it stays a chain, or none.
So an equation does not grow deeper either. -/
theorem checkedSimplify_shrinks :
    (∀ (e : Expr) (grouped : Bool), e.hasForeign = false →
      ∃ s, e.checkedSimplify grouped = .ok s ∧ s.hasForeign = false ∧ s.depth ≤ e.depth ∧
        (s.size < e.size ↔ s ≠ e) ∧ (s.unchanged e = true ↔ s = e) ∧
        (grouped = true → s.isCompound = e.isCompound)) ∧
    ∀ lhs rhs : Expr, lhs.hasForeign = false → rhs.hasForeign = false →
      ∃ s depth depth', (ofSides lhs rhs).checkedSimplify = .ok s ∧
        (ofSides lhs rhs).checkedDepth = .ok depth ∧ s.checkedDepth = .ok depth' ∧
        depth' ≤ depth := by
  constructor
  · intro e grouped h
    refine ⟨e.simplify grouped, Expr.checkedSimplify_eq_ok h grouped,
      (Expr.hasForeign_simplify grouped e).trans h, e.depth_simplify_le grouped,
      (e.shrinks_simplify grouped).size_lt_iff, e.unchanged_simplify_iff grouped, ?_⟩
    rintro rfl
    exact e.isCompound_simplify
  · intro lhs rhs hl hr
    have hforeign : (ofSides lhs rhs).hasForeign = false := by
      rw [hasForeign_ofSides, hl, hr]
      rfl
    refine ⟨ofSides (lhs.simplify false) (rhs.simplify false), _, _,
      checkedSimplify_eq_ok hforeign, checkedDepth_ofSides hl hr,
      checkedDepth_ofSides ((Expr.hasForeign_simplify false lhs).trans hl)
        ((Expr.hasForeign_simplify false rhs).trans hr), ?_⟩
    exact Nat.succ_le_succ (max_le_max (lhs.depth_simplify_le false) (rhs.depth_simplify_le false))

/-- Two negations with brackets between them around a sum, as an operand: what is left is the sum in
brackets. -/
theorem checkedSimplify_shrinks_operand :
    let e : Expr := .negate (.brackets (.negate (.binary (.var "X") .add (.var "T"))))
    (e.hasForeign = false ∧ ∃ s, e.checkedSimplify true = .ok s ∧ s.hasForeign = false ∧
      s.depth ≤ e.depth ∧ (s.size < e.size ↔ s ≠ e) ∧ (s.unchanged e = true ↔ s = e) ∧
      (true = true → s.isCompound = e.isCompound)) ∧
    (Expr.var "Y").hasForeign = false ∧ ∃ s depth depth',
      (ofSides (.var "Y") e).checkedSimplify = .ok s ∧
      (ofSides (.var "Y") e).checkedDepth = .ok depth ∧ s.checkedDepth = .ok depth' ∧
      depth' ≤ depth :=
  ⟨⟨rfl, checkedSimplify_shrinks.1 _ true rfl⟩, rfl, checkedSimplify_shrinks.2 _ _ rfl rfl⟩

end Equation
end Isotherm
