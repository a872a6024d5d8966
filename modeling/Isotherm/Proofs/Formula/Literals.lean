import Isotherm.Proofs.Formula.CanonicalText

/-!
# The literals of a formula

The numbers of a tree that was read are the literals of its text, in their order; all else that a
printable tree needs, every tree has that was read. Simplifying keeps both.
-/

namespace Isotherm

namespace Token

/-- The values of the number tokens, in their order. -/
def literals (ts : List Token) : List Float :=
  ts.filterMap number?

@[simp] theorem literals_append (ts us : List Token) :
    literals (ts ++ us) = literals ts ++ literals us := by
  simp [literals]

theorem literals_cons {t : Token} (h : t.kind ≠ .number) (ts : List Token) :
    literals (t :: ts) = literals ts :=
  List.filterMap_cons_none (if_neg h)

theorem mem_literals {ts : List Token} {v : Float} :
    v ∈ literals ts ↔ ∃ t ∈ ts, t.number? = some v :=
  List.mem_filterMap

end Token

namespace Expr

/-- The numbers of a tree, from left to right. -/
def numbers : Expr → List Float
  | number v => [v]
  | var _ | foreign => []
  | negate e | brackets e | call _ e => e.numbers
  | binary l _ r | call2 _ l r _ => l.numbers ++ r.numbers

/-- A tree that can be written as a formula, but that its numbers may be anything. -/
def Named : Expr → Prop
  | number _ => True
  | var name => name ∈ variableNames
  | binary l o r => l.Named ∧ o ∈ Operator.known ∧ r.Named
  | negate e | brackets e => e.Named
  | call name e => IsFunctionName name ∧ e.Named
  | call2 name l r _ => IsFunctionName name ∧ l.Named ∧ r.Named
  | foreign => False

theorem printable_iff {e : Expr} :
    e.Printable ↔ e.Named ∧ ∀ v ∈ e.numbers, v.isFinite = true ∧ signBit v = false := by
  induction e with
  | number v => simp [Printable, Named, numbers]
  | var | foreign => simp [Printable, Named, numbers]
  | negate e ih | brackets e ih => exact ih
  | call name e ih => simp only [Printable, Named, numbers, ih, and_assoc]
  | binary l o r ihl ihr | call2 name l r infixed ihl ihr =>
    simp only [Printable, Named, numbers, ihl, ihr, List.forall_mem_append]
    tauto

/-! ## Simplified trees -/

/-- Simplifying loses no number and moves none. -/
theorem numbers_simplify (grouped : Bool) (e : Expr) :
    (e.simplify grouped).numbers = e.numbers := by
  have hregroup (grouped : Bool) (e : Expr) : (Expr.regroup grouped e).numbers = e.numbers := by
    unfold Expr.regroup
    split <;> rfl
  fun_induction Expr.simplify grouped e with
  | case1 | case2 | case10 => rfl
  | case3 grouped e ih | case4 grouped e ih => exact (hregroup grouped _).trans ih
  | case5 grouped e _ _ ih | case6 grouped e ih | case8 grouped name e ih => exact ih
  | case7 grouped l o r ihl ihr | case9 grouped name l r infixed ihl ihr =>
    simp only [numbers, ihl, ihr]

theorem Named.regroup {e : Expr} (h : e.Named) (grouped : Bool) :
    (Expr.regroup grouped e).Named := by
  unfold Expr.regroup
  split <;> exact h

theorem Named.simplify {e : Expr} (h : e.Named) (grouped : Bool) : (e.simplify grouped).Named := by
  fun_induction Expr.simplify grouped e with
  | case1 | case2 | case10 => exact h
  | case3 grouped e ih | case4 grouped e ih => exact (ih h).regroup grouped
  | case5 grouped e _ _ ih => exact ih h
  | case6 grouped e ih => exact ih h
  | case7 grouped l o r ihl ihr => exact ⟨ihl h.1, h.2.1, ihr h.2.2⟩
  | case8 grouped name e ih => exact ⟨h.1, ih h.2⟩
  | case9 grouped name l r infixed ihl ihr => exact ⟨h.1, ihl h.2.1, ihr h.2.2⟩

theorem Printable.simplify {e : Expr} (h : e.Printable) (grouped : Bool) :
    (e.simplify grouped).Printable := by
  obtain ⟨hnamed, hnumbers⟩ := printable_iff.mp h
  refine printable_iff.mpr ⟨hnamed.simplify grouped, ?_⟩
  rwa [numbers_simplify]

end Expr

/-! ## Trees that were read -/

namespace Grammar

theorem Joins.named {c : Chain} {t : Token} {join : Expr → Expr → Expr} (h : Joins c t join)
    (ht : t.WellFormed) {l r : Expr} (hl : l.Named) (hr : r.Named) : (join l r).Named := by
  cases h with
  | infixed hk => exact ⟨ht.identifier hk, hl, hr⟩
  | plus => exact ⟨hl, by decide, hr⟩
  | minus => exact ⟨hl, by decide, hr⟩
  | multiply => exact ⟨hl, by decide, hr⟩
  | divide => exact ⟨hl, by decide, hr⟩
  | modulus => exact ⟨hl, by decide, hr⟩

/-- Whatever is read from well-formed tokens has well-formed names and known operators. -/
theorem Derives.named {level : Level} {ts : List Token} {e : Expr} (h : Derives level ts e)
    (hts : ∀ t ∈ ts, t.WellFormed) : e.Named := by
  induction h with
  | operand _ ih => exact ih hts
  | chain _ ht _ ihl ihr =>
    simp only [List.forall_mem_append, List.forall_mem_cons] at hts
    obtain ⟨hls, htok, hrs⟩ := hts
    exact ht.named htok (ihl hls) (ihr hrs)
  | base _ ih => exact ih hts
  | power _ _ _ ihl ihr =>
    simp only [List.forall_mem_append, List.forall_mem_cons] at hts
    exact ⟨ihl hts.1, by decide, ihr hts.2.2⟩
  | primary _ ih => exact ih hts
  | negateGroup _ _ ih => exact ih (List.forall_mem_cons.mp hts).2
  | negate _ _ _ ih => exact ih (List.forall_mem_cons.mp hts).2
  | number => exact trivial
  | var ht => exact (hts _ List.mem_cons_self).var ht
  | call hf _ _ _ ih =>
    simp only [List.forall_mem_append, List.forall_mem_cons] at hts
    exact ⟨hts.1.identifier hf, ih hts.2.2.1⟩
  | call2 hf _ _ _ _ _ ihl ihr =>
    simp only [List.forall_mem_append, List.forall_mem_cons] at hts
    exact ⟨hts.1.identifier hf, ihl hts.2.2.1, ihr hts.2.2.2.2.1⟩
  | group _ _ _ ih =>
    simp only [List.forall_mem_append, List.forall_mem_cons] at hts
    exact ih hts.2.1

theorem Joins.kind_ne_number {c : Chain} {t : Token} {join : Expr → Expr → Expr}
    (h : Joins c t join) : t.kind ≠ .number := by
  intro hk
  cases h with
  | infixed h | plus h | minus h | multiply h | divide h | modulus h => cases hk.symm.trans h

theorem Joins.numbers {c : Chain} {t : Token} {join : Expr → Expr → Expr} (h : Joins c t join)
    (l r : Expr) : (join l r).numbers = l.numbers ++ r.numbers := by
  cases h <;> rfl

/-- The numbers of a tree are the literals it was read from. -/
theorem Derives.numbers {level : Level} {ts : List Token} {e : Expr} (h : Derives level ts e) :
    e.numbers = Token.literals ts := by
  induction h with
  | operand _ ih | base _ ih | primary _ ih => exact ih
  | chain _ ht _ ihl ihr =>
    rw [Token.literals_append, Token.literals_cons ht.kind_ne_number, ← ihl, ← ihr, ht.numbers]
  | power _ ht _ ihl ihr =>
    rw [Token.literals_append, Token.literals_cons (by simp [ht]), ← ihl, ← ihr]
    rfl
  | negateGroup ht _ ih | negate ht _ _ ih =>
    rw [Token.literals_cons (by simp [ht]), ← ih]
    rfl
  | number ht => simp [Expr.numbers, Token.literals, ht]
  | var ht => simp [Expr.numbers, Token.literals, Token.number?, ht]
  | call hf ho _ hc ih =>
    simpa [Expr.numbers, Token.literals, Token.number?, List.filterMap_cons, hf, ho, hc] using ih
  | call2 hf ho _ hm _ hc ihl ihr =>
    simp [Expr.numbers, ihl, ihr, Token.literals, Token.number?, hf, ho, hm, hc]
  | group ho _ hc ih =>
    simpa [Expr.numbers, Token.literals, Token.number?, List.filterMap_cons, ho, hc] using ih

end Grammar
end Isotherm
