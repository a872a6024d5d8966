import Isotherm.Proofs.Formula.Literals
import Isotherm.Proofs.Random.Generated

/-!
# Random equations can be written

The numbers of a random expression are finite and have no sign, its names are names of functions and
of the three variables, and its operators are those of the grammar, so it has a text that a formula
may have.
-/

namespace Isotherm

/-- The names of the functions are names, and no variable has one of them. -/
theorem Function1.isFunctionName_name (f : Function1) : IsFunctionName f.name := by
  have hall : ∀ f ∈ all, IsFunctionName f.name := by decide +kernel
  exact hall f (by cases f <;> decide)

theorem Function2.isFunctionName_name (f : Function2) : IsFunctionName f.name := by
  have hall : ∀ f ∈ all, IsFunctionName f.name := by decide +kernel
  exact hall f (by cases f <;> decide)

namespace RandomEquation

theorem quarter_lt_infinity {k : Nat} (hk : k < 400) :
    (k.toFloat / 4.0).toBits.toNat < Scaled.infinityBits := by
  have hall : (List.range 400).all
      (fun k => (k.toFloat / 4.0).toBits.toNat < Scaled.infinityBits) = true := by decide +kernel
  exact of_decide_eq_true (List.all_eq_true.mp hall k (List.mem_range.mpr hk))

/-- A quarter below a hundred is finite and has no sign. -/
theorem writable_quarter {k : Nat} (hk : k < 400) :
    (k.toFloat / 4.0).isFinite = true ∧ signBit (k.toFloat / 4.0) = false := by
  have hbits := quarter_lt_infinity hk
  have hinfinity : Scaled.infinityBits < twoTo 63 := by decide
  have hsign : signBit (k.toFloat / 4.0) = false := decide_eq_false (by omega)
  rw [Bits.isFinite_iff, ← Bits.toNat_toBits_of_positive hsign]
  exact ⟨hbits, hsign⟩

theorem printable_of_made {e : Expr} (h : ∀ s ∈ e.subtrees, Made s) : e.Printable := by
  induction e with
  | number v =>
    obtain ⟨k, hk, rfl⟩ := h (.number v) List.mem_cons_self
    exact writable_quarter hk
  | var name =>
    have hname : name ∈ ["X", "Y", "T"] := h (.var name) List.mem_cons_self
    have hall : ∀ n ∈ ["X", "Y", "T"], n ∈ variableNames := by decide
    exact hall name hname
  | negate e ih | brackets e ih =>
    simp only [Expr.subtrees, List.forall_mem_cons] at h
    exact ih h.2
  | call name e ih =>
    simp only [Expr.subtrees, List.forall_mem_cons] at h
    obtain ⟨⟨f, rfl, -⟩, he⟩ := h
    exact ⟨f.isFunctionName_name, ih he⟩
  | binary l o r ihl ihr =>
    simp only [Expr.subtrees, List.forall_mem_cons, List.forall_mem_append] at h
    obtain ⟨ho, hl, hr⟩ := h
    exact ⟨ihl hl, ho, ihr hr⟩
  | call2 name l r infixed ihl ihr =>
    simp only [Expr.subtrees, List.forall_mem_cons, List.forall_mem_append] at h
    obtain ⟨⟨-, f, rfl, -⟩, hl, hr⟩ := h
    exact ⟨f.isFunctionName_name, ihl hl, ihr hr⟩
  | foreign => exact (h .foreign List.mem_cons_self).elim

theorem Grown.printable {n : Nat} {e : Expr} (h : Grown n e) : e.Printable :=
  printable_of_made h.made

end RandomEquation
end Isotherm
