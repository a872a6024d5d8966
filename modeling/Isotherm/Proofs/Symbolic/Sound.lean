import Isotherm.Proofs.Number.Whole
import Isotherm.Proofs.Symbolic.Polynomial
import Isotherm.Symbolic.Terms

/-!
# Sound algebras

What polynomials ask of an algebra: its integers and symbols, sums, differences, products, natural
powers and negations stand for what they are called. Whatever form a sound algebra gives to its
terms, it then computes with polynomials. The algebra of terms in normal form is sound.
-/

namespace Isotherm

open MvPolynomial

/-- Operations of an algebra that are sound for polynomials, where `Denotes a P` says that the term
`a` stands for `P`. An operation on terms that stand for polynomials is not refused, and its result
has no symbols but those of the terms. -/
structure Algebra.Sound {τ : Type} (A : Algebra τ) (Denotes : τ → MvPolynomial String ℤ → Prop) :
    Prop where
  integer (n : ℤ) : Denotes (A.integer n) n ∧ A.symbols (A.integer n) = []
  symbol (name : String) : Denotes (A.symbol name) (X name) ∧ A.symbols (A.symbol name) = [name]
  plus {a b P Q} (h : Denotes a P) (h' : Denotes b Q) :
    ∃ c, A.plus a b = .ok c ∧ Denotes c (P + Q) ∧ A.symbols c ⊆ A.symbols a ++ A.symbols b
  minus {a b P Q} (h : Denotes a P) (h' : Denotes b Q) :
    ∃ c, A.minus a b = .ok c ∧ Denotes c (P - Q) ∧ A.symbols c ⊆ A.symbols a ++ A.symbols b
  times {a b P Q} (h : Denotes a P) (h' : Denotes b Q) :
    ∃ c, A.times a b = .ok c ∧ Denotes c (P * Q) ∧ A.symbols c ⊆ A.symbols a ++ A.symbols b
  power {a P} (h : Denotes a P) (n : ℕ) :
    ∃ c, A.power a (A.integer n) = .ok c ∧ Denotes c (P ^ n) ∧ A.symbols c ⊆ A.symbols a
  negated {a P} (h : Denotes a P) :
    ∃ c, A.negated a = .ok c ∧ Denotes c (-P) ∧ A.symbols c ⊆ A.symbols a

namespace Term

variable {names : Set String} {a b : Term} {P Q : MvPolynomial String ℤ}

theorem Denotes.of_symbols (h : Denotes names a P) {others : Set String}
    (hsymbols : ∀ s ∈ a.symbols, s ∈ others) : Denotes others a P := by
  induction h with
  | number n => exact .number n
  | symbol h => exact .symbol (hsymbols _ List.mem_cons_self)
  | add k hpart hrest ihp ihr =>
    simp only [symbols, List.forall_mem_append] at hsymbols
    exact .add k (ihp hsymbols.1) (ihr hsymbols.2)
  | multiply n hbase hrest ihb ihr =>
    simp only [symbols, List.forall_mem_append, List.append_nil] at hsymbols
    exact .multiply n (ihb hsymbols.1) (ihr hsymbols.2)

/-- A term that keeps to some symbols as the result of an operation. -/
theorem Denotes.exists_ok {symbols : List String} (h : Denotes {s | s ∈ symbols} a P) :
    ∃ c, Except.ok a = (.ok c : Except Refusal Term) ∧ Denotes Set.univ c P ∧
      c.symbols ⊆ symbols :=
  ⟨a, rfl, h.of_symbols fun _ _ => trivial, fun s hs => h.symbols_subset s hs⟩

theorem algebra_sound : algebra.Sound (Denotes Set.univ) where
  integer n := ⟨.number n, rfl⟩
  symbol _ := ⟨.symbol trivial, rfl⟩
  plus h h' :=
    ((h.of_symbols fun _ => List.mem_append_left _).plus
      (h'.of_symbols fun _ => List.mem_append_right _)).exists_ok
  minus h h' :=
    ((h.of_symbols fun _ => List.mem_append_left _).minus
      (h'.of_symbols fun _ => List.mem_append_right _)).exists_ok
  times h h' :=
    ((h.of_symbols fun _ => List.mem_append_left _).times
      (h'.of_symbols fun _ => List.mem_append_right _)).exists_ok
  power h n := ((h.of_symbols fun _ hs => hs).power n).exists_ok
  negated h := (h.of_symbols fun _ hs => hs).negated.exists_ok

end Term

theorem Algebra.literal_of_isWhole {τ : Type} (A : Algebra τ) {v : Float}
    (h : Integral.IsWhole v) : A.literal v = A.integer (Integral.value v) := by
  rw [literal, h.1, h.2, Bool.true_and, if_pos rfl]

end Isotherm
