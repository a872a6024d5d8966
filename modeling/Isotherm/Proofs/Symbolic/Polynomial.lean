import Isotherm.Symbolic.Value
import Mathlib

/-!
# Terms that are polynomials

A term that is made of exact integers and symbols by sums, products and natural powers denotes a
polynomial over the integers. The arithmetic of terms adds up like parts and joins like factors, in
an order of its own, but on such terms each operation gives a term of this kind again, and that
denotes the sum, the product or the power of the polynomials. The value of the term at integers is
that of the polynomial.
-/

namespace Isotherm

open MvPolynomial

/-! ## Exact integers -/

namespace Amount

theorem exact_inj {m n : ℤ} : exact m = exact n ↔ m = n := by
  simp [exact]

theorem plus_exact (m n : ℤ) : (exact m).plus (exact n) = exact (m + n : ℤ) := by
  simp [exact, plus, settle]

theorem times_exact (m n : ℤ) : (exact m).times (exact n) = exact (m * n : ℤ) := by
  by_cases hzero : m = 0 ∨ n = 0
  · have hproduct : m * n = 0 := mul_eq_zero.mpr hzero
    simp [exact, times, hproduct, hzero]
  · simp [exact, times, settle, hzero]

theorem isZero_exact_iff (m : ℤ) : (exact m).isZero = true ↔ m = 0 := by
  simp [isZero, exact]

theorem isOne_exact_iff (m : ℤ) : (exact m == exact 1) = true ↔ m = 1 := by
  simp [exact]

theorem integer?_exact (m : ℤ) : (exact m).integer? = some m := by
  simp [integer?, exact]

theorem power?_zero (a : Amount) : a.power? (exact 0) = some (exact 1) :=
  rfl

theorem power?_one (a : Amount) : a.power? (exact 1) = some a := by
  cases a <;> rfl

theorem power?_exact (m : ℤ) (n : ℕ) :
    (exact m).power? (exact (n : ℤ)) = some (exact (m ^ n : ℤ)) := by
  match n with
  | 0 => simpa using power?_zero (exact m)
  | 1 => simpa using power?_one (exact m)
  | n + 2 =>
    -- The literals of the two cases before this one are compared as fractions.
    have hfraction : ((n + 2 : ℕ) : ℚ) = ⟨Int.ofNat (n + 2), 1, by simp, by simp⟩ := rfl
    rw [Int.cast_natCast, hfraction]
    show some (integerPower (m : ℚ) false (n + 2 : ℕ)) = _
    have hneg : ¬ ((n + 2 : ℕ) : ℤ) < 0 := by omega
    simp only [integerPower, hneg, decide_false, Bool.and_false, Bool.false_eq_true, if_false]
    rw [zpow_natCast, Int.cast_pow]

end Amount

namespace Value

theorem plus_exact (m n : ℤ) :
    (amount (.exact m)).plus (amount (.exact n)) = amount (.exact (m + n : ℤ)) :=
  congrArg amount (Amount.plus_exact m n)

theorem times_exact (m n : ℤ) :
    (amount (.exact m)).times (amount (.exact n)) = amount (.exact (m * n : ℤ)) :=
  congrArg amount (Amount.times_exact m n)

theorem power_exact (m : ℤ) (n : ℕ) :
    (amount (.exact m)).power (amount (.exact (n : ℤ))) = amount (.exact (m ^ n : ℤ)) := by
  simp only [power, Amount.power?_exact]

end Value

namespace Term

/-- The term is made of exact integers, of symbols with the given names, and of sums, products and
natural powers, and this is the polynomial that it stands for. -/
inductive Denotes (names : Set String) : Term → MvPolynomial String ℤ → Prop where
  | number (n : ℤ) : Denotes names (number (.exact n)) n
  | symbol {name : String} (h : name ∈ names) : Denotes names (symbol name) (X name)
  | add (k : ℤ) {part rest : Term} {P R : MvPolynomial String ℤ} (hpart : Denotes names part P)
      (hrest : Denotes names rest R) : Denotes names (add (.exact k) part rest) (k * P + R)
  | multiply (n : ℕ) {base rest : Term} {B R : MvPolynomial String ℤ} (hbase : Denotes names base B)
      (hrest : Denotes names rest R) :
      Denotes names (multiply base (number (.exact (n : ℤ))) rest) (B ^ n * R)

variable {names : Set String} {a b : Term} {P Q : MvPolynomial String ℤ}

namespace Denotes

theorem congr (h : Denotes names a P) (hPQ : P = Q) : Denotes names a Q :=
  hPQ ▸ h

theorem zero : Denotes names zero 0 :=
  (number 0).congr Int.cast_zero

theorem one : Denotes names one 1 :=
  (number 1).congr Int.cast_one

theorem number_iff {n : ℤ} : Denotes names (Term.number (.exact n)) P ↔ P = n := by
  constructor
  · intro h
    generalize ht : Term.number (.exact n) = t at h
    cases h with
    | number m => rw [Amount.exact_inj.mp (Term.number.inj ht)]
    | _ => cases ht
  · intro h
    exact (Denotes.number n).congr h.symm

theorem add_inv {k : ℤ} {part rest : Term} (h : Denotes names (Term.add (.exact k) part rest) P) :
    ∃ Q R, Denotes names part Q ∧ Denotes names rest R ∧ P = k * Q + R := by
  generalize ht : Term.add (.exact k) part rest = t at h
  cases h with
  | add m hpart hrest =>
    obtain ⟨hk, rfl, rfl⟩ := Term.add.inj ht
    rw [Amount.exact_inj.mp hk]
    exact ⟨_, _, hpart, hrest, rfl⟩
  | _ => cases ht

theorem multiply_inv {n : ℕ} {base rest : Term}
    (h : Denotes names (Term.multiply base (Term.number (.exact (n : ℤ))) rest) P) :
    ∃ B R, Denotes names base B ∧ Denotes names rest R ∧ P = B ^ n * R := by
  generalize ht : Term.multiply base (Term.number (.exact (n : ℤ))) rest = t at h
  cases h with
  | multiply m hbase hrest =>
    obtain ⟨rfl, hn, rfl⟩ := Term.multiply.inj ht
    obtain rfl : n = m := by exact_mod_cast Amount.exact_inj.mp (Term.number.inj hn)
    exact ⟨_, _, hbase, hrest, rfl⟩
  | _ => cases ht

/-- A term denotes one polynomial. -/
theorem unique (h : Denotes names a P) (h' : Denotes names a Q) : P = Q := by
  induction h generalizing Q with
  | number n => exact (number_iff.mp h').symm
  | symbol =>
    cases h'
    rfl
  | add k _ _ ihp ihr =>
    obtain ⟨P', R', hp, hr, rfl⟩ := h'.add_inv
    rw [ihp hp, ihr hr]
  | multiply n _ _ ihb ihr =>
    obtain ⟨B', R', hb, hr, rfl⟩ := h'.multiply_inv
    rw [ihb hb, ihr hr]

/-! ## Sums -/

theorem addNumber (n : ℤ) (h : Denotes names a P) :
    Denotes names (addNumber (.exact n) a) (P + n) := by
  induction h with
  | number m =>
    rw [Term.addNumber, Amount.plus_exact]
    exact (number _).congr (by push_cast; ring)
  | add k hpart _ _ ihr => exact (add k hpart ihr).congr (by ring)
  | symbol hname => exact (add 1 (symbol hname) (number n)).congr (by push_cast; ring)
  | multiply m hbase hrest =>
    exact (add 1 (multiply m hbase hrest) (number n)).congr (by push_cast; ring)

/-- A new part that stands in the sum already changes its coefficient, and removes it if the two
cancel. -/
theorem addPart (k : ℤ) (hpart : Denotes names a P) (h : Denotes names b Q) :
    Denotes names (addPart (.exact k) a b) (Q + k * P) := by
  induction h with
  | number m =>
    rw [Term.addPart]
    by_cases hk : k = 0
    · rw [if_pos ((Amount.isZero_exact_iff k).mpr hk)]
      exact (number m).congr (by simp [hk])
    · rw [if_neg (mt (Amount.isZero_exact_iff k).mp hk)]
      exact (add k hpart (number m)).congr (by ring)
  | @add m part rest M R hm hrest _ ihr =>
    rw [Term.addPart]
    split
    · next heq =>
      subst heq
      -- Parts are compared as terms, and equal terms denote equal polynomials.
      obtain rfl := hpart.unique hm
      simp only [Amount.plus_exact]
      by_cases hsum : m + k = 0
      · rw [if_pos ((Amount.isZero_exact_iff (m + k)).mpr hsum)]
        refine hrest.congr ?_
        calc R = ((m + k : ℤ) : MvPolynomial String ℤ) * P + R := by simp [hsum]
          _ = m * P + R + k * P := by push_cast; ring
      · rw [if_neg (mt (Amount.isZero_exact_iff (m + k)).mp hsum)]
        exact (add (m + k) hpart hrest).congr (by push_cast; ring)
    · split
      · exact (add m hm ihr).congr (by ring)
      · exact (add k hpart (add m hm hrest)).congr (by ring)
  | symbol hname => exact (add k hpart (add 1 (symbol hname) zero)).congr (by push_cast; ring)
  | multiply n hbase hrest =>
    exact (add k hpart (add 1 (multiply n hbase hrest) zero)).congr (by push_cast; ring)

theorem addChain (h : Denotes names a P) (h' : Denotes names b Q) :
    Denotes names (addChain a b) (P + Q) := by
  induction h generalizing b Q with
  | number n => exact (h'.addNumber n).congr (by ring)
  | add k hpart _ _ ihr => exact (ihr (addPart k hpart h')).congr (by ring)
  | symbol hname => exact (addPart 1 (symbol hname) h').congr (by push_cast; ring)
  | multiply n hbase hrest =>
    exact (addPart 1 (multiply n hbase hrest) h').congr (by push_cast; ring)

theorem toSum (h : Denotes names a P) : Denotes names a.toSum P := by
  cases h with
  | number n => exact number n
  | add k hpart hrest => exact add k hpart hrest
  | symbol hname => exact (add 1 (symbol hname) zero).congr (by push_cast; ring)
  | multiply n hbase hrest =>
    exact (add 1 (multiply n hbase hrest) zero).congr (by push_cast; ring)

theorem ofSum (h : Denotes names a P) : Denotes names (ofSum a) P := by
  cases h with
  | number n => exact number n
  | @add k part rest M R hpart hrest =>
    rw [Term.ofSum]
    split
    · next hlone =>
      rw [Bool.and_eq_true, Amount.isOne_exact_iff, beq_iff_eq] at hlone
      obtain ⟨rfl, rfl⟩ := hlone
      have hR : R = 0 := hrest.unique zero
      exact hpart.congr (by rw [hR]; push_cast; ring)
    · exact add k hpart hrest
  | symbol hname => exact symbol hname
  | multiply n hbase hrest => exact multiply n hbase hrest

theorem plus (h : Denotes names a P) (h' : Denotes names b Q) :
    Denotes names (a.plus b) (P + Q) :=
  ((h'.toSum.addChain h.toSum).ofSum).congr (add_comm Q P)

theorem scaleChain (k : ℤ) (h : Denotes names a P) :
    Denotes names (scaleChain (.exact k) a) (k * P) := by
  induction h with
  | number n =>
    rw [Term.scaleChain, Amount.times_exact]
    exact (number _).congr (by push_cast; ring)
  | add m hpart _ _ ihr =>
    rw [Term.scaleChain, Amount.times_exact]
    exact (add (k * m) hpart ihr).congr (by push_cast; ring)
  | symbol hname => exact (add k (symbol hname) zero).congr (by ring)
  | multiply n hbase hrest => exact (add k (multiply n hbase hrest) zero).congr (by ring)

theorem scale (k : ℤ) (h : Denotes names a P) : Denotes names (scale (.exact k) a) (k * P) := by
  rw [Term.scale]
  split
  · next hone =>
    rw [Amount.isOne_exact_iff] at hone
    exact h.congr (by simp [hone])
  · split
    · next hzero =>
      rw [Amount.isZero_exact_iff] at hzero
      exact zero.congr (by simp [hzero])
    · exact (h.toSum.scaleChain k).ofSum

theorem negated (h : Denotes names a P) : Denotes names a.negated (-P) :=
  (h.scale (-1)).congr (by push_cast; ring)

theorem minus (h : Denotes names a P) (h' : Denotes names b Q) :
    Denotes names (a.minus b) (P - Q) :=
  (h.plus h'.negated).congr (sub_eq_add_neg P Q).symm

end Denotes

/-! ## Exponents -/

theorem plus_number (m n : ℤ) :
    (number (.exact m)).plus (number (.exact n)) = number (.exact (m + n : ℤ)) := by
  simp only [plus, toSum, addChain, addNumber, Amount.plus_exact, ofSum]

theorem scale_one (k : ℤ) : scale (.exact k) one = number (.exact k) := by
  rw [scale]
  split
  · next hone =>
    rw [Amount.isOne_exact_iff] at hone
    rw [hone, one, Int.cast_one]
  · split
    · next hzero =>
      rw [Amount.isZero_exact_iff] at hzero
      rw [hzero, zero, Int.cast_zero]
    · have hproduct := Amount.times_exact k 1
      rw [Int.cast_one, mul_one] at hproduct
      exact congrArg number hproduct

theorem times_number (m n : ℤ) :
    (number (.exact m)).times (number (.exact n)) = number (.exact (m * n : ℤ)) := by
  have hones : (Amount.exact 1).times (.exact 1) = .exact 1 := by
    simpa using Amount.times_exact 1 1
  have hright (k : ℤ) : (Amount.exact k).times (.exact 1) = .exact k := by
    simpa using Amount.times_exact k 1
  show scale (((Amount.exact m).times (.exact n)).times ((Amount.exact 1).times (.exact 1))) one = _
  rw [hones, Amount.times_exact, hright, scale_one]

namespace Denotes

/-! ## Products -/

theorem endWith (n : ℤ) (h : Denotes names a P) :
    Denotes names (joinFactor.endWith (.exact n) a) (P * n) := by
  induction h with
  | number m =>
    rw [joinFactor.endWith, Amount.times_exact]
    exact (number _).congr (by push_cast; ring)
  | multiply m hbase _ _ ihr => exact (multiply m hbase ihr).congr (by ring)
  | symbol hname => exact (multiply 1 (symbol hname) (number n)).congr (by ring)
  | add k hpart hrest => exact (multiply 1 (add k hpart hrest) (number n)).congr (by ring)

theorem joinFactor (n : ℕ) (hbase : Denotes names a P) (h : Denotes names b Q) :
    Denotes names (joinFactor a (Term.number (.exact (n : ℤ))) b) (P ^ n * Q) := by
  unfold Term.joinFactor
  split
  · next hzero =>
    have hn : n = 0 := by exact_mod_cast Amount.exact_inj.mp (Term.number.inj hzero)
    exact h.congr (by simp [hn])
  · cases hbase with
    | number m =>
      simp only [Amount.power?_exact]
      exact (h.endWith (m ^ n)).congr (by push_cast; ring)
    | symbol hname => exact multiply n (symbol hname) h
    | add k hpart hrest => exact multiply n (add k hpart hrest) h
    | multiply m hbase hrest => exact multiply n (multiply m hbase hrest) h

theorem multiplyFactor (n : ℕ) (hbase : Denotes names a P) (h : Denotes names b Q) :
    Denotes names (multiplyFactor a (Term.number (.exact (n : ℤ))) b) (P ^ n * Q) := by
  induction h with
  | @multiply m base rest B R hB hrest _ ihr =>
    rw [Term.multiplyFactor]
    split
    · next heq =>
      subst heq
      obtain rfl := hbase.unique hB
      rw [plus_number]
      have hjoined := joinFactor (m + n) hbase hrest
      push_cast at hjoined ⊢
      exact hjoined.congr (by ring)
    · split
      · exact (multiply m hB ihr).congr (by ring)
      · exact multiply n hbase (multiply m hB hrest)
  | number m => exact multiply n hbase (number m)
  | symbol hname => exact multiply n hbase (symbol hname)
  | add k hpart hrest => exact multiply n hbase (add k hpart hrest)

theorem multiplyChain (h : Denotes names a P) (h' : Denotes names b Q) :
    Denotes names (multiplyChain a b) (P * Q) := by
  induction h generalizing b Q with
  | number n => exact (h'.endWith n).congr (by ring)
  | multiply n hbase _ _ ihr => exact (ihr (multiplyFactor n hbase h')).congr (by ring)
  | symbol hname => exact (multiplyFactor 1 (symbol hname) h').congr (by ring)
  | add k hpart hrest => exact (multiplyFactor 1 (add k hpart hrest) h').congr (by ring)

theorem toProduct (h : Denotes names a P) : Denotes names a.toProduct P := by
  cases h with
  | number n => exact number n
  | multiply n hbase hrest => exact multiply n hbase hrest
  | symbol hname => exact (multiply 1 (symbol hname) one).congr (by ring)
  | add k hpart hrest => exact (multiply 1 (add k hpart hrest) one).congr (by ring)

theorem ofProduct (h : Denotes names a P) : Denotes names (ofProduct a) P := by
  cases h with
  | @multiply n base rest B R hbase hrest =>
    rw [Term.ofProduct]
    split
    · next hlone =>
      rw [Bool.and_eq_true, beq_iff_eq, beq_iff_eq] at hlone
      obtain ⟨hn, rfl⟩ := hlone
      obtain rfl : n = 1 := by exact_mod_cast Amount.exact_inj.mp (Term.number.inj hn)
      have hR : R = 1 := hrest.unique one
      exact hbase.congr (by rw [hR]; ring)
    · exact multiply n hbase hrest
  | number n => exact number n
  | symbol hname => exact symbol hname
  | add k hpart hrest => exact add k hpart hrest

/-- A chain of factors without the number at its end is what that number multiplies. -/
theorem takeNumber (h : Denotes names a P) :
    ∃ (k : ℤ) (Q : MvPolynomial String ℤ), (takeNumber a).1 = .exact k ∧
      Denotes names (takeNumber a).2 Q ∧ P = k * Q := by
  induction h with
  | number n => exact ⟨n, 1, rfl, one, (mul_one _).symm⟩
  | multiply n hbase _ _ ihr =>
    obtain ⟨k, Q, hk, hQ, rfl⟩ := ihr
    exact ⟨k, _, hk, multiply n hbase hQ, by ring⟩
  | symbol hname => exact ⟨1, _, rfl, symbol hname, by push_cast; ring⟩
  | add k hpart hrest => exact ⟨1, _, rfl, add k hpart hrest, by push_cast; ring⟩

theorem split (h : Denotes names a P) :
    ∃ (k : ℤ) (Q : MvPolynomial String ℤ), a.split.1 = .exact k ∧
      Denotes names a.split.2 Q ∧ P = k * Q := by
  cases h with
  | number n => exact ⟨n, 1, rfl, one, (mul_one _).symm⟩
  | @add k part rest M R hpart hrest =>
    rw [Term.split]
    split
    · next hzero =>
      obtain rfl := beq_iff_eq.mp hzero
      have hR : R = 0 := hrest.unique zero
      exact ⟨k, M, rfl, hpart, by rw [hR, add_zero]⟩
    · exact ⟨1, _, rfl, add k hpart hrest, by push_cast; ring⟩
  | symbol hname => exact ⟨1, _, rfl, symbol hname, by push_cast; ring⟩
  | multiply n hbase hrest => exact ⟨1, _, rfl, multiply n hbase hrest, by push_cast; ring⟩

/-- What a chain of factors stands for when its number is put in front of it. -/
theorem scale_takeNumber (k : ℤ) (h : Denotes names a P) :
    Denotes names (Term.scale ((Amount.exact k).times (Term.takeNumber a).1)
      (Term.ofProduct (Term.takeNumber a).2)) (k * P) := by
  obtain ⟨j, Q, hj, hQ, rfl⟩ := h.takeNumber
  rw [hj, Amount.times_exact]
  exact (hQ.ofProduct.scale (k * j)).congr (by push_cast; ring)

theorem times (h : Denotes names a P) (h' : Denotes names b Q) :
    Denotes names (a.times b) (P * Q) := by
  obtain ⟨j, P', hj, hP, rfl⟩ := h.split
  obtain ⟨k, Q', hk, hQ, rfl⟩ := h'.split
  have hchain := hQ.toProduct.multiplyChain hP.toProduct
  show Denotes names (Term.scale ((a.split.1.times b.split.1).times _) _) _
  rw [hj, hk, Amount.times_exact]
  exact (hchain.scale_takeNumber (j * k)).congr (by push_cast; ring)

/-! ## Powers -/

theorem raiseChain (n : ℕ) (h : Denotes names a P) :
    Denotes names (raiseChain (.exact (n : ℤ)) a) (P ^ n) := by
  induction h with
  | number m =>
    rw [Term.raiseChain, Amount.power?_exact]
    exact (number _).congr (by push_cast; ring)
  | multiply m hbase _ _ ihr =>
    rw [Term.raiseChain, times_number]
    have hjoined := joinFactor (m * n) hbase ihr
    push_cast at hjoined ⊢
    exact hjoined.congr (by ring)
  | symbol hname => exact (multiply n (symbol hname) one).congr (by ring)
  | add k hpart hrest => exact (multiply n (add k hpart hrest) one).congr (by ring)

theorem lonePower (n : ℕ) (h : Denotes names a P) :
    Denotes names (lonePower a (Term.number (.exact (n : ℤ)))) (P ^ n) := by
  obtain ⟨k, Q, hk, hQ, hP⟩ := (joinFactor n h one).takeNumber
  show Denotes names (Term.scale (Term.takeNumber _).1 _) _
  rw [hk]
  exact (hQ.ofProduct.scale k).congr (by rw [← hP]; ring)

theorem factorPower (n : ℕ) (h : Denotes names a P) :
    Denotes names (factorPower a (.exact (n : ℤ))) (P ^ n) := by
  cases h with
  | number m => exact (number m).lonePower n
  | symbol hname => exact (symbol hname).lonePower n
  | add k hpart hrest => exact (add k hpart hrest).lonePower n
  | multiply m hbase hrest => exact (multiply m hbase hrest).lonePower n

theorem integerPower (n : ℕ) (h : Denotes names a P) :
    Denotes names (integerPower a (.exact (n : ℤ))) (P ^ n) := by
  obtain ⟨k, Q, hk, hQ, rfl⟩ := h.split
  rw [Term.integerPower]
  generalize a.split = parts at hk hQ
  obtain ⟨c, p⟩ := parts
  subst hk
  simp only [Amount.power?_exact]
  have hpower : ((k ^ n : ℤ) : MvPolynomial String ℤ) * Q ^ n = (k * Q) ^ n := by
    rw [Int.cast_pow, mul_pow]
  have hscaled := (hQ.factorPower n).scale (k ^ n)
  cases hQ with
  | multiply m hbase hrest =>
    have hraised := (multiply m hbase hrest).raiseChain n
    exact (hraised.scale_takeNumber (k ^ n)).congr hpower
  | _ => exact hscaled.congr hpower

theorem power (n : ℕ) (h : Denotes names a P) :
    Denotes names (power a (Term.number (.exact (n : ℤ)))) (P ^ n) := by
  rw [Term.power]
  split
  · next htrivial =>
    rw [Bool.or_eq_true, decide_eq_true_eq, decide_eq_true_eq] at htrivial
    cases htrivial with
    | inl hzero =>
      have hn : n = 0 := by exact_mod_cast Amount.exact_inj.mp (Term.number.inj hzero)
      exact one.congr (by simp [hn])
    | inr hone =>
      have hP : P = 1 := (hone ▸ h).unique one
      exact one.congr (by simp [hP])
  · split
    · next hone =>
      have hn : n = 1 := by exact_mod_cast Amount.exact_inj.mp (Term.number.inj hone)
      exact h.congr (by simp [hn])
    · simp only [Amount.integer?_exact, Option.isSome_some, if_true]
      exact h.integerPower n

end Denotes

/-! ## Values and symbols -/

namespace Denotes

variable {lookup : String → Value} {point : String → ℤ}

theorem beq_euler (h : Denotes names a P) : (a == euler) = false := by
  cases h <;> rfl

/-- At integers a polynomial term has the value of its polynomial, and no call is left over. -/
theorem value_eq (h : Denotes names a P)
    (hlookup : ∀ name ∈ names, lookup name = .amount (.exact (point name))) :
    a.value lookup = .ok (.amount (.exact (eval point P : ℤ))) := by
  induction h with
  | number n => simp [Term.value]
  | symbol hname => simp [Term.value, hlookup _ hname]
  | add k _ _ ihp ihr =>
    rw [Term.value, ihp, ihr]
    show Except.ok ((Value.times _ _).plus _) = _
    rw [Value.times_exact, Value.plus_exact]
    simp
  | multiply n hbase _ ihb ihr =>
    rw [Term.value, ihb, ihr]
    show Except.ok (Value.times (if _ == euler then _ else Value.power _ _) _) = _
    rw [hbase.beq_euler, if_neg Bool.false_ne_true, Value.power_exact, Value.times_exact]
    simp

theorem symbols_subset (h : Denotes names a P) : ∀ name ∈ a.symbols, name ∈ names := by
  induction h with
  | number n => simp [symbols]
  | symbol hname => simpa [symbols] using hname
  | add k _ _ ihp ihr =>
    intro name hmem
    rw [symbols, List.mem_append] at hmem
    exact hmem.elim (ihp name) (ihr name)
  | multiply n _ _ ihb ihr =>
    intro name hmem
    rw [symbols, symbols, List.append_nil, List.mem_append] at hmem
    exact hmem.elim (ihb name) (ihr name)

end Denotes
end Term
end Isotherm
