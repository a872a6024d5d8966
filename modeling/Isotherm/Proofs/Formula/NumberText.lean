import Isotherm.Proofs.Formula.Language
import Isotherm.Proofs.Number.FewestDigits
import Isotherm.Proofs.Number.Signed
import Isotherm.Proofs.Number.Written

/-!
# The text of a number

Every finite double is written as a numeral behind its sign. The numeral stands for the decimal with
the fewest digits that is read as the double, and it has an exponent where the first digit of that
decimal lies too far from the point. Without a sign the text is one token.
-/

namespace Isotherm

open Text

/-! ## Numerals with an exponent -/

/-- A numeral has an exponent where its characters have an exponent letter. -/
theorem Numeral.exponent_isSome_iff {n : Numeral} (h : n.WellFormed) :
    n.exponent.isSome = true ↔ ∃ c ∈ n.chars, c = 'e' ∨ c = 'E' := by
  cases hexponent : n.exponent with
  | some e =>
    obtain ⟨letter, sign, digits⟩ := e
    refine iff_of_true rfl ⟨letter, ?_, h.letter _ hexponent⟩
    rw [chars_eq, List.mem_append]
    right
    unfold exponentChars
    rw [hexponent]
    exact List.mem_cons_self
  | none =>
    refine iff_of_false Bool.false_ne_true ?_
    rintro ⟨c, hc, hletter⟩
    have hnone : n.exponentChars = [] := by rw [exponentChars, hexponent]
    have hdigit : isDigit c = true ∨ c = '.' := by
      rw [chars_eq, hnone, List.append_nil, List.mem_append] at hc
      rcases hc with hc | hc
      · exact .inl (h.whole c hc)
      · unfold fractionChars at hc
        split at hc
        · cases hc
        · exact (List.mem_cons.mp hc).symm.imp_left (h.fraction c)
    rcases hletter with rfl | rfl <;> revert hdigit <;> decide

namespace Style

open Shortest

/-- Positional writing uses digits and the point. -/
theorem mem_positional {style : Style} {digits : List Char} (h : ∀ c ∈ digits, isDigit c = true)
    {exponent : Int} {c : Char} (hc : c ∈ style.positional digits exponent) :
    isDigit c = true ∨ c = '.' := by
  have hzero : isDigit '0' = true := by decide
  unfold positional at hc
  dsimp only at hc
  split at hc
  · simp only [List.mem_cons, List.mem_append, List.mem_replicate] at hc
    rcases hc with rfl | rfl | ⟨-, rfl⟩ | hc
    · exact .inl hzero
    · exact .inr rfl
    · exact .inl hzero
    · exact .inl (h c hc)
  · split at hc
    · simp only [List.mem_append, List.mem_replicate] at hc
      rcases hc with (hc | ⟨-, rfl⟩) | hc
      · exact .inl (h c hc)
      · exact .inl hzero
      · split at hc
        · simp only [List.mem_cons, List.not_mem_nil, or_false] at hc
          rcases hc with rfl | rfl
          · exact .inr rfl
          · exact .inl hzero
        · cases hc
    · rcases List.mem_append.mp hc with hc | hc
      · exact .inl (h c (List.mem_of_mem_take hc))
      · rcases List.mem_cons.mp hc with rfl | hc
        · exact .inr rfl
        · exact .inl (h c (List.mem_of_mem_drop hc))

theorem mem_scientific (digits : List Char) (exponent : Int) : 'e' ∈ scientific digits exponent := by
  unfold scientific
  dsimp only
  exact List.mem_append_right _ List.mem_cons_self

theorem length_toDigits {m : Nat} (hm : m ≠ 0) :
    (Nat.toDigits 10 m).length = Decimal.digitCount m := by
  have hpos : 0 < Decimal.digitCount m := by
    rw [Decimal.digitCount, if_neg hm]
    exact Nat.succ_pos _
  apply Nat.le_antisymm
  · exact (Nat.length_toDigits_le_iff (by decide) hpos).mpr (Decimal.lt_digitCount m)
  · apply Decimal.digitCount_le_of_lt
    exact (Nat.length_toDigits_le_iff (by decide) Nat.length_toDigits_pos).mp le_rfl

/-- A decimal is written with an exponent where its first digit is out of the range of positional
writing. -/
theorem exists_numeral (style : Style) {d : Decimal} (hd : d.significand ≠ 0) :
    ∃ n : Numeral, n.WellFormed ∧ n.chars = style.ofDecimal d ∧ n.decimal.value = d.value ∧
      (n.exponent.isSome = true ↔
        d.leading < style.positionalFrom ∨ style.positionalBelow ≤ d.leading) := by
  obtain ⟨n, hn, hchars, hvalue⟩ := writes_ofDecimal style d
  refine ⟨n, hn, hchars, hvalue, ?_⟩
  have hleading : d.exponent + (Nat.toDigits 10 d.significand).length - 1 = d.leading := by
    rw [length_toDigits hd, Decimal.leading]
    omega
  rw [Numeral.exponent_isSome_iff hn, hchars, ofDecimal, hleading]
  split
  next h =>
    simp only [Bool.and_eq_true, decide_eq_true_eq] at h
    refine iff_of_false ?_ (by omega)
    rintro ⟨c, hc, hletter⟩
    have hdigit := mem_positional (isDigit_toDigits d.significand) hc
    rcases hletter with rfl | rfl <;> revert hdigit <;> decide
  next h =>
    simp only [Bool.and_eq_true, decide_eq_true_eq] at h
    exact iff_of_true ⟨'e', mem_scientific _ _, .inl rfl⟩ (by omega)

/-! ## Doubles with a sign -/

/-- A finite double other than zero is read from the decimals of its basin with its sign. -/
theorem toFloat_eq_iff {x : Float} (hx : x.isFinite = true) (hm : (Scaled.ofFloat x).mantissa ≠ 0)
    (d : Decimal) :
    d.toFloat (signBit x) = x ↔ (Basin.ofScaled (Scaled.ofFloat x)).Holds d.value := by
  refine ⟨holds_of_toFloat hx hm, fun h => ?_⟩
  cases hs : signBit x with
  | false => exact toFloat_eq_of_holds hx hs hm h
  | true =>
    have hneg : (-x).isFinite = true := by rw [Bits.isFinite_neg, hx]
    have hpositive : signBit (-x) = false := by rw [Bits.signBit_neg hx, hs, Bool.not_true]
    obtain ⟨hmantissa, hexponent⟩ :=
      Scaled.parts_eq_of_magnitudeBits_eq (Bits.magnitudeBits_neg hx)
    have hbasin : Basin.ofScaled (Scaled.ofFloat (-x)) = Basin.ofScaled (Scaled.ofFloat x) := by
      unfold Basin.ofScaled
      rw [hmantissa, hexponent]
    rw [← hmantissa] at hm
    rw [← hbasin] at h
    rw [Decimal.toFloat_true, toFloat_eq_of_holds hneg hpositive hm h, Bits.neg_neg]

theorem toFloat_signed_zero {x : Float} (hm : (Scaled.ofFloat x).mantissa = 0) :
    (⟨0, 0⟩ : Decimal).toFloat (signBit x) = x := by
  have hzero : (⟨0, 0⟩ : Decimal).toFloat (signBit x) = Scaled.nearest (signBit x) 0 1 := rfl
  rw [hzero]
  apply Bits.eq_of_parts
  · rw [Scaled.signBit_nearest_eq]
  · rw [Scaled.magnitudeBits_nearest, if_pos rfl, Bits.magnitudeBits_eq_zero hm]

theorem chars_of_isFinite (style : Style) {x : Float} (hx : x.isFinite = true) :
    style.chars x = Numeral.signChars (signBit x) ++ style.magnitude (Scaled.ofFloat x) := by
  unfold chars Numeral.signChars
  simp only [Bits.not_isNaN_of_isFinite hx, Bits.not_isInf_of_isFinite hx, Bool.false_eq_true,
    ↓reduceIte]

/-- The shortest numeral of a double, behind its sign. -/
theorem exists_shortest {x : Float} (hx : x.isFinite = true)
    (hm : (Scaled.ofFloat x).mantissa ≠ 0) :
    ∃ n : Numeral, n.WellFormed ∧ formula.magnitude (Scaled.ofFloat x) = n.chars ∧
      n.decimal.toFloat (signBit x) = x ∧
      (∀ d : Decimal, d.toFloat (signBit x) = x →
        n.decimal.significantDigits ≤ d.significantDigits) ∧
      (n.exponent.isSome = true ↔ n.decimal.leading < -4 ∨ 6 ≤ n.decimal.leading) := by
  have hcan := Scaled.canonical_ofFloat hx hm
  have hdigits := digits_holds hcan
  have hsignificand := significand_ne_zero_of_holds hcan.pos hdigits
  obtain ⟨n, hn, hchars, hvalue, hexponent⟩ := exists_numeral formula hsignificand
  have hholds : (Basin.ofScaled (Scaled.ofFloat x)).Holds n.decimal.value := by rwa [hvalue]
  have hne := significand_ne_zero_of_holds hcan.pos hholds
  refine ⟨n, hn, ?_, (toFloat_eq_iff hx hm _).mpr hholds, ?_, ?_⟩
  · rw [magnitude, if_neg hm, hchars]
  · intro d hd
    exact (Decimal.significantDigits_le_of_value_eq hne hvalue).trans
      (significantDigits_digits_le hcan ((toFloat_eq_iff hx hm d).mp hd))
  · rw [Decimal.leading_eq_of_value_eq hne hsignificand hvalue]
    exact hexponent

/-- The text of a finite double is a numeral behind its sign that is read as the double. -/
theorem exists_signed_numeral {x : Float} (hx : x.isFinite = true) :
    ∃ n : Numeral, n.WellFormed ∧
      (formula.text x).toList = Numeral.signChars (signBit x) ++ n.chars ∧
      n.decimal.toFloat (signBit x) = x := by
  have htext : (formula.text x).toList =
      Numeral.signChars (signBit x) ++ formula.magnitude (Scaled.ofFloat x) := by
    rw [text, String.toList_ofList, chars_of_isFinite formula hx]
  by_cases hm : (Scaled.ofFloat x).mantissa = 0
  · refine ⟨⟨['0'], [], none⟩, wellFormed_plain (by simp) (isDigit_zeros 1) (by simp), ?_,
      toFloat_signed_zero hm⟩
    rw [htext, magnitude, if_pos hm]
    rfl
  · obtain ⟨n, hn, hchars, hread, -⟩ := exists_shortest hx hm
    exact ⟨n, hn, by rw [htext, hchars], hread⟩

theorem mantissa_ne_zero {x : Float} (hx : x.isFinite = true) (h : (x == 0.0) = false) :
    (Scaled.ofFloat x).mantissa ≠ 0 := by
  intro hm
  rw [(Bits.beq_zero_iff hx).mpr hm] at h
  cases h

/-- The text of a finite double is read as the double, bit for bit; without a sign it is one token.
But for the zeros it stands for a decimal with the fewest digits of all that are read as the double,
and it has an exponent where the first of these digits lies beyond the fourth place behind the point
or the sixth in front of it. -/
theorem number_text_exact {x : Float} (hx : x.isFinite = true) :
    Numeral.real? (formula.text x) = some x ∧
      (signBit x = false →
        Token.tokenize (formula.text x) =
          .ok [⟨.number, formula.text x, 0, readable_text x⟩]) ∧
      ((x == 0.0) = false → ∃ n : Numeral, n.WellFormed ∧
        (formula.text x).toList = Numeral.signChars (signBit x) ++ n.chars ∧
        n.decimal.toFloat (signBit x) = x ∧
        (∀ d : Decimal, d.toFloat (signBit x) = x →
          n.decimal.significantDigits ≤ d.significantDigits) ∧
        (n.exponent.isSome = true ↔ n.decimal.leading < -4 ∨ 6 ≤ n.decimal.leading)) := by
  obtain ⟨n, hn, htext, hread⟩ := exists_signed_numeral hx
  refine ⟨?_, fun hs => ?_, fun hzero => ?_⟩
  · rw [← String.ofList_toList (s := formula.text x), htext, Numeral.real?_signed hn, hread]
  · have hchars : n.chars = (formula.text x).toList := by
      rw [htext, hs]
      rfl
    have hend : Token.Boundary [] := by simp [Token.Boundary]
    have hscan := Token.scan_numeral hn hchars (readable_text x) hend 0
    rw [List.append_nil, Token.scan_nil] at hscan
    rw [Token.tokenize_eq_ok, hscan]
    rfl
  · obtain ⟨n, hn, hchars, hshortest⟩ := exists_shortest hx (mantissa_ne_zero hx hzero)
    refine ⟨n, hn, ?_, hshortest⟩
    rw [text, String.toList_ofList, chars_of_isFinite formula hx, hchars]

/-- The least double is written with one digit and an exponent. -/
theorem number_text_exact_least :
    (5e-324 : Float).isFinite = true ∧ formula.text 5e-324 = "5e-324" ∧
      Numeral.real? "5e-324" = some 5e-324 ∧
      ∃ admitted, Token.tokenize "5e-324" = .ok [⟨.number, "5e-324", 0, admitted⟩] := by
  have hfinite : (5e-324 : Float).isFinite = true := by decide +kernel
  have htext : formula.text 5e-324 = "5e-324" := by decide +kernel
  obtain ⟨hread, htoken, -⟩ := number_text_exact hfinite
  rw [htext] at hread
  simp only [htext] at htoken
  exact ⟨hfinite, htext, hread, _, htoken (by decide +kernel)⟩

end Style
end Isotherm
