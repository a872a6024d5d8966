import Isotherm.Number.Style
import Isotherm.Proofs.Number.Numerals
import Isotherm.Proofs.Number.Shortest

/-!
# Written numbers read back

Whatever the style and the size of a positive decimal, its text is a well-formed numeral of the same
value. With the digits of a double that makes the text of every finite double with a clear sign bit
a numeral that is read as the double, bit for bit.
-/

namespace Isotherm

namespace Text

theorem isDigit_padded (k m n : Nat) :
    ∀ c ∈ List.replicate k '0' ++ (Nat.toDigits 10 n ++ List.replicate m '0'),
      c.isDigit = true := by
  intro c hc
  rcases List.mem_append.mp hc with hc | hc
  · rw [List.eq_of_mem_replicate hc]
    rfl
  · rcases List.mem_append.mp hc with hc | hc
    · exact Nat.isDigit_of_mem_toDigits (by decide) (by decide) hc
    · rw [List.eq_of_mem_replicate hc]
      rfl

/-- Zeros in front of the digits of a number change nothing, zeros behind them multiply it. -/
theorem natOfDigits_padded (k m n : Nat) :
    natOfDigits (List.replicate k '0' ++ (Nat.toDigits 10 n ++ List.replicate m '0')) =
      n * 10 ^ m := by
  rw [natOfDigits_ascii (isDigit_padded k m n), Nat.ofDigitChars_append,
    Nat.ofDigitChars_replicate_zero, Nat.ofDigitChars_append, Nat.mul_zero,
    Nat.ofDigitChars_ten_toDigits, Nat.ofDigitChars_replicate_zero, Nat.mul_comm]

theorem natOfDigits_toDigits (n : Nat) : natOfDigits (Nat.toDigits 10 n) = n := by
  simpa using natOfDigits_padded 0 0 n

end Text

namespace Style

open Text Shortest

/-- The text is a numeral with the value of the decimal. -/
def Writes (text : List Char) (d : Decimal) : Prop :=
  ∃ n : Numeral, n.WellFormed ∧ n.chars = text ∧ n.decimal.value = d.value

theorem isDigit_toDigits (n : Nat) : ∀ c ∈ Nat.toDigits 10 n, isDigit c = true :=
  fun _ hc => isDigit_ascii (Nat.isDigit_of_mem_toDigits (by decide) (by decide) hc)

theorem isDigit_zeros (k : Nat) : ∀ c ∈ List.replicate k '0', isDigit c = true := by
  intro c hc
  rw [List.eq_of_mem_replicate hc]
  decide

/-- A numeral without an exponent. -/
theorem wellFormed_plain {whole fraction : List Char} (hne : whole ≠ [])
    (hw : ∀ c ∈ whole, isDigit c = true) (hf : ∀ c ∈ fraction, isDigit c = true) :
    (⟨whole, fraction, none⟩ : Numeral).WellFormed :=
  ⟨hne, hw, hf, by simp, by simp, by simp⟩

/-- Positional writing below one: zeros stand between the point and the digits. -/
theorem writes_below_one (m zeros : Nat) :
    Writes ('0' :: '.' :: (List.replicate zeros '0' ++ Nat.toDigits 10 m))
      ⟨m, -(zeros + (Nat.toDigits 10 m).length : Nat)⟩ := by
  have hfraction : ∀ c ∈ List.replicate zeros '0' ++ Nat.toDigits 10 m, isDigit c = true := by
    intro c hc
    rcases List.mem_append.mp hc with hc | hc
    · exact isDigit_zeros zeros c hc
    · exact isDigit_toDigits m c hc
  refine ⟨⟨['0'], List.replicate zeros '0' ++ Nat.toDigits 10 m, none⟩, ?_, ?_, ?_⟩
  · exact wellFormed_plain (by simp) (isDigit_zeros 1) hfraction
  · simp [Numeral.chars, Nat.toDigits_ne_nil]
  · have hdigits := natOfDigits_padded (zeros + 1) 0 m
    rw [List.replicate_succ, List.replicate_zero, List.append_nil, Nat.pow_zero, Nat.mul_one,
      List.cons_append] at hdigits
    simp only [Numeral.decimal, Decimal.value, List.cons_append, List.nil_append, hdigits,
      List.length_append, List.length_replicate, zero_sub]

/-- Positional writing of an integer: zeros stand behind the digits, and perhaps a point and a
zero. -/
theorem writes_integer (m zeros : Nat) (keepsPoint : Bool) :
    Writes (Nat.toDigits 10 m ++ List.replicate zeros '0' ++ if keepsPoint then ['.', '0'] else [])
      ⟨m, zeros⟩ := by
  have hwhole : ∀ c ∈ Nat.toDigits 10 m ++ List.replicate zeros '0', isDigit c = true := by
    intro c hc
    rcases List.mem_append.mp hc with hc | hc
    · exact isDigit_toDigits m c hc
    · exact isDigit_zeros zeros c hc
  have hne : Nat.toDigits 10 m ++ List.replicate zeros '0' ≠ [] := by
    simp [Nat.toDigits_ne_nil]
  cases keepsPoint with
  | false =>
    refine ⟨⟨_, [], none⟩, wellFormed_plain hne hwhole (by simp), by simp [Numeral.chars], ?_⟩
    have hdigits := natOfDigits_padded 0 zeros m
    rw [List.replicate_zero, List.nil_append] at hdigits
    simp [Numeral.decimal, Decimal.value, hdigits]
  | true =>
    refine ⟨⟨_, ['0'], none⟩, wellFormed_plain hne hwhole (isDigit_zeros 1), ?_, ?_⟩
    · simp [Numeral.chars]
    · have hdigits := natOfDigits_padded 0 (zeros + 1) m
      rw [List.replicate_zero, List.nil_append, List.replicate_succ', ← List.append_assoc]
        at hdigits
      simp only [Numeral.decimal, Decimal.value, hdigits]
      push_cast
      rw [pow_succ, List.length_singleton]
      norm_num
      linarith

/-- Positional writing with the point among the digits. -/
theorem writes_split (m whole : Nat) (hpos : 0 < whole)
    (hlt : whole < (Nat.toDigits 10 m).length) :
    Writes ((Nat.toDigits 10 m).take whole ++ '.' :: (Nat.toDigits 10 m).drop whole)
      ⟨m, -((Nat.toDigits 10 m).length - whole : Nat)⟩ := by
  have hdigit := isDigit_toDigits m
  refine ⟨⟨(Nat.toDigits 10 m).take whole, (Nat.toDigits 10 m).drop whole, none⟩, ?_, ?_, ?_⟩
  · refine wellFormed_plain ?_ (fun c hc => hdigit c (List.mem_of_mem_take hc))
      (fun c hc => hdigit c (List.mem_of_mem_drop hc))
    rw [ne_eq, ← List.length_eq_zero_iff, List.length_take]
    omega
  · have hne : (Nat.toDigits 10 m).drop whole ≠ [] := by
      rw [ne_eq, List.drop_eq_nil_iff]
      omega
    simp [Numeral.chars, hne]
  · simp only [Numeral.decimal, Decimal.value, List.take_append_drop, natOfDigits_toDigits,
      List.length_drop, zero_sub]

/-- The exponent of a numeral is its sign and its digits. -/
theorem exponentText_eq (exponent : Int) :
    ∃ digits, exponentText exponent = (if exponent < 0 then '-' else '+') :: digits ∧
      digits ≠ [] ∧ (∀ c ∈ digits, isDigit c = true) ∧ natOfDigits digits = exponent.natAbs := by
  refine ⟨_, rfl, by simp [Nat.toDigits_ne_nil], ?_, ?_⟩
  · intro c hc
    rcases List.mem_append.mp hc with hc | hc
    · exact isDigit_zeros _ c hc
    · exact isDigit_toDigits _ c hc
  · simpa using natOfDigits_padded (2 - (Nat.toDigits 10 exponent.natAbs).length) 0 exponent.natAbs

/-- Writing with an exponent: the point stands behind the first digit. -/
theorem writes_scientific (m : Nat) (exponent : Int) :
    Writes (scientific (Nat.toDigits 10 m) exponent)
      ⟨m, exponent - (Nat.toDigits 10 m).length + 1⟩ := by
  obtain ⟨digits, htext, hne, hdigits, hvalue⟩ := exponentText_eq exponent
  have hall := isDigit_toDigits m
  have hm := natOfDigits_toDigits m
  generalize hds : Nat.toDigits 10 m = ds at *
  have hds : ds ≠ [] := hds ▸ Nat.toDigits_ne_nil
  obtain ⟨first, rest, rfl⟩ := List.exists_cons_of_ne_nil hds
  have hfirst : isDigit first = true := hall first List.mem_cons_self
  have hrest : ∀ c ∈ rest, isDigit c = true := fun c hc => hall c (List.mem_cons_of_mem first hc)
  let sign : Char := if exponent < 0 then '-' else '+'
  have hsign : sign = '+' ∨ sign = '-' := by
    by_cases h : exponent < 0
    · exact .inr (if_pos h)
    · exact .inl (if_neg h)
  refine ⟨⟨[first], rest, some ('e', some sign, digits)⟩, ⟨by simp, ?_, hrest, ?_, ?_, ?_⟩, ?_, ?_⟩
  · simpa using hfirst
  · rintro _ ⟨⟩
    exact .inl rfl
  · rintro _ ⟨⟩ c ⟨⟩
    exact hsign
  · rintro _ ⟨⟩
    exact ⟨hne, hdigits⟩
  · unfold scientific
    rw [htext]
    cases rest with
    | nil => rfl
    | cons second rest => simp [Numeral.chars, sign]
  · congr 1
    by_cases h : exponent < 0
    · have hminus : sign = '-' := if_pos h
      rw [hminus]
      show (⟨natOfDigits (first :: rest),
        -(natOfDigits digits : Int) - rest.length⟩ : Decimal) = _
      rw [hm, hvalue, List.length_cons]
      congr 1
      omega
    · have hplus : sign = '+' := if_neg h
      rw [hplus]
      show (⟨natOfDigits (first :: rest),
        (natOfDigits digits : Int) - rest.length⟩ : Decimal) = _
      rw [hm, hvalue, List.length_cons]
      congr 1
      omega

theorem writes_positional (style : Style) (m : Nat) (exponent : Int) :
    Writes (style.positional (Nat.toDigits 10 m) exponent)
      ⟨m, exponent - (Nat.toDigits 10 m).length + 1⟩ := by
  have hlength : 0 < (Nat.toDigits 10 m).length := Nat.length_toDigits_pos
  unfold positional
  dsimp only
  split
  next hneg =>
    convert writes_below_one m (-exponent - 1).toNat using 2
    omega
  next hpos =>
    split
    next hle =>
      convert writes_integer m (exponent.toNat + 1 - (Nat.toDigits 10 m).length) style.keepsPoint
        using 2
      omega
    next hlt =>
      convert writes_split m (exponent.toNat + 1) (Nat.succ_pos _) (not_le.mp hlt) using 2
      omega

/-- The text of a positive decimal is a numeral of the same value, in every style. -/
theorem writes_ofDecimal (style : Style) (d : Decimal) : Writes (style.ofDecimal d) d := by
  obtain ⟨m, exponent⟩ := d
  have hexponent : exponent = exponent + (Nat.toDigits 10 m).length - 1
      - (Nat.toDigits 10 m).length + 1 := by omega
  unfold ofDecimal
  dsimp only
  split
  · convert writes_positional style m (exponent + (Nat.toDigits 10 m).length - 1) using 2
  · convert writes_scientific m (exponent + (Nat.toDigits 10 m).length - 1) using 2

/-- A double with no sign and no mantissa is the positive zero. -/
theorem toFloat_zero {x : Float} (hs : signBit x = false)
    (hm : (Scaled.ofFloat x).mantissa = 0) : (⟨0, 0⟩ : Decimal).toFloat false = x := by
  have hbits : x.toBits.toNat = 0 := by
    rw [Bits.toNat_toBits_of_positive hs, Scaled.magnitudeBits_eq, hm]
    unfold Scaled.ofFloat at hm ⊢
    simp only [twoTo_eq] at hm ⊢
    split at hm <;> omega
  have hzero : (⟨0, 0⟩ : Decimal).toFloat false = Float.ofBits (UInt64.ofNat 0) := rfl
  rw [hzero, ← hbits, UInt64.ofNat_toNat, Bits.ofBits_toBits]

/-- In a formula, a finite double with a clear sign bit is written as a numeral that is read as the
same double. -/
theorem chars_numeral {x : Float} (hx : x.isFinite = true) (hs : signBit x = false) :
    ∃ n : Numeral, n.WellFormed ∧ n.chars = formula.chars x ∧ n.decimal.toFloat false = x := by
  unfold chars
  simp only [Bits.not_isNaN_of_isFinite hx, Bits.not_isInf_of_isFinite hx, hs, Bool.false_eq_true,
    ↓reduceIte, List.nil_append]
  unfold magnitude
  split
  next hm =>
    refine ⟨⟨['0'], [], none⟩, wellFormed_plain (by simp) (isDigit_zeros 1) (by simp), rfl, ?_⟩
    exact toFloat_zero hs hm
  next hm =>
    obtain ⟨n, hn, hchars, hvalue⟩ := writes_ofDecimal formula (digits (Scaled.ofFloat x))
    exact ⟨n, hn, hchars, toFloat_eq_of_value_eq hx hs hm hvalue⟩

/-- The text of a finite double with a clear sign bit is read as the double. -/
theorem real?_text {x : Float} (hx : x.isFinite = true) (hs : signBit x = false) :
    Numeral.real? (formula.text x) = some x := by
  obtain ⟨n, hn, hchars, hvalue⟩ := chars_numeral hx hs
  rw [text, ← hchars, Numeral.real?_chars hn, hvalue]

/-- The text of every double is a number, also that of an infinity or of no number. -/
theorem readable_text (x : Float) : (Numeral.real? (formula.text x)).isSome := by
  have hspecial : ∀ word ∈ ["NaN", "-Inf", "+Inf"], (Numeral.real? word).isSome := by
    decide +kernel
  unfold text chars
  split
  next => exact hspecial _ (by decide)
  next =>
    split
    next => split <;> exact hspecial _ (by decide)
    next =>
      have hmagnitude : ∃ n : Numeral, n.WellFormed ∧
          n.chars = formula.magnitude (Scaled.ofFloat x) := by
        unfold magnitude
        split
        · exact ⟨⟨['0'], [], none⟩, wellFormed_plain (by simp) (isDigit_zeros 1) (by simp), rfl⟩
        · obtain ⟨n, hn, hchars, -⟩ := writes_ofDecimal formula (digits (Scaled.ofFloat x))
          exact ⟨n, hn, hchars⟩
      obtain ⟨n, hn, hchars⟩ := hmagnitude
      have hread := Numeral.real?_signed hn (signBit x)
      rw [hchars, Numeral.signChars] at hread
      rw [hread]
      rfl

end Style
end Isotherm
