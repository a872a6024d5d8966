import Isotherm.Number.Numeral

/-!
# Numerals read back

What is taken off the front of a text is a well-formed numeral, and the characters of a well-formed
numeral are taken whole in front of anything that does not go on with it. The value of the numeral
is also what its characters mean on their own, read the way an option is read.
-/

namespace Isotherm

namespace Text

/-! ## Runs of characters -/

/-- A run of characters that satisfy `p`, up to one that does not. -/
theorem takeWhile_run {p : Char → Bool} {run rest : List Char} (h : ∀ c ∈ run, p c = true)
    (hr : ∀ c ∈ rest.head?, p c = false) : (run ++ rest).takeWhile p = run := by
  rw [List.takeWhile_append_of_pos h]
  cases rest with
  | nil => simp
  | cons c rest =>
    rw [List.takeWhile_cons_of_neg (by simpa using hr c rfl), List.append_nil]

theorem dropWhile_run {p : Char → Bool} {run rest : List Char} (h : ∀ c ∈ run, p c = true)
    (hr : ∀ c ∈ rest.head?, p c = false) : (run ++ rest).dropWhile p = rest := by
  rw [List.dropWhile_append_of_pos h]
  cases rest with
  | nil => rfl
  | cons c rest => exact List.dropWhile_cons_of_neg (by simpa using hr c rfl)

theorem of_mem_takeWhile {p : Char → Bool} {c : Char} {cs : List Char}
    (h : c ∈ cs.takeWhile p) : p c = true :=
  List.all_eq_true.mp List.all_takeWhile c h

/-! ## Digits -/

/-- What holds of every character below 128, checked value by value. -/
theorem forall_ascii {P : Char → Prop} (h : ∀ n < 128, P (Char.ofNat n)) {c : Char}
    (hc : c.toNat < 128) : P c := by
  have := h c.toNat hc
  rwa [Char.ofNat_toNat] at this

/-- No digit of any script is a blank. -/
theorem isBlank_of_isDigit {c : Char} (h : isDigit c = true) : isBlank c = false := by
  have hall : ∀ b ∈ blanks, isDigit (Char.ofNat b) = false := by decide
  rw [Bool.eq_false_iff]
  intro hb
  have hc := hall c.toNat (List.contains_iff_mem.mp hb)
  rw [Char.ofNat_toNat, h] at hc
  cases hc

theorem digitValue?_ascii {c : Char} (h : c.isDigit = true) :
    digitValue? c = some (c.toNat - '0'.toNat) := by
  have hc : c.toNat < 0x80 := Nat.lt_of_le_of_lt (Char.isDigit_iff_toNat.mp h).2 (by decide)
  rw [digitValue?, if_pos hc, if_pos h]
  rfl

theorem isDigit_ascii {c : Char} (h : c.isDigit = true) : isDigit c = true := by
  rw [isDigit, digitValue?_ascii h]
  rfl

/-- A digit is its own lower case. -/
theorem toLower_of_isDigit {c : Char} (h : isDigit c = true) : c.toLower = c := by
  unfold Char.toLower
  split
  next hc =>
    have hlt : c.toNat < 128 := Nat.lt_of_le_of_lt (UInt32.le_iff_toNat_le.mp hc.2) (by decide)
    have hall := forall_ascii (P := fun c => isDigit c = true → c.toNat < 'A'.toNat) (by decide) hlt
    have hge : 'A'.toNat ≤ c.toNat := UInt32.le_iff_toNat_le.mp hc.1
    exact absurd (hall h) (Nat.not_lt.mpr hge)
  next => rfl

theorem natOfDigits_ascii {digits : List Char} (h : ∀ c ∈ digits, c.isDigit = true) :
    natOfDigits digits = Nat.ofDigitChars 10 digits 0 := by
  have hfold (start : Nat) :
      digits.foldl (fun n c => 10 * n + (digitValue? c).getD 0) start =
        Nat.ofDigitChars 10 digits start := by
    induction digits generalizing start with
    | nil => rfl
    | cons c cs ih =>
      rw [List.foldl_cons, digitValue?_ascii (h c List.mem_cons_self), Option.getD_some,
        ih fun d hd => h d (List.mem_cons_of_mem c hd), Nat.ofDigitChars_cons]
  exact hfold 0

end Text

namespace Numeral

open Text

/-! ## Well-formed numerals -/

/-- Digits, perhaps digits of a fraction, perhaps an exponent with digits of its own. -/
structure WellFormed (n : Numeral) : Prop where
  nonempty : n.whole ≠ []
  whole : ∀ c ∈ n.whole, isDigit c = true
  fraction : ∀ c ∈ n.fraction, isDigit c = true
  letter : ∀ e ∈ n.exponent, e.1 = 'e' ∨ e.1 = 'E'
  sign : ∀ e ∈ n.exponent, ∀ c ∈ e.2.1, c = '+' ∨ c = '-'
  digits : ∀ e ∈ n.exponent, e.2.2 ≠ [] ∧ ∀ c ∈ e.2.2, isDigit c = true

/-- What stands behind a numeral and is no part of it. -/
def Ends (rest : List Char) : Prop :=
  ∀ c ∈ rest.head?, isDigit c = false ∧ c ≠ '.' ∧ c ≠ 'e' ∧ c ≠ 'E'

/-- The characters of the fraction with its point. -/
def fractionChars (n : Numeral) : List Char :=
  if n.fraction.isEmpty then [] else '.' :: n.fraction

/-- The characters of the exponent. -/
def exponentChars (n : Numeral) : List Char :=
  match n.exponent with
  | none => []
  | some (letter, sign, digits) => letter :: (sign.toList ++ digits)

theorem chars_eq (n : Numeral) : n.chars = n.whole ++ n.fractionChars ++ n.exponentChars := rfl

/-! ## Taking a numeral -/

theorem takeSign_append {sign : Option Char} {digits rest : List Char}
    (hs : ∀ c ∈ sign, c = '+' ∨ c = '-') (hd : digits ≠ []) (h : ∀ c ∈ digits, isDigit c = true) :
    takeSign (sign.toList ++ digits ++ rest) = (sign, digits ++ rest) := by
  cases sign with
  | some c => rcases hs c rfl with rfl | rfl <;> rfl
  | none =>
    cases digits with
    | nil => exact absurd rfl hd
    | cons d ds =>
      show takeSign (d :: (ds ++ rest)) = (none, d :: (ds ++ rest))
      unfold takeSign
      split
      next hc => cases hc; exact absurd (h _ List.mem_cons_self) (by decide)
      next hc => cases hc; exact absurd (h _ List.mem_cons_self) (by decide)
      next => rfl

theorem takeExponent_append {n : Numeral} (h : n.WellFormed) {rest : List Char} (hr : Ends rest) :
    takeExponent (n.exponentChars ++ rest) = (n.exponent, rest) := by
  have hdigit : ∀ c ∈ rest.head?, isDigit c = false := fun c hc => (hr c hc).1
  unfold exponentChars
  split
  next hn =>
    rw [hn]
    cases rest with
    | nil => rfl
    | cons c rest =>
      obtain ⟨-, -, he, hE⟩ := hr c rfl
      simp [takeExponent, he, hE]
  next letter sign digits hn =>
    obtain ⟨hne, hall⟩ := h.digits _ hn
    have hletter : (letter == 'e' || letter == 'E') = true := by simpa using h.letter _ hn
    have htake := takeWhile_run hall hdigit
    rw [List.cons_append, takeExponent, if_pos hletter, takeSign_append (h.sign _ hn) hne hall]
    simp only [htake, dropWhile_run hall hdigit, hn]
    rw [if_neg (by simpa using hne)]

theorem head_exponentChars {n : Numeral} (h : n.WellFormed) (rest : List Char) (hr : Ends rest) :
    ∀ c ∈ (n.exponentChars ++ rest).head?, isDigit c = false ∧ c ≠ '.' := by
  unfold exponentChars
  split
  · exact fun c hc => ⟨(hr c hc).1, (hr c hc).2.1⟩
  next letter sign digits hn =>
    rintro c hc
    obtain rfl : letter = c := by simpa using hc
    rcases h.letter _ hn with hl | hl <;> (simp only at hl; subst hl; decide)

theorem takeFraction_append {n : Numeral} (h : n.WellFormed) {rest : List Char}
    (hr : ∀ c ∈ rest.head?, isDigit c = false ∧ c ≠ '.') :
    takeFraction (n.fractionChars ++ rest) = (n.fraction, rest) := by
  have hdigit : ∀ c ∈ rest.head?, isDigit c = false := fun c hc => (hr c hc).1
  unfold fractionChars
  split
  next hn =>
    rw [List.isEmpty_iff.mp hn, List.nil_append]
    unfold takeFraction
    split
    next cs => exact absurd rfl (hr '.' rfl).2
    next => rfl
  next hn =>
    rw [List.cons_append, takeFraction, takeWhile_run h.fraction hdigit,
      dropWhile_run h.fraction hdigit, if_neg hn]

theorem head_fractionChars {n : Numeral} {rest : List Char}
    (hr : ∀ c ∈ rest.head?, isDigit c = false) :
    ∀ c ∈ (n.fractionChars ++ rest).head?, isDigit c = false := by
  unfold fractionChars
  split
  · exact hr
  · rintro c hc
    obtain rfl : '.' = c := by simpa using hc
    decide

/-- A numeral is taken whole in front of anything that does not go on with it. -/
theorem take_append {n : Numeral} (h : n.WellFormed) {rest : List Char} (hr : Ends rest) :
    take (n.chars ++ rest) = (n, rest) := by
  have hexp := head_exponentChars h rest hr
  have hfrac := head_fractionChars (n := n) fun c hc => (hexp c hc).1
  have hchars : n.chars ++ rest = n.whole ++ (n.fractionChars ++ (n.exponentChars ++ rest)) := by
    simp only [chars_eq, List.append_assoc]
  unfold take
  rw [hchars, dropWhile_run h.whole hfrac, takeWhile_run h.whole hfrac, takeFraction_append h hexp]
  simp only [takeExponent_append h hr]

theorem takeFraction_isDigit (cs : List Char) : ∀ c ∈ (takeFraction cs).1, isDigit c = true := by
  unfold takeFraction
  split
  · split
    · simp
    · exact fun c hc => of_mem_takeWhile hc
  · simp

theorem takeSign_sign (cs : List Char) : ∀ c ∈ (takeSign cs).1, c = '+' ∨ c = '-' := by
  unfold takeSign
  split <;> simp

theorem takeExponent_some {cs : List Char} {e : Char × Option Char × List Char}
    (h : e ∈ (takeExponent cs).1) :
    (e.1 = 'e' ∨ e.1 = 'E') ∧ (∀ c ∈ e.2.1, c = '+' ∨ c = '-') ∧
      e.2.2 ≠ [] ∧ ∀ c ∈ e.2.2, isDigit c = true := by
  unfold takeExponent at h
  split at h
  · cases h
  next c cs =>
    split at h
    next hc =>
      simp only at h
      split at h
      next => cases h
      next hne =>
        obtain rfl := Option.mem_some.mp h
        refine ⟨by simpa using hc, takeSign_sign cs, ?_, fun d hd => of_mem_takeWhile hd⟩
        simpa using hne
    next => cases h

theorem fractionChars_append {n : Numeral} {cs : List Char}
    (h : n.fraction = (takeFraction cs).1) : n.fractionChars ++ (takeFraction cs).2 = cs := by
  rw [fractionChars, h]
  unfold takeFraction
  split
  · split
    next => rfl
    next => simp only [List.cons_append, List.takeWhile_append_dropWhile]
  · rfl

theorem takeSign_chars (cs : List Char) : (takeSign cs).1.toList ++ (takeSign cs).2 = cs := by
  unfold takeSign
  split <;> rfl

theorem exponentChars_append {n : Numeral} {cs : List Char}
    (h : n.exponent = (takeExponent cs).1) : n.exponentChars ++ (takeExponent cs).2 = cs := by
  rw [exponentChars, h]
  cases cs with
  | nil => rfl
  | cons c cs =>
    by_cases hletter : (c == 'e' || c == 'E') = true
    · by_cases hdigits : ((takeSign cs).2.takeWhile isDigit).isEmpty = true
      · simp only [takeExponent, if_pos hletter, if_pos hdigits, List.nil_append]
      · simp only [takeExponent, if_pos hletter, if_neg hdigits, List.cons_append,
          List.append_assoc, List.takeWhile_append_dropWhile, takeSign_chars]
    · simp only [takeExponent, if_neg hletter, List.nil_append]

/-- A numeral is taken off the front and nothing is lost. -/
theorem chars_take (cs : List Char) : (take cs).1.chars ++ (take cs).2 = cs := by
  have hexponent : (take cs).1.exponentChars ++ (take cs).2 =
      (takeFraction (cs.dropWhile isDigit)).2 := exponentChars_append rfl
  have hfraction : (take cs).1.fractionChars ++ (takeFraction (cs.dropWhile isDigit)).2 =
      cs.dropWhile isDigit := fractionChars_append rfl
  rw [chars_eq, List.append_assoc, List.append_assoc, hexponent, hfraction]
  exact List.takeWhile_append_dropWhile

/-- A numeral that was taken at a digit is well formed. -/
theorem wellFormed_take {c : Char} (hc : isDigit c = true) (cs : List Char) :
    (take (c :: cs)).1.WellFormed where
  nonempty := by
    show (c :: cs).takeWhile isDigit ≠ []
    rw [List.takeWhile_cons_of_pos hc]
    exact List.cons_ne_nil _ _
  whole := fun d hd => of_mem_takeWhile hd
  fraction := takeFraction_isDigit _
  letter := fun _ he => (takeExponent_some he).1
  sign := fun _ he => (takeExponent_some he).2.1
  digits := fun _ he => (takeExponent_some he).2.2

/-! ## The characters of a numeral as a text of their own -/

/-- The characters of a numeral besides its digits. -/
def IsMark (c : Char) : Prop :=
  c = '.' ∨ c = 'e' ∨ c = 'E' ∨ c = '+' ∨ c = '-'

theorem WellFormed.mem_chars {n : Numeral} (h : n.WellFormed) {c : Char} (hc : c ∈ n.chars) :
    isDigit c = true ∨ IsMark c := by
  rw [chars_eq, List.mem_append, List.mem_append] at hc
  rcases hc with (hc | hc) | hc
  · exact .inl (h.whole c hc)
  · unfold fractionChars at hc
    split at hc
    · cases hc
    · rcases List.mem_cons.mp hc with rfl | hc
      · exact .inr (.inl rfl)
      · exact .inl (h.fraction c hc)
  · unfold exponentChars at hc
    split at hc
    next => cases hc
    next letter sign digits hn =>
      rw [List.mem_cons, List.mem_append, Option.mem_toList] at hc
      rcases hc with rfl | hc | hc
      · exact .inr (.inr (by rcases h.letter _ hn with he | he <;> simp_all))
      · exact .inr (.inr (.inr (.inr (h.sign _ hn c hc))))
      · exact .inl ((h.digits _ hn).2 c hc)

theorem WellFormed.not_isBlank {n : Numeral} (h : n.WellFormed) :
    ∀ c ∈ n.chars, isBlank c = false := by
  intro c hc
  rcases h.mem_chars hc with hd | rfl | rfl | rfl | rfl | rfl
  · exact isBlank_of_isDigit hd
  all_goals decide

theorem WellFormed.ne_underscore {n : Numeral} (h : n.WellFormed) : ∀ c ∈ n.chars, c ≠ '_' := by
  intro c hc
  rcases h.mem_chars hc with hd | rfl | rfl | rfl | rfl | rfl
  · rintro rfl
    exact absurd hd (by decide)
  all_goals decide

theorem WellFormed.head_chars {n : Numeral} (h : n.WellFormed) :
    ∃ c cs, n.chars = c :: cs ∧ isDigit c = true := by
  obtain ⟨c, whole, hw⟩ := List.exists_cons_of_ne_nil h.nonempty
  refine ⟨c, whole ++ n.fractionChars ++ n.exponentChars, ?_, h.whole c (by simp [hw])⟩
  rw [chars_eq, hw]
  rfl

theorem trimBlanks_eq {cs : List Char} (h : ∀ c ∈ cs, isBlank c = false) : trimBlanks cs = cs := by
  have hdrop {cs : List Char} (h : ∀ c ∈ cs, isBlank c = false) : cs.dropWhile isBlank = cs := by
    cases cs with
    | nil => rfl
    | cons c cs => exact List.dropWhile_cons_of_neg (by simp [h])
  rw [trimBlanks, hdrop h, hdrop (by simpa using h), List.reverse_reverse]

theorem dropUnderscores?_eq {cs : List Char} (h : ∀ c ∈ cs, c ≠ '_') :
    dropUnderscores? cs = some cs := by
  induction cs with
  | nil => rfl
  | cons c cs ih =>
    have hcs := ih fun d hd => h d (List.mem_cons_of_mem c hd)
    unfold dropUnderscores?
    split
    next => simp_all
    next => simp_all
    next => simp_all
    next => simp_all

theorem takeSign_of_isDigit {c : Char} (hc : isDigit c = true) (cs : List Char) :
    takeSign (c :: cs) = (none, c :: cs) := by
  unfold takeSign
  split
  next h => cases h; exact absurd hc (by decide)
  next h => cases h; exact absurd hc (by decide)
  next => rfl

theorem unsigned?_chars {n : Numeral} (h : n.WellFormed) : unsigned? n.chars = some n.decimal := by
  have hexp := head_exponentChars h [] (by simp [Ends])
  rw [List.append_nil] at hexp
  have hdigit : ∀ c ∈ n.exponentChars.head?, isDigit c = false := fun c hc => (hexp c hc).1
  have hfrac := head_fractionChars (n := n) hdigit
  have htake := @takeExponent_append _ h [] (by simp [Ends])
  rw [List.append_nil] at htake
  have hwhole : n.whole.isEmpty = false := by simpa using h.nonempty
  have hpoint : takePoint (n.fractionChars ++ n.exponentChars) = (n.fraction, n.exponentChars) := by
    unfold fractionChars
    split
    next hn =>
      rw [List.isEmpty_iff.mp hn, List.nil_append]
      unfold takePoint
      split
      next hdot => exact absurd rfl (hexp '.' (by rw [hdot]; rfl)).2
      next => rfl
    next =>
      rw [List.cons_append, takePoint, takeWhile_run h.fraction hdigit,
        dropWhile_run h.fraction hdigit]
  unfold unsigned?
  rw [chars_eq, List.append_assoc, dropWhile_run h.whole hfrac, takeWhile_run h.whole hfrac, hpoint]
  simp only [hwhole, Bool.false_and, Bool.false_eq_true, ↓reduceIte, ending?, htake]

/-- The sign of a negative number. -/
def signChars (negative : Bool) : List Char :=
  if negative then ['-'] else []

/-- The characters of a numeral behind a sign are a number on their own. -/
theorem real?_signed {n : Numeral} (h : n.WellFormed) (negative : Bool) :
    real? (String.ofList (signChars negative ++ n.chars)) = some (n.decimal.toFloat negative) := by
  obtain ⟨c, cs, hcs, hc⟩ := h.head_chars
  have hsign : takeSign (signChars negative ++ n.chars) =
      (if negative then some '-' else none, n.chars) := by
    cases negative with
    | true => rfl
    | false =>
      show takeSign n.chars = _
      rw [hcs]
      exact takeSign_of_isDigit hc cs
  have hblank : ∀ d ∈ signChars negative ++ n.chars, isBlank d = false := by
    intro d hd
    rcases List.mem_append.mp hd with hd | hd
    · cases negative with
      | true =>
        rw [List.mem_singleton.mp hd]
        decide
      | false => cases hd
    · exact h.not_isBlank d hd
  have hword {word : String} {d : Char} {ds : List Char} (hw : word.toList = d :: ds)
      (hd : isDigit d = false) : (String.ofList (n.chars.map Char.toLower) == word) = false := by
    rw [beq_eq_false_iff_ne]
    rintro rfl
    rw [String.toList_ofList, hcs, List.map_cons, toLower_of_isDigit hc] at hw
    rw [← (List.cons.inj hw).1, hc] at hd
    cases hd
  have hinf : "inf".toList = ['i', 'n', 'f'] := by decide
  have hinfinity : "infinity".toList = ['i', 'n', 'f', 'i', 'n', 'i', 't', 'y'] := by decide
  have hnan : "nan".toList = ['n', 'a', 'n'] := by decide
  unfold real?
  rw [String.toList_ofList, trimBlanks_eq hblank, hsign]
  simp only [hword hinf (by decide), hword hinfinity (by decide), hword hnan (by decide),
    dropUnderscores?_eq h.ne_underscore]
  cases negative with
  | true =>
    show Option.map (Decimal.toFloat true) (unsigned? n.chars) = _
    rw [unsigned?_chars h]
    rfl
  | false =>
    show Option.map (Decimal.toFloat false) (unsigned? n.chars) = _
    rw [unsigned?_chars h]
    rfl

/-- The characters of a numeral are a number on their own. -/
theorem real?_chars {n : Numeral} (h : n.WellFormed) :
    real? (String.ofList n.chars) = some (n.decimal.toFloat false) :=
  real?_signed h false

/-- A run of digits that is not too long is an integer. -/
theorem integer?_digits {digits : List Char} (hne : digits ≠ [])
    (hall : ∀ c ∈ digits, isDigit c = true) (hlength : digits.length ≤ longestInteger) :
    integer? (String.ofList digits) = some (natOfDigits digits) := by
  obtain ⟨c, cs, rfl⟩ := List.exists_cons_of_ne_nil hne
  have hsign := takeSign_of_isDigit (hall c List.mem_cons_self) cs
  have hblank : ∀ d ∈ c :: cs, isBlank d = false := fun d hd => isBlank_of_isDigit (hall d hd)
  have hunderscore : ∀ d ∈ c :: cs, d ≠ '_' := by
    intro d hd heq
    subst heq
    exact absurd (hall _ hd) (by decide)
  have hdigits : (c :: cs).all isDigit = true := List.all_eq_true.mpr hall
  unfold integer?
  rw [String.toList_ofList, trimBlanks_eq hblank, hsign]
  simp only [dropUnderscores?_eq hunderscore, List.isEmpty_cons, hdigits, Nat.not_lt.mpr hlength]
  rfl

end Numeral
end Isotherm
