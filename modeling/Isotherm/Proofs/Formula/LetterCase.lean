import Isotherm.Proofs.Evaluation.ReadTracking
import Isotherm.Proofs.Formula.Misplaced

/-!
# Letter case in formulas

Reading a formula does not look at the case of its letters. Every step commutes with turning the
letters to upper case: a text is cut at the same places, its tokens are of the same kinds, its
numerals have the same values. So texts that differ in case alone have trees that differ in the
spelling of names alone, or they are rejected at the same place.
-/

namespace Isotherm

open Text

/-! ## Characters -/

/-- What is the same for a letter and its upper case is so for all characters. -/
theorem apply_toUpper {α : Type} (f : Char → α)
    (h : ∀ n < 128, f (Char.ofNat n).toUpper = f (Char.ofNat n)) (c : Char) :
    f c.toUpper = f c := by
  by_cases hc : c.toNat < 128
  · exact forall_ascii (P := fun c => f c.toUpper = f c) h hc
  · have hsame : c.toUpper = c := by
      rw [← Char.toNat_inj, toNat_toUpper, if_neg (by omega)]
    rw [hsame]

/-- No letter becomes a mark. -/
theorem toUpper_eq_iff {m : Char}
    (h : ∀ n < 128, decide ((Char.ofNat n).toUpper = m) = decide (Char.ofNat n = m)) (c : Char) :
    c.toUpper = m ↔ c = m :=
  decide_eq_decide.mp (apply_toUpper (fun c => decide (c = m)) h c)

theorem isBlank_toUpper (c : Char) : isBlank c.toUpper = isBlank c :=
  apply_toUpper isBlank (by decide) c

theorem digitValue?_toUpper (c : Char) : digitValue? c.toUpper = digitValue? c :=
  apply_toUpper digitValue? (by decide) c

theorem isDigit_toUpper (c : Char) : isDigit c.toUpper = isDigit c := by
  rw [isDigit, isDigit, digitValue?_toUpper]

theorem latinUpper_toUpper (c : Char) : latinUpper c.toUpper = latinUpper c :=
  apply_toUpper latinUpper (by decide) c

theorem takeWhile_upper {p : Char → Bool} (hp : ∀ c : Char, p c.toUpper = p c) (cs : List Char) :
    (cs.map Char.toUpper).takeWhile p = (cs.takeWhile p).map Char.toUpper := by
  have hcomp : p ∘ Char.toUpper = p := funext hp
  rw [List.takeWhile_map, hcomp]

theorem dropWhile_upper {p : Char → Bool} (hp : ∀ c : Char, p c.toUpper = p c) (cs : List Char) :
    (cs.map Char.toUpper).dropWhile p = (cs.dropWhile p).map Char.toUpper := by
  have hcomp : p ∘ Char.toUpper = p := funext hp
  rw [List.dropWhile_map, hcomp]

theorem toUpper_ofList (cs : List Char) :
    (String.ofList cs).toUpper = String.ofList (cs.map Char.toUpper) := by
  rw [← String.toList_inj, String.toUpper, String.toList_map, String.toList_ofList,
    String.toList_ofList]

theorem natOfDigits_upper (digits : List Char) :
    natOfDigits (digits.map Char.toUpper) = natOfDigits digits := by
  unfold natOfDigits
  simp only [List.foldl_map, digitValue?_toUpper]

/-! ## Numerals -/

namespace Numeral

/-- A numeral with its exponent letter in upper case. -/
def upper (n : Numeral) : Numeral where
  whole := n.whole.map Char.toUpper
  fraction := n.fraction.map Char.toUpper
  exponent := n.exponent.map fun (letter, sign, digits) =>
    (letter.toUpper, sign.map Char.toUpper, digits.map Char.toUpper)

theorem takeFraction_cons (c : Char) (cs : List Char) :
    takeFraction (c :: cs) =
      if c = '.' then
        if (cs.takeWhile isDigit).isEmpty then ([], c :: cs)
        else (cs.takeWhile isDigit, cs.dropWhile isDigit)
      else ([], c :: cs) := by
  by_cases hc : c = '.'
  · subst hc
    rfl
  · rw [if_neg hc]
    unfold takeFraction
    split
    next h => exact absurd (List.cons.inj h).1 hc
    next => rfl

theorem takeFraction_upper (cs : List Char) :
    takeFraction (cs.map Char.toUpper) =
      ((takeFraction cs).1.map Char.toUpper, (takeFraction cs).2.map Char.toUpper) := by
  cases cs with
  | nil => rfl
  | cons c cs =>
    have hmark := toUpper_eq_iff (m := '.') (by decide) c
    rw [List.map_cons, takeFraction_cons, takeFraction_cons, takeWhile_upper isDigit_toUpper,
      dropWhile_upper isDigit_toUpper, List.isEmpty_map]
    simp only [hmark]
    split_ifs <;> rfl

theorem takeSign_cons (c : Char) (cs : List Char) :
    takeSign (c :: cs) = if c = '+' ∨ c = '-' then (some c, cs) else (none, c :: cs) := by
  by_cases hc : c = '+' ∨ c = '-'
  · rw [if_pos hc]
    obtain rfl | rfl := hc <;> rfl
  · rw [if_neg hc]
    unfold takeSign
    split
    next h => exact absurd (.inl (List.cons.inj h).1) hc
    next h => exact absurd (.inr (List.cons.inj h).1) hc
    next => rfl

theorem takeSign_upper (cs : List Char) :
    takeSign (cs.map Char.toUpper) =
      ((takeSign cs).1.map Char.toUpper, (takeSign cs).2.map Char.toUpper) := by
  cases cs with
  | nil => rfl
  | cons c cs =>
    have hplus := toUpper_eq_iff (m := '+') (by decide) c
    have hminus := toUpper_eq_iff (m := '-') (by decide) c
    rw [List.map_cons, takeSign_cons, takeSign_cons]
    simp only [hplus, hminus]
    split_ifs <;> rfl

theorem takeExponent_upper (cs : List Char) :
    takeExponent (cs.map Char.toUpper) =
      ((takeExponent cs).1.map fun (letter, sign, digits) =>
        (letter.toUpper, sign.map Char.toUpper, digits.map Char.toUpper),
        (takeExponent cs).2.map Char.toUpper) := by
  cases cs with
  | nil => rfl
  | cons c cs =>
    have hletter : (c.toUpper == 'e' || c.toUpper == 'E') = (c == 'e' || c == 'E') :=
      apply_toUpper (fun c => c == 'e' || c == 'E') (by decide) c
    rw [List.map_cons, takeExponent, takeExponent, hletter, takeSign_upper]
    simp only [takeWhile_upper isDigit_toUpper, dropWhile_upper isDigit_toUpper, List.isEmpty_map]
    split_ifs <;> rfl

theorem take_upper (cs : List Char) :
    take (cs.map Char.toUpper) = ((take cs).1.upper, (take cs).2.map Char.toUpper) := by
  unfold take
  simp only [takeWhile_upper isDigit_toUpper, dropWhile_upper isDigit_toUpper, takeFraction_upper,
    takeExponent_upper]
  rfl

theorem decimal_upper (n : Numeral) : n.upper.decimal = n.decimal := by
  obtain ⟨whole, fraction, exponent⟩ := n
  have hdigits : natOfDigits (whole.map Char.toUpper ++ fraction.map Char.toUpper) =
      natOfDigits (whole ++ fraction) := by
    rw [← List.map_append, natOfDigits_upper]
  unfold decimal upper
  dsimp only
  rw [hdigits, List.length_map]
  cases exponent with
  | none => rfl
  | some e =>
    obtain ⟨letter, sign, digits⟩ := e
    cases sign with
    | none => simp [natOfDigits_upper]
    | some mark =>
      have hmark := toUpper_eq_iff (m := '-') (by decide) mark
      by_cases hminus : mark = '-'
      · subst hminus
        have hsame : '-'.toUpper = '-' := by decide
        simp [natOfDigits_upper, hsame]
      · have hother : mark.toUpper ≠ '-' := fun h => hminus (hmark.mp h)
        simp [natOfDigits_upper, hminus, hother]

theorem trimBlanks_upper (cs : List Char) :
    trimBlanks (cs.map Char.toUpper) = (trimBlanks cs).map Char.toUpper := by
  unfold trimBlanks
  rw [dropWhile_upper isBlank_toUpper, ← List.map_reverse, dropWhile_upper isBlank_toUpper,
    List.map_reverse]

theorem dropUnderscores?_upper (cs : List Char) :
    dropUnderscores? (cs.map Char.toUpper) = (dropUnderscores? cs).map (List.map Char.toUpper) := by
  have hmark (c : Char) := toUpper_eq_iff (m := '_') (by decide) c
  have hsame : '_'.toUpper = '_' := by decide
  fun_induction dropUnderscores? cs with
  | case1 => rfl
  | case2 cs => simp [hsame, dropUnderscores?]
  | case3 c d cs hc hdigits ih =>
    simp only [List.map_cons, hsame] at ih ⊢
    rw [dropUnderscores?]
    · simp_all [isDigit_toUpper, Function.comp_def]
    · simpa [hmark] using hc
  | case4 c d cs hc hdigits =>
    simp only [List.map_cons, hsame]
    rw [dropUnderscores?]
    · simp_all [isDigit_toUpper]
    · simpa [hmark] using hc
  | case5 c cs hc hcs ih =>
    rw [List.map_cons, dropUnderscores?, ih]
    · simp [Function.comp_def]
    · simpa [hmark] using hc
    · intro d ds h
      obtain ⟨a, as, rfl, ha, has⟩ := List.map_eq_cons_iff.mp h
      obtain ⟨b, bs, rfl, -⟩ := List.map_eq_cons_iff.mp has
      exact hcs b bs (by rw [(hmark a).mp ha])

theorem takePoint_cons (c : Char) (cs : List Char) :
    takePoint (c :: cs) =
      if c = '.' then (cs.takeWhile isDigit, cs.dropWhile isDigit) else ([], c :: cs) := by
  by_cases hc : c = '.'
  · subst hc
    rfl
  · rw [if_neg hc]
    unfold takePoint
    split
    next h => exact absurd (List.cons.inj h).1 hc
    next => rfl

theorem takePoint_upper (cs : List Char) :
    takePoint (cs.map Char.toUpper) =
      ((takePoint cs).1.map Char.toUpper, (takePoint cs).2.map Char.toUpper) := by
  cases cs with
  | nil => rfl
  | cons c cs =>
    have hmark := toUpper_eq_iff (m := '.') (by decide) c
    rw [List.map_cons, takePoint_cons, takePoint_cons, takeWhile_upper isDigit_toUpper,
      dropWhile_upper isDigit_toUpper]
    simp only [hmark]
    split_ifs <;> rfl

theorem ending?_upper (whole fraction rest : List Char) :
    ending? (whole.map Char.toUpper) (fraction.map Char.toUpper) (rest.map Char.toUpper) =
      ending? whole fraction rest := by
  unfold ending?
  rw [takeExponent_upper]
  obtain ⟨exponent, left⟩ := takeExponent rest
  cases left with
  | nil => exact congrArg some (decimal_upper ⟨whole, fraction, exponent⟩)
  | cons => rfl

theorem unsigned?_upper (cs : List Char) : unsigned? (cs.map Char.toUpper) = unsigned? cs := by
  unfold unsigned?
  rw [takeWhile_upper isDigit_toUpper, dropWhile_upper isDigit_toUpper, takePoint_upper]
  simp only [List.isEmpty_map, ending?_upper]

/-- A text is the same number in any case of its letters. -/
theorem real?_upper (text : String) : real? text.toUpper = real? text := by
  have hlower (c : Char) : c.toUpper.toLower = c.toLower :=
    apply_toUpper Char.toLower (by decide) c
  have hminus (sign : Option Char) :
      (sign.map Char.toUpper == some '-') = (sign == some '-') := by
    cases sign with
    | none => rfl
    | some c => exact apply_toUpper (fun c => some c == some '-') (by decide) c
  have hchars : text.toUpper.toList = text.toList.map Char.toUpper := by
    rw [String.toUpper, String.toList_map]
  unfold real?
  rw [hchars, trimBlanks_upper, takeSign_upper]
  simp only [hminus, List.map_map, Function.comp_def, hlower, dropUnderscores?_upper]
  cases dropUnderscores? (takeSign (trimBlanks text.toList)).2 with
  | none => rfl
  | some digits =>
    simp only [Option.map_some, Option.bind_eq_bind, Option.bind_some, unsigned?_upper]

theorem chars_upper (n : Numeral) : n.upper.chars = n.chars.map Char.toUpper := by
  obtain ⟨whole, fraction, exponent⟩ := n
  have hpoint : '.'.toUpper = '.' := by decide
  cases exponent with
  | none => cases fraction <;> simp [chars, upper, hpoint]
  | some e =>
    obtain ⟨letter, sign, digits⟩ := e
    cases fraction <;> cases sign <;> simp [chars, upper, hpoint]

end Numeral

/-! ## Tokens -/

theorem TokenKind.ofMark?_toUpper (c : Char) : ofMark? c.toUpper = ofMark? c :=
  apply_toUpper ofMark? (by decide) c

theorem TokenKind.ofWord_upper (word : List Char) :
    ofWord (word.map Char.toUpper) = ofWord word := by
  have hletter (c : Char) : "XYTxyt".toList.contains c.toUpper = "XYTxyt".toList.contains c :=
    apply_toUpper (fun c => "XYTxyt".toList.contains c) (by decide) c
  match word with
  | [] => rfl
  | [c] => simp only [List.map_cons, List.map_nil, ofWord, hletter]
  | _ :: _ :: _ => rfl

namespace Token

/-- A token with its text in upper case. -/
def upper (t : Token) : Token where
  kind := t.kind
  text := t.text.toUpper
  position := t.position
  admitted := t.admitted.congr (Numeral.real?_upper t.text)

theorem startsWord_toUpper (c : Char) : startsWord c.toUpper = startsWord c :=
  apply_toUpper startsWord (by decide) c

theorem continuesWord_toUpper (c : Char) : continuesWord c.toUpper = continuesWord c :=
  apply_toUpper continuesWord (by decide) c

theorem lexeme?_upper (c : Char) (cs : List Char) :
    lexeme? c.toUpper (cs.map Char.toUpper) =
      (lexeme? c cs).map fun (kind, text, rest) =>
        (kind, text.map Char.toUpper, rest.map Char.toUpper) := by
  have htake := Numeral.take_upper (c :: cs)
  rw [List.map_cons] at htake
  unfold lexeme?
  rw [isDigit_toUpper, startsWord_toUpper, htake, TokenKind.ofMark?_toUpper,
    takeWhile_upper continuesWord_toUpper, dropWhile_upper continuesWord_toUpper]
  split_ifs
  · simp only [Option.map_some, Numeral.chars_upper]
  · simp only [← List.map_cons, TokenKind.ofWord_upper, Option.map_some]
  · cases TokenKind.ofMark? c <;> rfl

/-- A text in upper case is cut where the text is cut, or stops at the same place. -/
theorem scan_upper (cs : List Char) (position : Nat) :
    scan (cs.map Char.toUpper) position =
      ((scan cs position).map (List.map upper)).mapError fun stop => (stop.1.toUpper, stop.2) := by
  induction cs, position using scan.induct with
  | case1 position =>
    rw [List.map_nil, scan_nil]
    rfl
  | case2 position c cs hb ih =>
    have hb' : isBlank c.toUpper = true := (isBlank_toUpper c).trans hb
    rw [List.map_cons, scan_blank hb', scan_blank hb, ih]
  | case3 position c cs hb hl =>
    have hb : isBlank c = false := by simpa using hb
    have hl' : lexeme? c.toUpper (cs.map Char.toUpper) = none := by rw [lexeme?_upper, hl]; rfl
    rw [List.map_cons, scan_stuck ((isBlank_toUpper c).trans hb) hl', scan_stuck hb hl]
    rfl
  | case4 position c cs hb kind text rest hl _ ih =>
    have hb : isBlank c = false := by simpa using hb
    have hl' : lexeme? c.toUpper (cs.map Char.toUpper) =
        some (kind, text.map Char.toUpper, rest.map Char.toUpper) := by rw [lexeme?_upper, hl]; rfl
    have htoken : (⟨kind, String.ofList (text.map Char.toUpper), position,
        admits_of_lexeme? hl'⟩ : Token) =
          upper ⟨kind, String.ofList text, position, admits_of_lexeme? hl⟩ :=
      Token.ext rfl (toUpper_ofList text).symm rfl
    rw [List.map_cons, scan_lexeme ((isBlank_toUpper c).trans hb) hl', scan_lexeme hb hl, htoken,
      List.length_map, ih]
    cases scan rest (position + text.length) <;> rfl

variable {t t' : Token}

@[simp] theorem kind_upper (t : Token) : t.upper.kind = t.kind := rfl

@[simp] theorem position_upper (t : Token) : t.upper.position = t.position := rfl

theorem kind_eq_of_upper (h : t'.upper = t.upper) : t'.kind = t.kind := by
  rw [← kind_upper t', h, kind_upper]

theorem position_eq_of_upper (h : t'.upper = t.upper) : t'.position = t.position := by
  rw [← position_upper t', h, position_upper]

theorem text_eq_of_upper (h : t'.upper = t.upper) : t'.text.toUpper = t.text.toUpper :=
  congrArg Token.text h

theorem number?_eq_of_upper (h : t'.upper = t.upper) : t'.number? = t.number? := by
  unfold number?
  rw [kind_eq_of_upper h, ← Numeral.real?_upper t'.text, text_eq_of_upper h, Numeral.real?_upper]

theorem exists_cons_of_upper {ts us : List Token} (h : us.map upper = (t :: ts).map upper) :
    ∃ t' ts', us = t' :: ts' ∧ t'.upper = t.upper ∧ ts'.map upper = ts.map upper :=
  List.map_eq_cons_iff.mp h

theorem exists_append_of_upper {ls rs us : List Token}
    (h : us.map upper = (ls ++ rs).map upper) :
    ∃ ls' rs', us = ls' ++ rs' ∧ ls'.map upper = ls.map upper ∧ rs'.map upper = rs.map upper := by
  rw [List.map_append] at h
  exact List.map_eq_append_iff.mp h

end Token
/-! ## Trees -/

/-- A tree with all names in upper case. -/
def Expr.upper : Expr → Expr
  | number v => number v
  | var name => var name.toUpper
  | binary l o r => binary l.upper o r.upper
  | negate e => negate e.upper
  | brackets e => brackets e.upper
  | call name e => call name.toUpper e.upper
  | call2 name l r infixed => call2 name.toUpper l.upper r.upper infixed
  | foreign => foreign

def Equation.upper (e : Equation) : Equation := ⟨e.lhs.map Expr.upper, e.rhs.map Expr.upper⟩

namespace Grammar

open Token

variable {level : Level} {t t' : Token} {ts ts' : List Token} {e : Expr}

theorem Joins.exists_of_upper {c : Chain} {join : Expr → Expr → Expr} (h : Joins c t join)
    (ht : t'.upper = t.upper) :
    ∃ join', Joins c t' join' ∧ ∀ {l r l' r' : Expr}, l'.upper = l.upper → r'.upper = r.upper →
      (join' l' r').upper = (join l r).upper := by
  have htext := text_eq_of_upper ht
  have hkind := kind_eq_of_upper ht
  cases h with
  | infixed h => exact ⟨_, .infixed (hkind.trans h), fun hl hr => by simp only [Expr.upper, *]⟩
  | plus h => exact ⟨_, .plus (hkind.trans h), fun hl hr => by simp only [Expr.upper, *]⟩
  | minus h => exact ⟨_, .minus (hkind.trans h), fun hl hr => by simp only [Expr.upper, *]⟩
  | multiply h => exact ⟨_, .multiply (hkind.trans h), fun hl hr => by simp only [Expr.upper, *]⟩
  | divide h => exact ⟨_, .divide (hkind.trans h), fun hl hr => by simp only [Expr.upper, *]⟩
  | modulus h => exact ⟨_, .modulus (hkind.trans h), fun hl hr => by simp only [Expr.upper, *]⟩

theorem exists_brackets_of_upper {e' inner : Expr} (h : e'.upper = (Expr.brackets inner).upper) :
    ∃ inner', e' = .brackets inner' ∧ inner'.upper = inner.upper := by
  cases e' with
  | brackets inner' => exact ⟨inner', rfl, Expr.brackets.inj h⟩
  | _ => cases h

/-- Tokens that differ in case alone are phrases of the same levels, with trees that differ in the
spelling of names alone. -/
theorem Derives.exists_of_upper (h : Derives level ts e) (hts : ts'.map upper = ts.map upper) :
    ∃ e', Derives level ts' e' ∧ e'.upper = e.upper := by
  induction h generalizing ts' with
  | operand _ ih =>
    obtain ⟨e', he', heq⟩ := ih hts
    exact ⟨e', .operand he', heq⟩
  | chain _ ht _ ihl ihr =>
    obtain ⟨ls', us', rfl, hls, hus⟩ := exists_append_of_upper hts
    obtain ⟨t', rs', rfl, htt, hrs⟩ := exists_cons_of_upper hus
    obtain ⟨l', hl', hleq⟩ := ihl hls
    obtain ⟨r', hr', hreq⟩ := ihr hrs
    obtain ⟨join', hjoin', hjoin⟩ := ht.exists_of_upper htt
    exact ⟨join' l' r', .chain hl' hjoin' hr', hjoin hleq hreq⟩
  | base _ ih =>
    obtain ⟨e', he', heq⟩ := ih hts
    exact ⟨e', .base he', heq⟩
  | power _ ht _ ihl ihr =>
    obtain ⟨ls', us', rfl, hls, hus⟩ := exists_append_of_upper hts
    obtain ⟨t', rs', rfl, htt, hrs⟩ := exists_cons_of_upper hus
    obtain ⟨l', hl', hleq⟩ := ihl hls
    obtain ⟨r', hr', hreq⟩ := ihr hrs
    refine ⟨_, .power hl' ((kind_eq_of_upper htt).trans ht) hr', ?_⟩
    simp only [Expr.upper, hleq, hreq]
  | primary _ ih =>
    obtain ⟨e', he', heq⟩ := ih hts
    exact ⟨e', .primary he', heq⟩
  | negateGroup ht _ ih =>
    obtain ⟨t', us', rfl, htt, hus⟩ := exists_cons_of_upper hts
    obtain ⟨e', he', heq⟩ := ih hus
    obtain ⟨inner', rfl, hinner⟩ := exists_brackets_of_upper heq
    exact ⟨_, .negateGroup ((kind_eq_of_upper htt).trans ht) he', by simp only [Expr.upper, hinner]⟩
  | negate ht _ hne ih =>
    obtain ⟨t', us', rfl, htt, hus⟩ := exists_cons_of_upper hts
    obtain ⟨e', he', heq⟩ := ih hus
    have hne' : ∀ inner, e' ≠ .brackets inner := by
      intro inner h
      subst h
      obtain ⟨inner', h, -⟩ := exists_brackets_of_upper heq.symm
      exact hne inner' h
    refine ⟨_, .negate ((kind_eq_of_upper htt).trans ht) he' hne', ?_⟩
    simp only [Expr.upper, heq]
  | number ht =>
    obtain ⟨t', us', rfl, htt, hus⟩ := exists_cons_of_upper hts
    obtain rfl := List.map_eq_nil_iff.mp hus
    exact ⟨_, .number ((number?_eq_of_upper htt).trans ht), rfl⟩
  | var ht =>
    obtain ⟨t', us', rfl, htt, hus⟩ := exists_cons_of_upper hts
    obtain rfl := List.map_eq_nil_iff.mp hus
    refine ⟨_, .var ((kind_eq_of_upper htt).trans ht), ?_⟩
    simp only [Expr.upper, text_eq_of_upper htt]
  | call hf ho _ hc ih =>
    obtain ⟨f', us', rfl, hff, hus⟩ := exists_cons_of_upper hts
    obtain ⟨o', vs', rfl, hoo, hvs⟩ := exists_cons_of_upper hus
    obtain ⟨ts', cs', rfl, hts', hcs⟩ := exists_append_of_upper hvs
    obtain ⟨c', ns', rfl, hcc, hns⟩ := exists_cons_of_upper hcs
    obtain rfl := List.map_eq_nil_iff.mp hns
    obtain ⟨e', he', heq⟩ := ih hts'
    refine ⟨_, .call ((kind_eq_of_upper hff).trans hf) ((kind_eq_of_upper hoo).trans ho) he'
      ((kind_eq_of_upper hcc).trans hc), ?_⟩
    simp only [Expr.upper, text_eq_of_upper hff, heq]
  | call2 hf ho _ hm _ hc ihl ihr =>
    obtain ⟨f', us', rfl, hff, hus⟩ := exists_cons_of_upper hts
    obtain ⟨o', vs', rfl, hoo, hvs⟩ := exists_cons_of_upper hus
    obtain ⟨ls', ms', rfl, hls, hms⟩ := exists_append_of_upper hvs
    obtain ⟨m', ws', rfl, hmm, hws⟩ := exists_cons_of_upper hms
    obtain ⟨rs', cs', rfl, hrs, hcs⟩ := exists_append_of_upper hws
    obtain ⟨c', ns', rfl, hcc, hns⟩ := exists_cons_of_upper hcs
    obtain rfl := List.map_eq_nil_iff.mp hns
    obtain ⟨l', hl', hleq⟩ := ihl hls
    obtain ⟨r', hr', hreq⟩ := ihr hrs
    refine ⟨_, .call2 ((kind_eq_of_upper hff).trans hf) ((kind_eq_of_upper hoo).trans ho) hl'
      ((kind_eq_of_upper hmm).trans hm) hr' ((kind_eq_of_upper hcc).trans hc), ?_⟩
    simp only [Expr.upper, text_eq_of_upper hff, hleq, hreq]
  | group ho _ hc ih =>
    obtain ⟨o', vs', rfl, hoo, hvs⟩ := exists_cons_of_upper hts
    obtain ⟨ts', cs', rfl, hts', hcs⟩ := exists_append_of_upper hvs
    obtain ⟨c', ns', rfl, hcc, hns⟩ := exists_cons_of_upper hcs
    obtain rfl := List.map_eq_nil_iff.mp hns
    obtain ⟨e', he', heq⟩ := ih hts'
    refine ⟨_, .group ((kind_eq_of_upper hoo).trans ho) he' ((kind_eq_of_upper hcc).trans hc), ?_⟩
    simp only [Expr.upper, heq]

theorem DerivesEquation.exists_of_upper {eq : Equation} (h : DerivesEquation ts eq)
    (hts : ts'.map upper = ts.map upper) :
    ∃ eq', DerivesEquation ts' eq' ∧ eq'.upper = eq.upper := by
  obtain ⟨hl, ht, hr⟩ := h
  obtain ⟨ls', us', rfl, hls, hus⟩ := exists_append_of_upper hts
  obtain ⟨t', rs', rfl, htt, hrs⟩ := exists_cons_of_upper hus
  obtain ⟨l', hl', hleq⟩ := hl.exists_of_upper hls
  obtain ⟨r', hr', hreq⟩ := hr.exists_of_upper hrs
  refine ⟨_, .sides hl' ((kind_eq_of_upper htt).trans ht) hr', ?_⟩
  simp only [Equation.upper, Equation.ofSides, Option.map_some, hleq, hreq]

/-! ## Positions -/

theorem BeginsEquation.of_upper (h : BeginsEquation ts) (hts : ts'.map upper = ts.map upper) :
    BeginsEquation ts' := by
  obtain ⟨more, eq, heq⟩ := h
  have hmore : (ts' ++ more).map upper = (ts ++ more).map upper := by
    rw [List.map_append, List.map_append, hts]
  obtain ⟨eq', heq', -⟩ := heq.exists_of_upper hmore
  exact ⟨more, eq', heq'⟩

theorem beginsEquation_iff_of_upper (hts : ts'.map upper = ts.map upper) :
    BeginsEquation ts' ↔ BeginsEquation ts :=
  ⟨fun h => h.of_upper hts.symm, fun h => h.of_upper hts⟩

theorem EndsUncalled.exists_of_upper {name : Token} (h : EndsUncalled ts name)
    (hts : ts'.map upper = ts.map upper) :
    ∃ name', EndsUncalled ts' name' ∧ name'.position = name.position := by
  obtain ⟨init, rfl, hkind, hbegins⟩ := h
  obtain ⟨init', us', rfl, hinit, hus⟩ := exists_append_of_upper hts
  obtain ⟨name', ns', rfl, hname, hns⟩ := exists_cons_of_upper hus
  obtain rfl := List.map_eq_nil_iff.mp hns
  let x : Token := ⟨.var, "x", 0, trivial⟩
  have hmore : (init' ++ [x]).map upper = (init ++ [x]).map upper := by
    rw [List.map_append, List.map_append, hinit]
  refine ⟨name', ⟨init', rfl, (kind_eq_of_upper hname).trans hkind, hbegins.of_upper hmore⟩, ?_⟩
  exact position_eq_of_upper hname

/-- The first misplaced token stands at one place, whatever the case of the letters. -/
theorem FirstMisplaced.position_eq {size position position' : Nat}
    (h : FirstMisplaced size ts position) (h' : FirstMisplaced size ts' position')
    (hts : ts'.map upper = ts.map upper) : position' = position := by
  have htake (k : Nat) : (ts'.take k).map upper = (ts.take k).map upper := by
    rw [List.map_take, List.map_take, hts]
  by_cases hbegins : BeginsEquation ts
  · have hbegins' := hbegins.of_upper hts
    by_cases huncalled : ∃ name, EndsUncalled ts name
    · obtain ⟨name, hname⟩ := huncalled
      obtain ⟨name', hname', hposition⟩ := hname.exists_of_upper hts
      rw [h.uncalled hbegins name hname, h'.uncalled hbegins' name' hname', hposition]
    · have hnone : ∀ name, ¬EndsUncalled ts name := not_exists.mp huncalled
      have hnone' : ∀ name, ¬EndsUncalled ts' name := by
        intro name' hname'
        obtain ⟨name, hname, -⟩ := hname'.exists_of_upper hts.symm
        exact hnone name hname
      rw [h.ended hbegins hnone, h'.ended hbegins' hnone']
  · obtain ⟨k, -, hk, hnext⟩ := h.exists_misplaced hbegins
    obtain ⟨t, ht, rfl⟩ := h.misplaced k hk hnext
    have hk' := hk.of_upper (htake k)
    have hnext' := fun hb => hnext ((beginsEquation_iff_of_upper (htake (k + 1))).mp hb)
    obtain ⟨t', ht', rfl⟩ := h'.misplaced k hk' hnext'
    have hsame : (ts'.map upper)[k]? = (ts.map upper)[k]? := by rw [hts]
    rw [List.getElem?_map, List.getElem?_map, ht, ht'] at hsame
    exact position_eq_of_upper (Option.some.inj hsame)

/-- The reader of equations takes both lists of tokens, or rejects both at one place. -/
theorem equation_start_of_upper (hts : ts'.map upper = ts.map upper) (size : Nat) :
    (∃ eq eq', (Cursor.start ts).equation.1 = .ok eq ∧ (Cursor.start ts').equation.1 = .ok eq' ∧
      eq'.upper = eq.upper) ∨
    ∃ fault fault', (Cursor.start ts).equation.1 = .error fault ∧
      (Cursor.start ts').equation.1 = .error fault' ∧
      fault'.position size = fault.position size := by
  cases hread : (Cursor.start ts).equation.1 with
  | ok eq =>
    obtain ⟨eq', heq', hsame⟩ := ((equation_start_eq_ok ts eq).mp hread).exists_of_upper hts
    exact .inl ⟨eq, eq', rfl, (equation_start_eq_ok ts' eq').mpr heq', hsame⟩
  | error fault =>
    cases hread' : (Cursor.start ts').equation.1 with
    | ok eq' =>
      obtain ⟨eq, heq, -⟩ := ((equation_start_eq_ok ts' eq').mp hread').exists_of_upper hts.symm
      cases hread.symm.trans ((equation_start_eq_ok ts eq).mpr heq)
    | error fault' =>
      have hplace := firstMisplaced_of_equation_start hread size
      have hplace' := firstMisplaced_of_equation_start hread' size
      exact .inr ⟨fault, fault', rfl, rfl, hplace.position_eq hplace' hts⟩

end Grammar

namespace Equation

/-- Formulas that differ in case alone are read as equations that differ in the spelling of names
alone, or rejected at one place. -/
theorem parse_of_toUpper_eq {source source' : String} (h : source'.toUpper = source.toUpper) :
    (∃ e e', parse source = .ok e ∧ parse source' = .ok e' ∧ e'.upper = e.upper) ∨
    ∃ error error', parse source = .error error ∧ parse source' = .error error' ∧
      error'.position = error.position := by
  have htext := congrArg String.toList h
  rw [String.toUpper, String.toUpper, String.toList_map, String.toList_map] at htext
  have hlength : source'.length = source.length := by
    rw [← String.length_toList, ← String.length_toList, ← List.length_map, htext, List.length_map]
  have hscan := Token.scan_upper source'.toList 0
  rw [htext, Token.scan_upper source.toList 0] at hscan
  cases hs : Token.scan source.toList 0 with
  | error stop =>
    cases hs' : Token.scan source'.toList 0 with
    | ok ts' =>
      rw [hs, hs'] at hscan
      cases hscan
    | error stop' =>
      rw [hs, hs'] at hscan
      obtain ⟨-, hposition⟩ : _ ∧ stop.2 = stop'.2 := by
        simpa [Except.map, Except.mapError] using hscan
      have htokenize : Token.tokenize source =
          .error ⟨source, .unexpectedCharacter stop.1 stop.2⟩ := by rw [Token.tokenize, hs]
      have htokenize' : Token.tokenize source' =
          .error ⟨source', .unexpectedCharacter stop'.1 stop'.2⟩ := by rw [Token.tokenize, hs']
      exact .inr ⟨_, _, parse_of_tokenize_eq_error htokenize,
        parse_of_tokenize_eq_error htokenize', hposition.symm⟩
  | ok ts =>
    cases hs' : Token.scan source'.toList 0 with
    | error stop' =>
      rw [hs, hs'] at hscan
      cases hscan
    | ok ts' =>
      rw [hs, hs'] at hscan
      have hts : ts'.map Token.upper = ts.map Token.upper := by
        simpa only [Except.map, Except.mapError, Except.ok.injEq, eq_comm] using hscan
      have hparse := parse_of_tokenize_eq_ok ((Token.tokenize_eq_ok source ts).mpr hs)
      have hparse' := parse_of_tokenize_eq_ok ((Token.tokenize_eq_ok source' ts').mpr hs')
      rw [hparse, hparse']
      obtain ⟨e, e', he, he', hsame⟩ | ⟨fault, fault', hfault, hfault', hposition⟩ :=
        Grammar.equation_start_of_upper hts source.length
      · rw [he, he']
        exact .inl ⟨e, e', rfl, rfl, hsame⟩
      · rw [hfault, hfault']
        refine .inr ⟨_, _, rfl, rfl, ?_⟩
        show fault'.position source'.length = fault.position source.length
        rw [hlength, hposition]

end Equation
end Isotherm
