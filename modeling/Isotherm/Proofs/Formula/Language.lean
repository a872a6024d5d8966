import Isotherm.Proofs.Formula.Acceptance
import Isotherm.Proofs.Formula.Lexing

/-!
# The language of formulas

A text is an equation exactly where it can be cut into tokens and the grammar derives them, and then
it has one tree. Everything else ends in one error that names the text. The number of a number token
is the one that its numeral stands for.
-/

namespace Isotherm

namespace Token

theorem tokenize_eq_ok (source : String) (ts : List Token) :
    tokenize source = .ok ts ↔ scan source.toList 0 = .ok ts := by
  unfold tokenize
  cases scan source.toList 0 <;> simp

/-- Every token of a formula is well formed. -/
theorem wellFormed_of_tokenize {source : String} {ts : List Token}
    (h : tokenize source = .ok ts) : ∀ t ∈ ts, t.WellFormed :=
  wellFormed_of_scan source.toList 0 ((tokenize_eq_ok source ts).mp h)

/-- The text of a number token is a numeral, and the number of the token is that of the numeral. -/
theorem WellFormed.numeral {t : Token} (h : t.WellFormed) (hk : t.kind = .number) :
    ∃ n : Numeral, n.WellFormed ∧ n.chars = t.text.toList ∧
      t.number? = some (n.decimal.toFloat false) := by
  obtain ⟨n, hn, hchars⟩ := h.number hk
  refine ⟨n, hn, hchars, ?_⟩
  rw [number?_of_kind hk, ← Numeral.real?_chars hn, hchars, String.ofList_toList]

end Token

namespace Equation

open Grammar

theorem parse_of_tokenize_eq_error {source : String} {error : ParseError}
    (h : Token.tokenize source = .error error) : parse source = .error error := by
  unfold parse
  rw [h]
  rfl

theorem parse_of_tokenize_eq_ok {source : String} {ts : List Token}
    (h : Token.tokenize source = .ok ts) :
    parse source = (Cursor.start ts).equation.1.mapError (⟨source, ·⟩) := by
  unfold parse
  rw [h]
  dsimp only [bind, Except.bind]
  cases (Cursor.start ts).equation.1 <;> rfl

/-- A text is read as an equation through its tokens and the grammar, in no other way. -/
theorem parse_eq_ok (source : String) (e : Equation) :
    parse source = .ok e ↔ ∃ ts, Token.tokenize source = .ok ts ∧ DerivesEquation ts e := by
  cases h : Token.tokenize source with
  | ok ts =>
    have heq : parse source = .ok e ↔ (Cursor.start ts).equation.1 = .ok e := by
      rw [parse_of_tokenize_eq_ok h]
      cases (Cursor.start ts).equation.1 with
      | ok e' =>
        show (.ok e' : Except ParseError Equation) = .ok e ↔ _
        rw [Except.ok.injEq, Except.ok.injEq]
      | error fault =>
        show (.error ⟨source, fault⟩ : Except ParseError Equation) = .ok e ↔ _
        simp only [reduceCtorEq]
    simp [heq, equation_start_eq_ok]
  | error error => simp [parse_of_tokenize_eq_error h]

end Equation
end Isotherm
