import Isotherm.Proofs.Formula.Literals

/-!
# Canonical text read back

Reading canonical text gives back the tree it was written from where that tree was read itself: its
chains are nested the way they are read, every negation owns the parentheses it is written with, and
every number is the double that its shortest digits stand for.
-/

namespace Isotherm

/-- A token of a formula whose number, if it is one, is finite. -/
def Token.Finite (t : Token) : Prop :=
  t.WellFormed ∧ ∀ v ∈ t.number?, v.isFinite = true

namespace Grammar

open Isotherm.Expr

/-! ## Trees that were read -/

/-- A tree that was read from finite tokens can be written. -/
theorem Derives.printable {level : Level} {ts : List Token} {e : Expr} (h : Derives level ts e)
    (hts : ∀ t ∈ ts, Token.Finite t) : e.Printable := by
  refine printable_iff.mpr ⟨h.named fun t ht => (hts t ht).1, fun v hv => ?_⟩
  rw [h.numbers] at hv
  obtain ⟨t, ht, hvalue⟩ := Token.mem_literals.mp hv
  obtain ⟨hwell, hfinite⟩ := hts t ht
  refine ⟨hfinite v hvalue, ?_⟩
  obtain ⟨n, -, -, hn⟩ := hwell.numeral (Token.kind_of_number? hvalue)
  obtain rfl := Option.some.inj (hn.symm.trans hvalue)
  exact Decimal.signBit_toFloat (hfinite _ hvalue)

/-- Brackets are an operand, whatever stands in them. -/
theorem derives_brackets {e : Expr} {position : Nat}
    (h : Derives expression (e.tokens (position + 1)) e) :
    Derives .unary ((brackets e).tokens position) (.brackets e) :=
  .primary (.group rfl h rfl)

/-- A negation is written with the parentheses that it owns. -/
theorem derives_negate {e : Expr} {position : Nat}
    (h : Derives expression (e.tokens (position + 1 + 1)) e) :
    Derives .unary ((negate e).tokens position) (.negate e) :=
  .negateGroup rfl (derives_brackets h)

theorem derives_number {v : Float} (h : (number v).Printable) (position : Nat) :
    Derives .primary ((number v).tokens position) (.number v) :=
  .number ((Token.number?_of_kind rfl).trans (Style.real?_text h.1 h.2))

/-- The tokens of a tree that was read are derived at the same level, with the same tree. -/
theorem Derives.tokens {level : Level} {ts : List Token} {e : Expr} (h : Derives level ts e)
    (he : e.Printable) (position : Nat) : Derives level (e.tokens position) e := by
  induction h generalizing position with
  | operand _ ih => exact .operand (ih he position)
  | chain _ ht _ ihl ihr =>
    cases ht with
    | infixed => exact .chain (ihl he.2.1 position) (.infixed rfl) (ihr he.2.2 _)
    | plus => exact .chain (ihl he.1 position) (.plus rfl) (ihr he.2.2 _)
    | minus => exact .chain (ihl he.1 position) (.minus rfl) (ihr he.2.2 _)
    | multiply => exact .chain (ihl he.1 position) (.multiply rfl) (ihr he.2.2 _)
    | divide => exact .chain (ihl he.1 position) (.divide rfl) (ihr he.2.2 _)
    | modulus => exact .chain (ihl he.1 position) (.modulus rfl) (ihr he.2.2 _)
  | base _ ih => exact .base (ih he position)
  | power _ _ _ ihl ihr => exact .power (ihl he.1 position) rfl (ihr he.2.2 _)
  | primary _ ih => exact .primary (ih he position)
  | negateGroup _ _ ih => exact .negateGroup rfl (ih he (position + 1))
  | negate _ _ _ ih => exact derives_negate (ih he (position + 1 + 1)).expression_of_unary
  | number => exact derives_number he position
  | var => exact .var rfl
  | call _ _ _ _ ih => exact .call rfl rfl (ih he.2 _) rfl
  | call2 _ _ _ _ _ _ ihl ihr => exact .call2 rfl rfl (ihl he.2.1 _) rfl (ihr he.2.2 _) rfl
  | group _ _ _ ih => exact .group rfl (ih he (position + 1)) rfl

end Grammar

namespace Equation

open Grammar

/-- The text of an equation that was read with finite numbers is read as the same equation. -/
theorem parse_checkedText_of_parse {source : String} {e : Equation} (h : parse source = .ok e)
    (hfinite : ∀ ts, Token.tokenize source = .ok ts → ∀ t ∈ ts, ∀ v ∈ t.number?,
      v.isFinite = true) :
    ∃ text, e.checkedText = .ok text ∧ parse text = .ok e := by
  obtain ⟨ts, hts, hd⟩ := (parse_eq_ok source e).mp h
  have htokens : ∀ t ∈ ts, t.Finite := fun t ht =>
    ⟨Token.wellFormed_of_tokenize hts t ht, hfinite ts hts t ht⟩
  cases hd with
  | @sides ls rs l r t hl _ hr =>
    simp only [List.forall_mem_append, List.forall_mem_cons] at htokens
    obtain ⟨hls, -, hrs⟩ := htokens
    have hpl := hl.printable hls
    have hpr := hr.printable hrs
    refine ⟨textOfSides l r, checkedText_ofSides hpl.hasForeign hpr.hasForeign, ?_⟩
    rw [parse_textOfSides hpl hpr]
    exact .sides (hl.tokens hpl 0) rfl (hr.tokens hpr _)

theorem parse_checkedText_of_parse_difference :
    ∃ e, parse "-(x) - 1 = y" = .ok e ∧ ∃ text, e.checkedText = .ok text ∧ parse text = .ok e := by
  let left : List Token :=
    [⟨.minus, "-", 0, trivial⟩, ⟨.leftParenthesis, "(", 1, trivial⟩, ⟨.var, "x", 2, trivial⟩,
      ⟨.rightParenthesis, ")", 3, trivial⟩]
  have hread : Numeral.real? "1" = some 1 := by decide +kernel
  let one : Token := ⟨.number, "1", 7, by decide +kernel⟩
  let ts : List Token :=
    left ++ [⟨.minus, "-", 5, trivial⟩, one, ⟨.equals, "=", 9, trivial⟩, ⟨.var, "y", 11, trivial⟩]
  have htokens : Token.tokenize "-(x) - 1 = y" = .ok ts := by cbv
  have hx : Derives .unary [⟨.var, "x", 2, trivial⟩] (.var "x") := .primary (.var rfl)
  have hy : Derives .unary [⟨.var, "y", 11, trivial⟩] (.var "y") := .primary (.var rfl)
  have hnegate : Derives .unary left (.negate (.var "x")) :=
    .negateGroup rfl (.primary (.group rfl hx.expression_of_unary rfl))
  have hone : Derives .primary [one] (.number 1) :=
    .number ((Token.number?_of_kind rfl).trans hread)
  have hlhs : Derives (.chain .additive) (left ++ [⟨.minus, "-", 5, trivial⟩, one]) _ :=
    .chain (.operand (.operand (.base hnegate))) (.minus rfl)
      (.operand (.base (.primary hone)))
  have hd : DerivesEquation ts _ :=
    .sides (.operand hlhs) (t := ⟨.equals, "=", 9, trivial⟩) rfl hy.expression_of_unary
  have hparse := (parse_eq_ok _ _).mpr ⟨ts, htokens, hd⟩
  have hnumbers : ∀ t ∈ ts, ∀ v ∈ t.number?, v.isFinite = true := by decide +kernel
  refine ⟨_, hparse, parse_checkedText_of_parse hparse fun us hus => ?_⟩
  obtain rfl := Except.ok.inj (htokens.symm.trans hus)
  exact hnumbers

end Equation
end Isotherm
