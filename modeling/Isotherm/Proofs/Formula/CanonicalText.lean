import Isotherm.Formula.Checked
import Isotherm.Proofs.Formula.Language
import Isotherm.Proofs.Number.Written

/-!
# The tokens of canonical text

The canonical text of a printable tree is cut into exactly the tokens that can be read off the tree,
each at the place where it was written. Nothing here says how the tokens are read; the tree may nest
its chains in any way.
-/

namespace Isotherm

open Text

namespace Operator

/-- The kind of the token of an operator. An unknown one can only be read as a name. -/
def kind : Operator → TokenKind
  | add => .plus
  | subtract => .minus
  | multiply => .multiply
  | divide => .divide
  | power => .power
  | remainder => .modulus
  | unknown _ => .identifier

/-- An operator of the grammar is one mark. -/
theorem symbol_of_mem_known {o : Operator} (h : o ∈ known) :
    ∃ c, o.symbol.toList = [c] ∧ TokenKind.ofMark? c = some o.kind := by
  simp only [known, List.mem_cons, List.not_mem_nil, or_false] at h
  rcases h with rfl | rfl | rfl | rfl | rfl | rfl <;> exact ⟨_, rfl, rfl⟩

theorem kind_ne_number (o : Operator) : o.kind ≠ .number := by
  cases o <;> exact nofun

end Operator

namespace Expr

/-- A tree that can be written as a formula: its numbers are finite and have no sign, its names are
names, its operators are those of the grammar. -/
def Printable : Expr → Prop
  | number v => v.isFinite = true ∧ signBit v = false
  | var name => name ∈ variableNames
  | binary l o r => l.Printable ∧ o ∈ Operator.known ∧ r.Printable
  | negate e | brackets e => e.Printable
  | call name e => IsFunctionName name ∧ e.Printable
  | call2 name l r _ => IsFunctionName name ∧ l.Printable ∧ r.Printable
  | foreign => False

/-- Whether a tree can be written can be computed. -/
instance decidablePrintable : (e : Expr) → Decidable e.Printable
  | number _ => inferInstanceAs (Decidable (_ ∧ _))
  | var name => inferInstanceAs (Decidable (name ∈ variableNames))
  | binary l o r =>
    have := decidablePrintable l
    have := decidablePrintable r
    inferInstanceAs (Decidable (l.Printable ∧ o ∈ Operator.known ∧ r.Printable))
  | negate e | brackets e => decidablePrintable e
  | call name e =>
    have := decidablePrintable e
    inferInstanceAs (Decidable (IsFunctionName name ∧ e.Printable))
  | call2 name l r _ =>
    have := decidablePrintable l
    have := decidablePrintable r
    inferInstanceAs (Decidable (IsFunctionName name ∧ l.Printable ∧ r.Printable))
  | foreign => .isFalse id

/-- The tokens of a tree that is written from `position` on. -/
def tokens (position : Nat) : Expr → List Token
  | number v => [⟨.number, Style.formula.text v, position, Style.readable_text v⟩]
  | var name => [⟨.var, name, position, trivial⟩]
  | binary l o r =>
    l.tokens position ++
      ⟨o.kind, o.symbol, position + l.chars.length + 1, TokenKind.admits_of_ne o.kind_ne_number _⟩ ::
      r.tokens (position + l.chars.length + 1 + o.symbol.toList.length + 1)
  | negate e =>
    ⟨.minus, "-", position, trivial⟩ :: ⟨.leftParenthesis, "(", position + 1, trivial⟩ ::
      (e.tokens (position + 1 + 1) ++
        [⟨.rightParenthesis, ")", position + 1 + 1 + e.chars.length, trivial⟩])
  | brackets e =>
    ⟨.leftParenthesis, "(", position, trivial⟩ ::
      (e.tokens (position + 1) ++
        [⟨.rightParenthesis, ")", position + 1 + e.chars.length, trivial⟩])
  | call name e =>
    ⟨.identifier, name, position, trivial⟩ ::
      ⟨.leftParenthesis, "(", position + name.toList.length, trivial⟩ ::
      (e.tokens (position + name.toList.length + 1) ++
        [⟨.rightParenthesis, ")", position + name.toList.length + 1 + e.chars.length, trivial⟩])
  | call2 name l r true =>
    l.tokens position ++ ⟨.identifier, name, position + l.chars.length + 1, trivial⟩ ::
      r.tokens (position + l.chars.length + 1 + name.toList.length + 1)
  | call2 name l r false =>
    let comma := position + name.toList.length + 1 + l.chars.length
    ⟨.identifier, name, position, trivial⟩ ::
      ⟨.leftParenthesis, "(", position + name.toList.length, trivial⟩ ::
      (l.tokens (position + name.toList.length + 1) ++ ⟨.comma, ",", comma, trivial⟩ ::
        (r.tokens (comma + 1 + 1) ++
          [⟨.rightParenthesis, ")", comma + 1 + 1 + r.chars.length, trivial⟩]))
  | foreign => []

theorem Printable.hasForeign {e : Expr} (h : e.Printable) : e.hasForeign = false := by
  induction e with
  | number v => rfl
  | var name => rfl
  | binary l o r ihl ihr => rw [Expr.hasForeign, ihl h.1, ihr h.2.2]; rfl
  | negate e ih => exact ih h
  | brackets e ih => exact ih h
  | call name e ih => exact ih h.2
  | call2 name l r infixed ihl ihr => rw [Expr.hasForeign, ihl h.2.1, ihr h.2.2]; rfl
  | foreign => exact h.elim

/-! ## Cutting the text of a tree -/

open Token (Boundary scan)

theorem boundary_cons {c : Char} (h : c ∈ [' ', '(', ')', ',']) (rest : List Char) :
    Boundary (c :: rest) := by
  rintro d ⟨⟩
  exact h

theorem scan_space (rest : List Char) (position : Nat) :
    scan (' ' :: rest) position = scan rest (position + 1) :=
  Token.scan_blank (by decide) rest position

theorem scan_function {name : String} (h : IsFunctionName name) {rest : List Char}
    (hr : Boundary rest) (position : Nat) :
    scan (name.toList ++ rest) position =
      (scan rest (position + name.toList.length)).map
        (⟨.identifier, name, position, trivial⟩ :: ·) :=
  Token.scan_name h.1 (ofWord_eq_identifier h.2) hr position

theorem scan_operator {o : Operator} (h : o ∈ Operator.known) (rest : List Char)
    (position : Nat) :
    scan (o.symbol.toList ++ rest) position =
      (scan rest (position + o.symbol.toList.length)).map
        (⟨o.kind, o.symbol, position, TokenKind.admits_of_ne o.kind_ne_number _⟩ :: ·) := by
  obtain ⟨c, hc, hk⟩ := Operator.symbol_of_mem_known h
  rw [hc, List.singleton_append, Token.scan_mark hk, ← hc, String.ofList_toList, hc]
  rfl

theorem scan_open (rest : List Char) (position : Nat) :
    scan ('(' :: rest) position =
      (scan rest (position + 1)).map (⟨.leftParenthesis, "(", position, trivial⟩ :: ·) :=
  Token.scan_mark rfl rest position

theorem scan_close (rest : List Char) (position : Nat) :
    scan (')' :: rest) position =
      (scan rest (position + 1)).map (⟨.rightParenthesis, ")", position, trivial⟩ :: ·) :=
  Token.scan_mark rfl rest position

theorem scan_minus (rest : List Char) (position : Nat) :
    scan ('-' :: rest) position =
      (scan rest (position + 1)).map (⟨.minus, "-", position, trivial⟩ :: ·) :=
  Token.scan_mark rfl rest position

theorem scan_comma (rest : List Char) (position : Nat) :
    scan (',' :: rest) position =
      (scan rest (position + 1)).map (⟨.comma, ",", position, trivial⟩ :: ·) :=
  Token.scan_mark rfl rest position

/-- In front of a boundary the text of the tree is cut into its tokens, and what stands behind it
after them. -/
def Cuts (e : Expr) : Prop :=
  ∀ (position : Nat) (rest : List Char), Boundary rest →
    scan (e.chars ++ rest) position =
      (scan rest (position + e.chars.length)).map (e.tokens position ++ ·)

/-- A tree in parentheses needs no boundary behind it. -/
theorem Cuts.group {e : Expr} (h : Cuts e) (position : Nat) (rest : List Char) :
    scan ('(' :: (e.chars ++ ')' :: rest)) position =
      (scan rest (position + 1 + e.chars.length + 1)).map ((brackets e).tokens position ++ ·) := by
  rw [scan_open, h _ _ (boundary_cons (by decide) _), scan_close]
  cases scan rest _ <;> simp [Except.map, tokens]

theorem Cuts.brackets {e : Expr} (h : Cuts e) : Cuts (brackets e) := by
  intro position rest _
  have hnext : position + (Expr.brackets e).chars.length = position + 1 + e.chars.length + 1 := by
    simp [chars]
    omega
  rw [hnext, ← h.group]
  simp [chars]

theorem Cuts.negate {e : Expr} (h : Cuts e) : Cuts (negate e) := by
  intro position rest _
  have hnext : position + (Expr.negate e).chars.length =
      position + 1 + 1 + e.chars.length + 1 := by
    simp [chars]
    omega
  rw [hnext]
  simp only [chars, List.append_assoc, List.cons_append, List.nil_append]
  rw [scan_minus, h.group]
  cases scan rest _ <;> rfl

theorem Cuts.call {name : String} {e : Expr} (hname : IsFunctionName name) (h : Cuts e) :
    Cuts (call name e) := by
  intro position rest _
  have hnext : position + (Expr.call name e).chars.length =
      position + name.toList.length + 1 + e.chars.length + 1 := by
    simp [chars]
    omega
  rw [hnext]
  simp only [chars, List.append_assoc, List.cons_append, List.nil_append]
  rw [scan_function hname (boundary_cons (by decide) _), h.group]
  cases scan rest _ <;> rfl

theorem Cuts.call2 {name : String} {l r : Expr} (hname : IsFunctionName name) (hl : Cuts l)
    (hr : Cuts r) : Cuts (call2 name l r false) := by
  intro position rest _
  have hnext : position + (Expr.call2 name l r false).chars.length =
      position + name.toList.length + 1 + l.chars.length + 1 + 1 + r.chars.length + 1 := by
    simp [chars]
    omega
  rw [hnext]
  simp only [chars, List.append_assoc, List.cons_append, List.nil_append]
  rw [scan_function hname (boundary_cons (by decide) _), scan_open,
    hl _ _ (boundary_cons (by decide) _), scan_comma, scan_space,
    hr _ _ (boundary_cons (by decide) _), scan_close]
  cases scan rest _ <;> simp [Except.map, tokens]

/-- Two trees with a joint between them, which is cut as one token. -/
theorem scan_joined {l r : Expr} (hl : Cuts l) (hr : Cuts r) {kind : TokenKind} {text : String}
    (hk : kind.Admits text)
    (hjoint : ∀ rest position, scan (text.toList ++ ' ' :: rest) position =
      (scan (' ' :: rest) (position + text.toList.length)).map (⟨kind, text, position, hk⟩ :: ·))
    (position : Nat) {rest : List Char} (hrest : Boundary rest) :
    scan (l.chars ++ ' ' :: (text.toList ++ ' ' :: (r.chars ++ rest))) position =
      (scan rest (position + l.chars.length + 1 + text.toList.length + 1 + r.chars.length)).map
        (l.tokens position ++ ⟨kind, text, position + l.chars.length + 1, hk⟩ ::
          r.tokens (position + l.chars.length + 1 + text.toList.length + 1) ++ ·) := by
  rw [hl _ _ (boundary_cons (by decide) _), scan_space, hjoint, scan_space, hr _ _ hrest]
  cases scan rest _ <;> simp [Except.map]

theorem Cuts.binary {l r : Expr} {o : Operator} (ho : o ∈ Operator.known) (hl : Cuts l)
    (hr : Cuts r) : Cuts (binary l o r) := by
  intro position rest hrest
  have hnext : position + (Expr.binary l o r).chars.length =
      position + l.chars.length + 1 + o.symbol.toList.length + 1 + r.chars.length := by
    simp [chars]
    omega
  rw [hnext]
  simp only [chars, List.append_assoc, List.cons_append]
  exact scan_joined hl hr _ (fun _ => scan_operator ho _) position hrest

theorem Cuts.infixed {name : String} {l r : Expr} (hname : IsFunctionName name) (hl : Cuts l)
    (hr : Cuts r) : Cuts (Expr.call2 name l r true) := by
  intro position rest hrest
  have hnext : position + (Expr.call2 name l r true).chars.length =
      position + l.chars.length + 1 + name.toList.length + 1 + r.chars.length := by
    simp [chars]
    omega
  rw [hnext]
  simp only [chars, List.append_assoc, List.cons_append]
  exact scan_joined hl hr _
    (fun _ => scan_function hname (boundary_cons (by decide) _)) position hrest

/-- The text of every printable tree is cut into the tokens of the tree. -/
theorem cuts {e : Expr} (h : e.Printable) : Cuts e := by
  induction e with
  | number v =>
    intro position rest hr
    obtain ⟨n, hn, hchars, -⟩ := Style.chars_numeral h.1 h.2
    have htext : (Style.formula.text v).toList = (number v).chars := String.toList_ofList
    have hscan := Token.scan_numeral hn (hchars.trans htext.symm)
      (Style.readable_text v) hr position
    rw [htext] at hscan
    exact hscan
  | var name =>
    intro position rest hr
    exact Token.scan_name (isName_of_mem_variableNames h) ((ofWord_eq_var_iff name).mpr h) hr
      position
  | binary l o r ihl ihr => exact .binary h.2.1 (ihl h.1) (ihr h.2.2)
  | negate e ih => exact .negate (ih h)
  | brackets e ih => exact .brackets (ih h)
  | call name e ih => exact .call h.1 (ih h.2)
  | call2 name l r infixed ihl ihr =>
    cases infixed with
    | true => exact .infixed h.1 (ihl h.2.1) (ihr h.2.2)
    | false => exact .call2 h.1 (ihl h.2.1) (ihr h.2.2)
  | foreign => exact h.elim

end Expr

namespace Equation

/-- The tokens of the text of an equation. -/
def tokensOfSides (lhs rhs : Expr) : List Token :=
  lhs.tokens 0 ++ ⟨.equals, "=", lhs.chars.length + 1, trivial⟩ ::
    rhs.tokens (lhs.chars.length + 1 + 1 + 1)

theorem tokenize_textOfSides {lhs rhs : Expr} (hl : lhs.Printable) (hr : rhs.Printable) :
    Token.tokenize (textOfSides lhs rhs) = .ok (tokensOfSides lhs rhs) := by
  have hequals (rest : List Char) (position : Nat) : Token.scan ('=' :: rest) position =
      (Token.scan rest (position + 1)).map (⟨.equals, "=", position, trivial⟩ :: ·) :=
    Token.scan_mark rfl rest position
  have hend : Token.Boundary [] := by simp [Token.Boundary]
  have hscan := Expr.cuts hr (lhs.chars.length + 1 + 1 + 1) [] hend
  rw [List.append_nil, Token.scan_nil] at hscan
  rw [Token.tokenize_eq_ok, textOfSides, String.toList_ofList,
    Expr.cuts hl 0 _ (Expr.boundary_cons (by decide) _), Nat.zero_add, Expr.scan_space,
    hequals, Expr.scan_space, hscan]
  simp [Except.map, tokensOfSides]

/-- What the text of an equation is read as, the grammar tells from the tokens of its sides. -/
theorem parse_textOfSides {lhs rhs : Expr} (hl : lhs.Printable) (hr : rhs.Printable)
    (e : Equation) :
    parse (textOfSides lhs rhs) = .ok e ↔ Grammar.DerivesEquation (tokensOfSides lhs rhs) e := by
  simp [parse_eq_ok, tokenize_textOfSides hl hr]

theorem checkedText_ofSides {lhs rhs : Expr} (hl : lhs.hasForeign = false)
    (hr : rhs.hasForeign = false) : (ofSides lhs rhs).checkedText = .ok (textOfSides lhs rhs) := by
  have hforeign : (ofSides lhs rhs).hasForeign = false := by
    simp [hasForeign, ofSides, hl, hr]
  show (ofSides lhs rhs).guarded .serialize (textOfSides lhs rhs) = _
  rw [guarded, hforeign]
  rfl

end Equation
end Isotherm
