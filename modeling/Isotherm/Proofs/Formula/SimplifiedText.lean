import Isotherm.Proofs.Formula.Regrouping

/-!
# Simplifying and text

Simplifying an equation and reading its text again can be done in either order. Two facts carry
this. Simplifying does not look at how a chain is nested, so the text of a simplified tree is also
that of the simplified tree that is read. And a tree that was read stays one that can be read: where
a negation gives up the parentheses around a chain, the chain either stood alone or gets brackets.
-/

namespace Isotherm

namespace Link

def Printable : Link → Prop
  | operator o => o ∈ Operator.known
  | name n => IsFunctionName n

theorem join_inj {link link' : Link} {l r l' r' : Expr} (h : link.join l r = link'.join l' r') :
    link = link' ∧ l = l' ∧ r = r' := by
  cases link <;> cases link' <;> cases h <;> exact ⟨rfl, rfl, rfl⟩

end Link

namespace Expr

/-! ## Simplifying chains -/

theorem simplify_attach (t : Link) (grouped : Bool) (l r : Expr) :
    (attach t l r).simplify grouped = attach t (l.simplify true) (r.simplify true) := by
  induction r using chain_induction generalizing grouped with
  | operand r h =>
    have hr : (r.simplify true).isCompound = false := by rw [isCompound_simplify, h]
    rw [attach_operand t l h, t.simplify_join, attach_operand t _ hr]
  | join s a b ih => rw [attach_join, s.simplify_join, s.simplify_join, attach_join, ih]

theorem leftNested_regroup (grouped : Bool) (e : Expr) :
    (regroup grouped e).leftNested = regroup grouped e.leftNested := by
  unfold regroup
  rw [isCompound_leftNested]
  split <;> rfl

/-- A chain is no negation, bare or in brackets. -/
theorem isNegation_of_isCompound {e : Expr} (h : e.isCompound = true) :
    e.isNegate = false ∧ e.isNegation = false := by
  cases e with
  | binary | call2 => exact ⟨rfl, rfl⟩
  | number | var | negate | brackets | call | foreign => cases h

theorem isNegate_leftNested (e : Expr) : e.leftNested.isNegate = e.isNegate := by
  cases e with
  | binary => exact (isNegation_of_isCompound (isCompound_attach ..)).1
  | call2 n l r infixed =>
    cases infixed with
    | true => exact (isNegation_of_isCompound (isCompound_attach ..)).1
    | false => rfl
  | number | var | negate | brackets | call | foreign => rfl

theorem isNegation_leftNested (e : Expr) : e.leftNested.isNegation = e.isNegation := by
  cases e with
  | binary => exact (isNegation_of_isCompound (isCompound_attach ..)).2
  | call2 n l r infixed =>
    cases infixed with
    | true => exact (isNegation_of_isCompound (isCompound_attach ..)).2
    | false => rfl
  | brackets e => exact isNegate_leftNested e
  | number | var | negate | call | foreign => rfl

/-- Simplifying does not look at how chains are nested. -/
theorem leftNested_simplify (grouped : Bool) (e : Expr) :
    (e.simplify grouped).leftNested = e.leftNested.simplify grouped := by
  fun_induction simplify grouped e with
  | case1 grouped v => simp only [leftNested, simplify]
  | case2 grouped name => simp only [leftNested, simplify]
  | case3 grouped e ih => simp only [leftNested_regroup, ih, leftNested, simplify]
  | case4 grouped e ih => simp only [leftNested_regroup, ih, leftNested, simplify]
  | case5 grouped e hnegate hbrackets ih =>
    have h : e.isNegation = false := isNegation_eq_false hnegate hbrackets
    rw [leftNested, ih, leftNested, simplify_negate ((isNegation_leftNested e).trans h)]
  | case6 grouped e ih => simp only [leftNested, simplify, ih]
  | case7 grouped l o r ihl ihr => simp only [leftNested, simplify_attach, ihl, ihr]
  | case8 grouped name e ih => simp only [leftNested, simplify, ih]
  | case9 grouped name l r infixed ihl ihr =>
    cases infixed with
    | true => simp only [leftNested, simplify_attach, ihl, ihr]
    | false => simp only [leftNested, simplify, ihl, ihr]
  | case10 grouped => simp only [leftNested, simplify]

theorem leftNested_simplify_congr {e e' : Expr} (h : e.leftNested = e'.leftNested)
    (grouped : Bool) : (e.simplify grouped).leftNested = (e'.simplify grouped).leftNested := by
  rw [leftNested_simplify, h, leftNested_simplify]

/-! ## Printable trees -/

theorem printable_join {t : Link} {l r : Expr} :
    (t.join l r).Printable ↔ t.Printable ∧ l.Printable ∧ r.Printable := by
  cases t with
  | operator o => exact and_left_comm
  | name n => exact Iff.rfl

theorem printable_attach {t : Link} {l r : Expr} :
    (attach t l r).Printable ↔ t.Printable ∧ l.Printable ∧ r.Printable := by
  induction r using chain_induction with
  | operand r h => rw [attach_operand t l h, printable_join]
  | join s a b ih =>
    rw [attach_join, printable_join, printable_join, ih]
    tauto

theorem printable_leftNested {e : Expr} : e.leftNested.Printable ↔ e.Printable := by
  induction e with
  | binary l o r ihl ihr =>
    rw [leftNested, printable_attach, ihl, ihr]
    exact printable_join.symm
  | call2 n l r infixed ihl ihr =>
    cases infixed with
    | true =>
      rw [leftNested, printable_attach, ihl, ihr]
      exact Iff.rfl
    | false =>
      simp only [leftNested, Printable, ihl, ihr]
  | negate e ih | brackets e ih => exact ih
  | call n e ih => exact and_congr_right fun _ => ih
  | number | var | foreign => exact Iff.rfl

end Expr

/-! ## What is read -/

namespace Grammar

open Isotherm.Expr

/-- Some tokens are read as the tree, at the level. -/
def Level.Reads (level : Level) (e : Expr) : Prop :=
  ∃ ts, Derives level ts e

namespace Level

/-- What is no chain is read as an operand. -/
theorem Reads.unary {level : Level} {e : Expr} (h : level.Reads e)
    (he : e.isCompound = false) : Level.unary.Reads e := by
  obtain ⟨ts, h⟩ := h
  induction h with
  | operand _ ih | base _ ih => exact ih he
  | chain _ ht => cases ht <;> cases he
  | power => cases he
  | primary h => exact ⟨_, .primary h⟩
  | negateGroup ht h => exact ⟨_, .negateGroup ht h⟩
  | negate ht h hne => exact ⟨_, .negate ht h hne⟩
  | number ht => exact ⟨_, .primary (.number ht)⟩
  | var ht => exact ⟨_, .primary (.var ht)⟩
  | call hf ho h hc => exact ⟨_, .primary (.call hf ho h hc)⟩
  | call2 hf ho hl hm hr hc => exact ⟨_, .primary (.call2 hf ho hl hm hr hc)⟩
  | group ho h hc => exact ⟨_, .primary (.group ho h hc)⟩

/-- An operand is read at every level of operands. -/
theorem Reads.of_unary {level : Level} {e : Expr} (h : Level.unary.Reads e)
    (hlevel : level ≠ .primary) : level.Reads e := by
  obtain ⟨ts, h⟩ := h
  cases level with
  | chain c => exact ⟨ts, .operand (h.operand_of_unary c)⟩
  | power => exact ⟨ts, .base h⟩
  | unary => exact ⟨ts, h⟩
  | primary => exact absurd rfl hlevel

theorem Reads.brackets {e : Expr} (h : Grammar.expression.Reads e) :
    Level.unary.Reads (brackets e) := by
  obtain ⟨ts, h⟩ := h
  exact ⟨_, .primary (.group (o := ⟨.leftParenthesis, "(", 0, trivial⟩)
    (c := ⟨.rightParenthesis, ")", 0, trivial⟩) rfl h rfl)⟩

theorem Reads.negate {e : Expr} (h : Grammar.expression.Reads e) :
    Level.unary.Reads (negate e) := by
  obtain ⟨ts, h⟩ := h.brackets
  exact ⟨_, .negateGroup (t := ⟨.minus, "-", 0, trivial⟩) rfl h⟩

theorem Reads.call {name : String} {e : Expr} (h : Grammar.expression.Reads e) :
    Level.unary.Reads (.call name e) := by
  obtain ⟨ts, h⟩ := h
  exact ⟨_, .primary (.call (f := ⟨.identifier, name, 0, trivial⟩)
    (o := ⟨.leftParenthesis, "(", 0, trivial⟩) (c := ⟨.rightParenthesis, ")", 0, trivial⟩) rfl rfl h rfl)⟩

theorem Reads.call2 {name : String} {l r : Expr} (hl : Grammar.expression.Reads l)
    (hr : Grammar.expression.Reads r) : Level.unary.Reads (.call2 name l r false) := by
  obtain ⟨ls, hl⟩ := hl
  obtain ⟨rs, hr⟩ := hr
  exact ⟨_, .primary (.call2 (f := ⟨.identifier, name, 0, trivial⟩)
    (o := ⟨.leftParenthesis, "(", 0, trivial⟩) (m := ⟨.comma, ",", 0, trivial⟩)
    (c := ⟨.rightParenthesis, ")", 0, trivial⟩) rfl rfl hl rfl hr rfl)⟩

/-- In brackets stands an expression. -/
theorem Reads.of_brackets {level : Level} {e : Expr} (h : level.Reads (.brackets e)) :
    Grammar.expression.Reads e := by
  obtain ⟨ts, h⟩ := h.unary rfl
  cases h with
  | primary h =>
    cases h with
    | group _ h => exact ⟨_, h⟩

/-- What is negated is an expression, with the parentheses that the negation owns taken off. -/
theorem Reads.of_negate {level : Level} {e : Expr} (h : level.Reads (.negate e)) :
    Grammar.expression.Reads e := by
  obtain ⟨ts, h⟩ := h.unary rfl
  cases h with
  | primary h => cases h
  | negateGroup _ h => exact Reads.of_brackets ⟨_, h⟩
  | negate _ h => exact ⟨_, h.expression_of_unary⟩

theorem Reads.of_call {level : Level} {name : String} {e : Expr}
    (h : level.Reads (.call name e)) : Grammar.expression.Reads e := by
  obtain ⟨ts, h⟩ := h.unary rfl
  cases h with
  | primary h =>
    cases h with
    | call _ _ h => exact ⟨_, h⟩

theorem Reads.of_call2 {level : Level} {name : String} {l r : Expr}
    (h : level.Reads (.call2 name l r false)) :
    Grammar.expression.Reads l ∧ Grammar.expression.Reads r := by
  obtain ⟨ts, h⟩ := h.unary rfl
  cases h with
  | primary h =>
    cases h with
    | call2 _ _ hl _ hr => exact ⟨⟨_, hl⟩, ⟨_, hr⟩⟩

end Level

/-- Other operands around a link are read, where they are read at all levels of the ones before. -/
theorem Derives.replace (link : Link) {level : Level} {ts : List Token} {l l' r r' : Expr}
    (h : Derives level ts (link.join l r))
    (hl : ∀ level : Level, level ≠ .primary → level.Reads l → level.Reads l')
    (hr : ∀ level : Level, level ≠ .primary → level.Reads r → level.Reads r') :
    level.Reads (link.join l' r') := by
  generalize he : link.join l r = e at h
  induction h with
  | operand _ ih =>
    obtain ⟨us, h⟩ := ih he
    exact ⟨us, .operand h⟩
  | @chain c _ _ _ _ t _ hdl ht hdr =>
    obtain ⟨link', -, rfl⟩ := ht.exists_link
    obtain ⟨rfl, rfl, rfl⟩ := Link.join_inj he
    obtain ⟨ls, hl⟩ := hl (.chain c) (by simp) ⟨_, hdl⟩
    obtain ⟨rs, hr⟩ := hr c.operand c.operand_ne_primary ⟨_, hdr⟩
    exact ⟨_, .chain hl ht hr⟩
  | base _ ih =>
    obtain ⟨us, h⟩ := ih he
    exact ⟨us, .base h⟩
  | power hdl ht hdr =>
    have hjoin : link.join l r = (Link.operator .power).join _ _ := he
    obtain ⟨rfl, rfl, rfl⟩ := Link.join_inj hjoin
    obtain ⟨ls, hl⟩ := hl .unary (by simp) ⟨_, hdl⟩
    obtain ⟨rs, hr⟩ := hr .power (by simp) ⟨_, hdr⟩
    exact ⟨_, .power hl ht hr⟩
  | primary _ ih =>
    obtain ⟨us, h⟩ := ih he
    exact ⟨us, .primary h⟩
  | negateGroup | negate | number | var | call | call2 | group => cases link <;> cases he

/-- As an operand of a chain, an expression stands in brackets where it is a chain itself. -/
theorem Level.Reads.regroup {level : Level} {e : Expr} {grouped : Bool}
    (h : Grammar.expression.Reads e) (hlevel : level ≠ .primary)
    (hgrouped : grouped = true ∨ level = Grammar.expression) :
    level.Reads (Expr.regroup grouped e) := by
  unfold Expr.regroup
  split
  · exact h.brackets.of_unary hlevel
  · rename_i hbare
    rcases hgrouped with rfl | rfl
    · have he : e.isCompound = false := by simpa using hbare
      exact (h.unary he).of_unary hlevel
    · exact h

/-- A tree that was read stays one when it is simplified, at every level of operands, and as an
expression also where it is no operand. -/
theorem Level.Reads.simplify {level : Level} {e : Expr} {grouped : Bool} (h : level.Reads e)
    (hlevel : level ≠ .primary) (hgrouped : grouped = true ∨ level = Grammar.expression) :
    level.Reads (e.simplify grouped) := by
  have hexpression : Grammar.expression ≠ .primary := by decide
  fun_induction Expr.simplify grouped e generalizing level with
  | case1 | case2 | case10 => exact h
  | case3 grouped e ih =>
    have he : Grammar.expression.Reads e := h.of_negate.of_negate
    exact (ih he hexpression (.inr rfl)).regroup hlevel hgrouped
  | case4 grouped e ih =>
    have he : Grammar.expression.Reads e := h.of_negate.of_brackets.of_negate
    exact (ih he hexpression (.inr rfl)).regroup hlevel hgrouped
  | case5 grouped e _ _ ih =>
    exact (ih h.of_negate hexpression (.inr rfl)).negate.of_unary hlevel
  | case6 grouped e ih =>
    exact (ih h.of_brackets hexpression (.inr rfl)).brackets.of_unary hlevel
  | case7 grouped l o r ihl ihr =>
    obtain ⟨ts, h⟩ := h
    exact h.replace (.operator o) (fun _ hne hl => ihl hl hne (.inl rfl))
      fun _ hne hr => ihr hr hne (.inl rfl)
  | case8 grouped name e ih =>
    exact (ih h.of_call hexpression (.inr rfl)).call.of_unary hlevel
  | case9 grouped name l r infixed ihl ihr =>
    cases infixed with
    | true =>
      obtain ⟨ts, h⟩ := h
      exact h.replace (.name name) (fun _ hne hl => ihl hl hne (.inl rfl))
        fun _ hne hr => ihr hr hne (.inl rfl)
    | false =>
      obtain ⟨hl, hr⟩ := h.of_call2
      exact ((ihl hl hexpression (.inr rfl)).call2 (ihr hr hexpression (.inr rfl))).of_unary hlevel

end Grammar

/-! ## Equations -/

namespace Equation

open Grammar

theorem checkedSimplify_ofSides {lhs rhs : Expr} (hl : lhs.Printable) (hr : rhs.Printable) :
    (ofSides lhs rhs).checkedSimplify =
      .ok (ofSides (lhs.simplify false) (rhs.simplify false)) := by
  have hforeign : (ofSides lhs rhs).hasForeign = false := by
    simp [hasForeign, ofSides, hl.hasForeign, hr.hasForeign]
  show (ofSides lhs rhs).guarded .simplify _ = _
  rw [guarded, hforeign]
  rfl

/-- The text of sides that some tokens are read as is read as these sides. -/
theorem parse_textOfSides_of_reads {lhs rhs : Expr} (hl : lhs.Printable) (hr : rhs.Printable)
    (hdl : expression.Reads lhs) (hdr : expression.Reads rhs) :
    parse (textOfSides lhs rhs) = .ok (ofSides lhs rhs) := by
  obtain ⟨ls, hdl⟩ := hdl
  obtain ⟨rs, hdr⟩ := hdr
  exact (parse_textOfSides hl hr _).mpr (.sides (hdl.tokens hl 0) rfl (hdr.tokens hr _))

theorem reads_of_parse {source : String} {lhs rhs : Expr}
    (h : parse source = .ok (ofSides lhs rhs)) : expression.Reads lhs ∧ expression.Reads rhs := by
  obtain ⟨ts, -, hd⟩ := (parse_eq_ok _ _).mp h
  cases hd with
  | sides hdl _ hdr => exact ⟨⟨_, hdl⟩, ⟨_, hdr⟩⟩

/-- The text of a simplified equation is read as what the equation's own text is read as, simplified.
Where the equation was read itself, that is the simplified equation. -/
theorem parse_text_of_simplified {lhs rhs : Expr} (hl : lhs.Printable) (hr : rhs.Printable) :
    ∃ simplified shown text read meant,
      (ofSides lhs rhs).checkedSimplify = .ok simplified ∧ simplified.checkedText = .ok shown ∧
      (ofSides lhs rhs).checkedText = .ok text ∧ parse text = .ok read ∧
      read.checkedSimplify = .ok meant ∧ parse shown = .ok meant ∧
      ∀ source, parse source = .ok (ofSides lhs rhs) → meant = simplified := by
  obtain ⟨l, hdl, hnl⟩ := (flat_tokens hl 0).regroups
  obtain ⟨r, hdr, hnr⟩ := (flat_tokens hr (lhs.chars.length + 1 + 1 + 1)).regroups
  have hpl : l.Printable := Expr.printable_leftNested.mp (hnl ▸ Expr.printable_leftNested.mpr hl)
  have hpr : r.Printable := Expr.printable_leftNested.mp (hnr ▸ Expr.printable_leftNested.mpr hr)
  have hread : parse (textOfSides lhs rhs) = .ok (ofSides l r) :=
    (parse_textOfSides hl hr _).mpr (.sides hdl rfl hdr)
  have hexpression : expression ≠ .primary := by decide
  have hsimplified {e : Expr} (h : expression.Reads e) : expression.Reads (e.simplify false) :=
    h.simplify hexpression (.inr rfl)
  -- The chains of the two simplified equations have the same operands and links.
  have htext : textOfSides (lhs.simplify false) (rhs.simplify false) =
      textOfSides (l.simplify false) (r.simplify false) := by
    have hcl := Expr.chars_eq_of_leftNested (Expr.leftNested_simplify_congr hnl.symm false)
    have hcr := Expr.chars_eq_of_leftNested (Expr.leftNested_simplify_congr hnr.symm false)
    rw [textOfSides, textOfSides, hcl, hcr]
  have hmeant : parse (textOfSides (lhs.simplify false) (rhs.simplify false)) =
      .ok (ofSides (l.simplify false) (r.simplify false)) := by
    rw [htext]
    exact parse_textOfSides_of_reads (hpl.simplify false) (hpr.simplify false)
      (hsimplified ⟨_, hdl⟩) (hsimplified ⟨_, hdr⟩)
  refine ⟨_, _, _, ofSides l r, _, checkedSimplify_ofSides hl hr,
    checkedText_ofSides (hl.simplify false).hasForeign (hr.simplify false).hasForeign,
    checkedText_ofSides hl.hasForeign hr.hasForeign, hread, checkedSimplify_ofSides hpl hpr,
    hmeant, fun source hsource => ?_⟩
  obtain ⟨hrl, hrr⟩ := reads_of_parse hsource
  have hsame := hread.symm.trans (parse_textOfSides_of_reads hl hr hrl hrr)
  obtain ⟨rfl, rfl⟩ : l = lhs ∧ r = rhs := by simpa [ofSides] using hsame
  rfl

/-- The negations around the sum cancel; what is left of their parentheses is brackets. -/
theorem parse_text_of_simplified_difference :
    let lhs : Expr := .binary (.number 1) .subtract
      (.negate (.brackets (.negate (.binary (.var "X") .add (.var "T")))))
    let rhs : Expr := .binary (.var "y") .power (.binary (.var "x") .multiply (.var "t"))
    (lhs.Printable ∧ rhs.Printable) ∧ ∃ simplified shown text read meant,
      (ofSides lhs rhs).checkedSimplify = .ok simplified ∧ simplified.checkedText = .ok shown ∧
      (ofSides lhs rhs).checkedText = .ok text ∧ parse text = .ok read ∧
      read.checkedSimplify = .ok meant ∧ parse shown = .ok meant ∧
      ∀ source, parse source = .ok (ofSides lhs rhs) → meant = simplified := by
  intro lhs rhs
  have hprintable : lhs.Printable ∧ rhs.Printable := by decide +kernel
  exact ⟨hprintable, parse_text_of_simplified hprintable.1 hprintable.2⟩

end Equation
end Isotherm
