import Isotherm.Proofs.Formula.SimplifiedText

/-!
# Nesting by precedence

A tree follows precedence where every operand of a chain binds tighter than the chain, but for the one
on the side to which the chain nests. The trees that do are those that can be read. Of all ways to
nest the operands and links of a text only one follows precedence, and that is how the text is read.
-/

namespace Isotherm

open Grammar

/-- The level at which an operator joins its operands. -/
def Operator.level : Operator → Level
  | add | subtract => .chain .additive
  | multiply | divide | remainder => .chain .multiplicative
  | power => .power
  | unknown _ => .chain .infixed

namespace Expr

/-- The tightest level at which the text of the tree can stand. -/
def level : Expr → Level
  | binary _ o _ => o.level
  | call2 _ _ _ true => .chain .infixed
  | _ => .unary

/-- Whether two trees can be the operands of a joint at a level. Powers nest to the right, everything
else to the left. -/
def nests (joint : Level) (l r : Expr) : Bool :=
  if joint = .power then l.level.rank < joint.rank && r.level.rank ≤ joint.rank
  else l.level.rank ≤ joint.rank && r.level.rank < joint.rank

/-- Whether the chains of the tree are nested the way they are read. -/
def followsPrecedence : Expr → Bool
  | number _ | var _ | foreign => true
  | negate e | brackets e | call _ e => e.followsPrecedence
  | binary l o r => nests o.level l r && (l.followsPrecedence && r.followsPrecedence)
  | call2 _ l r infixed =>
    (!infixed || nests (.chain .infixed) l r) && (l.followsPrecedence && r.followsPrecedence)

theorem nests_chain {c : Chain} {l r : Expr} : nests (.chain c) l r = true ↔
    l.level.rank ≤ (Level.chain c).rank ∧ r.level.rank < (Level.chain c).rank := by
  simp [nests]

theorem nests_power {l r : Expr} : nests .power l r = true ↔
    l.level.rank < Level.power.rank ∧ r.level.rank ≤ Level.power.rank := by
  simp [nests]

theorem followsPrecedence_binary {l r : Expr} {o : Operator} :
    (binary l o r).followsPrecedence = true ↔ nests o.level l r = true ∧
      l.followsPrecedence = true ∧ r.followsPrecedence = true := by
  simp only [followsPrecedence, Bool.and_eq_true]

theorem followsPrecedence_infixed {l r : Expr} {name : String} :
    (call2 name l r true).followsPrecedence = true ↔ nests (.chain .infixed) l r = true ∧
      l.followsPrecedence = true ∧ r.followsPrecedence = true := by
  simp [followsPrecedence]

theorem followsPrecedence_call2 {l r : Expr} {name : String} :
    (call2 name l r false).followsPrecedence = true ↔
      l.followsPrecedence = true ∧ r.followsPrecedence = true := by
  simp [followsPrecedence]

end Expr

namespace Grammar

open Isotherm.Expr

/-! ## What is read follows precedence -/

theorem rank_operand (c : Chain) : c.operand.rank + 1 = (Level.chain c).rank := by
  cases c <;> rfl

theorem unary_le_operand (c : Chain) : Level.unary.rank ≤ c.operand.rank := by
  cases c <;> decide

/-- A tree that was read follows precedence, and binds as tightly as the level asks for. -/
theorem Derives.followsPrecedence {level : Level} {ts : List Token} {e : Expr}
    (h : Derives level ts e) :
    e.followsPrecedence = true ∧ e.level.rank ≤ max level.rank Level.unary.rank := by
  induction h with
  | @operand c ts e _ ih =>
    have hrank := rank_operand c
    exact ⟨ih.1, by omega⟩
  | @chain c ls rs l r t join _ ht _ ihl ihr =>
    have hrank := rank_operand c
    have hunary := unary_le_operand c
    have hnests : nests (.chain c) l r = true := nests_chain.mpr (by omega)
    have hparts := And.intro ihl.1 ihr.1
    cases ht with
    | infixed => exact ⟨followsPrecedence_infixed.mpr ⟨hnests, hparts⟩, Nat.le_max_left _ _⟩
    | plus | minus | multiply | divide | modulus =>
      exact ⟨followsPrecedence_binary.mpr ⟨hnests, hparts⟩, Nat.le_max_left _ _⟩
  | base _ ih => exact ⟨ih.1, Nat.le_trans ih.2 (by decide)⟩
  | @power ls rs l r t _ _ _ ihl ihr =>
    have hrank : Level.unary.rank < Level.power.rank := by decide
    have hnests : nests .power l r = true := nests_power.mpr (by omega)
    exact ⟨followsPrecedence_binary.mpr ⟨hnests, ihl.1, ihr.1⟩, Nat.le_max_left _ _⟩
  | primary _ ih => exact ⟨ih.1, Nat.le_trans ih.2 (by decide)⟩
  | negateGroup _ _ ih => exact ⟨ih.1, Nat.le_max_right _ _⟩
  | negate _ _ _ ih | call _ _ _ _ ih | group _ _ _ ih => exact ⟨ih.1, Nat.le_max_right _ _⟩
  | number | var => exact ⟨rfl, Nat.le_max_right _ _⟩
  | call2 _ _ _ _ _ _ ihl ihr =>
    exact ⟨followsPrecedence_call2.mpr ⟨ihl.1, ihr.1⟩, Nat.le_max_right _ _⟩

/-! ## What follows precedence is read -/

/-- The level through which a level is read. -/
def Level.below : Level → Level
  | chain c => c.operand
  | power => unary
  | unary | primary => primary

theorem Level.Reads.of_below {level : Level} {e : Expr} (h : level.below.Reads e) :
    level.Reads e := by
  obtain ⟨ts, h⟩ := h
  cases level with
  | chain c => exact ⟨ts, .operand h⟩
  | power => exact ⟨ts, .base h⟩
  | unary => exact ⟨ts, .primary h⟩
  | primary => exact ⟨ts, h⟩

theorem Level.rank_injective {level level' : Level} (h : level.rank = level'.rank) :
    level = level' := by
  cases level with
  | chain c => cases c <;> cases level' with
    | chain c' => cases c' <;> first | rfl | cases h
    | power | unary | primary => cases h
  | power | unary | primary => cases level' with
    | chain c' => cases c' <;> cases h
    | power | unary | primary => first | rfl | cases h

theorem Level.rank_below {level : Level} (h : 1 < level.rank) :
    level.below.rank + 1 = level.rank := by
  cases level with
  | chain c => exact rank_operand c
  | power | unary => rfl
  | primary => exact absurd h (by decide)

theorem Level.rank_pos (level : Level) : 0 < level.rank := by
  cases level with
  | chain c => cases c <;> decide
  | power | unary | primary => decide

/-- What is read at a level is read at every looser one. -/
theorem Level.Reads.loosen {level level' : Level} {e : Expr} (h : level.Reads e)
    (hle : level.rank ≤ level'.rank) : level'.Reads e := by
  generalize hn : level'.rank = n at hle
  induction n generalizing level' with
  | zero => exact absurd level'.rank_pos (by omega)
  | succ n ih =>
    by_cases heq : level.rank = n + 1
    · obtain rfl := Level.rank_injective (heq.trans hn.symm)
      exact h
    · have hpos := level.rank_pos
      have hbelow := @Level.rank_below level' (by omega)
      exact (ih (by omega) (by omega)).of_below

theorem Level.Reads.expression {level : Level} {e : Expr} (h : level.Reads e) :
    Grammar.expression.Reads e := by
  refine h.loosen ?_
  cases level with
  | chain c => cases c <;> decide
  | power | unary | primary => decide

theorem Level.Reads.chain {c : Chain} {l r : Expr} {t : Token} {join : Expr → Expr → Expr}
    (ht : Joins c t join) (hl : l.level.Reads l) (hr : r.level.Reads r)
    (h : nests (.chain c) l r = true) : (Level.chain c).Reads (join l r) := by
  obtain ⟨hlrank, hrrank⟩ := nests_chain.mp h
  have hrank := rank_operand c
  obtain ⟨ls, hl⟩ := hl.loosen hlrank
  obtain ⟨rs, hr⟩ := hr.loosen (show r.level.rank ≤ c.operand.rank by omega)
  exact ⟨_, .chain hl ht hr⟩

/-- A tree that can be written and follows precedence is read at its level. -/
theorem reads_of_followsPrecedence {e : Expr} (he : e.Printable)
    (h : e.followsPrecedence = true) : e.level.Reads e := by
  induction e with
  | number v => exact ⟨_, .primary (derives_number he 0)⟩
  | var name => exact ⟨[⟨.var, name, 0, trivial⟩], .primary (.var rfl)⟩
  | negate e ih => exact (ih he h).expression.negate
  | brackets e ih => exact (ih he h).expression.brackets
  | call name e ih => exact (ih he.2 h).expression.call
  | binary l o r ihl ihr =>
    obtain ⟨hnests, hfl, hfr⟩ := followsPrecedence_binary.mp h
    have hl := ihl he.1 hfl
    have hr := ihr he.2.2 hfr
    cases o with
    | add => exact .chain (t := ⟨.plus, "+", 0, trivial⟩) (.plus rfl) hl hr hnests
    | subtract => exact .chain (t := ⟨.minus, "-", 0, trivial⟩) (.minus rfl) hl hr hnests
    | multiply => exact .chain (t := ⟨.multiply, "*", 0, trivial⟩) (.multiply rfl) hl hr hnests
    | divide => exact .chain (t := ⟨.divide, "/", 0, trivial⟩) (.divide rfl) hl hr hnests
    | remainder => exact .chain (t := ⟨.modulus, "%", 0, trivial⟩) (.modulus rfl) hl hr hnests
    | power =>
      obtain ⟨hlrank, hrrank⟩ := nests_power.mp hnests
      obtain ⟨ls, hl⟩ := hl.loosen (Nat.le_of_lt_succ hlrank : _ ≤ Level.unary.rank)
      obtain ⟨rs, hr⟩ := hr.loosen hrrank
      exact ⟨_, .power (t := ⟨.power, "^", 0, trivial⟩) hl rfl hr⟩
    | unknown symbol =>
      have hknown : Operator.unknown symbol ∉ Operator.known := by simp [Operator.known]
      exact absurd he.2.1 hknown
  | call2 name l r infixed ihl ihr =>
    cases infixed with
    | true =>
      obtain ⟨hnests, hfl, hfr⟩ := followsPrecedence_infixed.mp h
      exact .chain (t := ⟨.identifier, name, 0, trivial⟩) (.infixed rfl) (ihl he.2.1 hfl)
        (ihr he.2.2 hfr) hnests
    | false =>
      obtain ⟨hfl, hfr⟩ := followsPrecedence_call2.mp h
      exact (ihl he.2.1 hfl).expression.call2 (ihr he.2.2 hfr).expression
  | foreign => exact he.elim

theorem reads_iff_followsPrecedence {e : Expr} (he : e.Printable) :
    Grammar.expression.Reads e ↔ e.followsPrecedence = true := by
  constructor
  · intro ⟨ts, h⟩
    exact h.followsPrecedence.1
  · intro h
    exact (reads_of_followsPrecedence he h).expression

end Grammar

/-! ## Regrouping -/

/-- There is one way to nest the operands and links of a tree that follows precedence. -/
theorem Expr.eq_of_followsPrecedence {e e' : Expr} (he : e.Printable)
    (hnested : e'.leftNested = e.leftNested) (h : e.followsPrecedence = true)
    (h' : e'.followsPrecedence = true) : e' = e := by
  have he' : e'.Printable := printable_leftNested.mp (hnested ▸ printable_leftNested.mpr he)
  have hreads := (reads_iff_followsPrecedence he).mpr h
  have hreads' := (reads_iff_followsPrecedence he').mpr h'
  have htext : Equation.textOfSides e' e' = Equation.textOfSides e e := by
    rw [Equation.textOfSides, Equation.textOfSides, chars_eq_of_leftNested hnested]
  have hparse := Equation.parse_textOfSides_of_reads he he hreads hreads
  have hparse' := Equation.parse_textOfSides_of_reads he' he' hreads' hreads'
  rw [htext, hparse] at hparse'
  have hsides : Equation.ofSides e e = Equation.ofSides e' e' := Except.ok.inj hparse'
  exact (Option.some.inj (congrArg Equation.lhs hsides)).symm

namespace Equation

/-- The text of an equation is read as the equation with its chains nested by precedence. -/
theorem parse_text_regrouped {lhs rhs : Expr} (hl : lhs.Printable) (hr : rhs.Printable) :
    ∃ l r, parse (textOfSides lhs rhs) = .ok (ofSides l r) ∧
      textOfSides l r = textOfSides lhs rhs ∧ l.leftNested = lhs.leftNested ∧
      r.leftNested = rhs.leftNested ∧ l.followsPrecedence = true ∧ r.followsPrecedence = true := by
  obtain ⟨l, hdl, hnl⟩ := (flat_tokens hl 0).regroups
  obtain ⟨r, hdr, hnr⟩ := (flat_tokens hr (lhs.chars.length + 1 + 1 + 1)).regroups
  have htext : textOfSides l r = textOfSides lhs rhs := by
    rw [textOfSides, textOfSides, Expr.chars_eq_of_leftNested hnl, Expr.chars_eq_of_leftNested hnr]
  exact ⟨l, r, (parse_textOfSides hl hr _).mpr (.sides hdl rfl hdr), htext, hnl, hnr,
    hdl.followsPrecedence.1, hdr.followsPrecedence.1⟩

end Equation
end Isotherm
