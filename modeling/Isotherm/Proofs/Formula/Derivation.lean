import Isotherm.Formula.Reader

/-!
# The grammar as a relation

`Grammar.Derives` says which lists of tokens each level of the grammar derives, and the tree of each
derivation. It does not say how to read: a chain is any phrase of its level, a joint and an operand,
and no rule looks at the tokens behind a phrase.
-/

namespace Isotherm
namespace Grammar

/-- The tokens that join the operands of each chain, and the node they build. -/
inductive Joins : Chain → Token → (Expr → Expr → Expr) → Prop where
  | infixed {t : Token} (h : t.kind = .identifier) :
      Joins .infixed t fun l r => .call2 t.text l r true
  | plus {t : Token} (h : t.kind = .plus) : Joins .additive t fun l r => .binary l .add r
  | minus {t : Token} (h : t.kind = .minus) : Joins .additive t fun l r => .binary l .subtract r
  | multiply {t : Token} (h : t.kind = .multiply) :
      Joins .multiplicative t fun l r => .binary l .multiply r
  | divide {t : Token} (h : t.kind = .divide) :
      Joins .multiplicative t fun l r => .binary l .divide r
  | modulus {t : Token} (h : t.kind = .modulus) :
      Joins .multiplicative t fun l r => .binary l .remainder r

/-- `Derives level ts e`: the tokens `ts` are a phrase of the level, with the tree `e`. Chains nest
to the left, powers to the right, and a negation owns the parentheses right behind it. -/
inductive Derives : Level → List Token → Expr → Prop where
  | operand {c : Chain} {ts : List Token} {e : Expr} (h : Derives c.operand ts e) :
      Derives (.chain c) ts e
  | chain {c : Chain} {ls rs : List Token} {l r : Expr} {t : Token} {join : Expr → Expr → Expr}
      (hl : Derives (.chain c) ls l) (ht : Joins c t join) (hr : Derives c.operand rs r) :
      Derives (.chain c) (ls ++ t :: rs) (join l r)
  | base {ts : List Token} {e : Expr} (h : Derives .unary ts e) : Derives .power ts e
  | power {ls rs : List Token} {l r : Expr} {t : Token} (hl : Derives .unary ls l)
      (ht : t.kind = .power) (hr : Derives .power rs r) :
      Derives .power (ls ++ t :: rs) (.binary l .power r)
  | primary {ts : List Token} {e : Expr} (h : Derives .primary ts e) : Derives .unary ts e
  | negateGroup {t : Token} {ts : List Token} {e : Expr} (ht : t.kind = .minus)
      (h : Derives .unary ts (.brackets e)) : Derives .unary (t :: ts) (.negate e)
  | negate {t : Token} {ts : List Token} {e : Expr} (ht : t.kind = .minus)
      (h : Derives .unary ts e) (he : ∀ inner, e ≠ .brackets inner) :
      Derives .unary (t :: ts) (.negate e)
  | number {t : Token} {v : Float} (ht : t.number? = some v) : Derives .primary [t] (.number v)
  | var {t : Token} (ht : t.kind = .var) : Derives .primary [t] (.var t.text)
  | call {f o c : Token} {ts : List Token} {e : Expr} (hf : f.kind = .identifier)
      (ho : o.kind = .leftParenthesis) (h : Derives expression ts e)
      (hc : c.kind = .rightParenthesis) :
      Derives .primary (f :: o :: (ts ++ [c])) (.call f.text e)
  | call2 {f o m c : Token} {ts us : List Token} {l r : Expr} (hf : f.kind = .identifier)
      (ho : o.kind = .leftParenthesis) (hl : Derives expression ts l) (hm : m.kind = .comma)
      (hr : Derives expression us r) (hc : c.kind = .rightParenthesis) :
      Derives .primary (f :: o :: (ts ++ m :: (us ++ [c]))) (.call2 f.text l r false)
  | group {o c : Token} {ts : List Token} {e : Expr} (ho : o.kind = .leftParenthesis)
      (h : Derives expression ts e) (hc : c.kind = .rightParenthesis) :
      Derives .primary (o :: (ts ++ [c])) (.brackets e)

/-- Two expressions with an equals sign between them. -/
inductive DerivesEquation : List Token → Equation → Prop where
  | sides {ls rs : List Token} {l r : Expr} {t : Token} (hl : Derives expression ls l)
      (ht : t.kind = .equals) (hr : Derives expression rs r) :
      DerivesEquation (ls ++ t :: rs) (.ofSides l r)

theorem joint?_eq_some_iff (c : Chain) (t : Token) (join : Expr → Expr → Expr) :
    c.joint? t = some join ↔ Joins c t join := by
  constructor
  · intro h
    obtain ⟨kind, text, position⟩ := t
    cases c <;> cases kind <;> simp only [Chain.joint?, reduceCtorEq] at h <;> cases h
    all_goals constructor; rfl
  · rintro (h | h | h | h | h | h) <;> obtain ⟨kind, text, position⟩ := t <;> subst h <;> rfl

theorem Chain.operand_ne_primary (c : Chain) : c.operand ≠ .primary := by
  cases c <;> decide

theorem expression_ne_primary : expression ≠ .primary := by decide

/-- An operand is a phrase of every looser level. -/
theorem Derives.operand_of_unary {ts : List Token} {e : Expr} (h : Derives .unary ts e)
    (c : Chain) : Derives c.operand ts e := by
  cases c with
  | infixed => exact .operand (.operand (.base h))
  | additive => exact .operand (.base h)
  | multiplicative => exact .base h

theorem Derives.expression_of_unary {ts : List Token} {e : Expr} (h : Derives .unary ts e) :
    Derives expression ts e :=
  .operand (h.operand_of_unary .infixed)

theorem negation_of_ne {e : Expr} (he : ∀ inner, e ≠ .brackets inner) : negation e = .negate e := by
  unfold negation
  split
  · exact absurd rfl (he _)
  · rfl

/-- Both rules for a minus at once. -/
theorem Derives.negation {t : Token} {ts : List Token} {e : Expr} (ht : t.kind = .minus)
    (h : Derives .unary ts e) : Derives .unary (t :: ts) (negation e) := by
  by_cases he : ∃ inner, e = .brackets inner
  · obtain ⟨inner, rfl⟩ := he
    exact .negateGroup ht h
  · have hne : ∀ inner, e ≠ .brackets inner := fun inner hi => he ⟨inner, hi⟩
    rw [negation_of_ne hne]
    exact .negate ht h hne

end Grammar
end Isotherm
