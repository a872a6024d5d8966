import Isotherm.Formula.Printer
import Isotherm.Formula.Simplify

/-!
# Chains of operands

Between parentheses a tree is a chain: operands with links between them, nested in any way.
`leftNested` nests every chain of a tree to the left, which makes two trees equal exactly where they
have the same operands and links in the same order. Text does not show how a chain is nested, and
simplifying does not look at it.
-/

namespace Isotherm

/-- What stands between two operands of a chain: an operator, or the name of a function. -/
inductive Link where
  | operator (o : Operator)
  | name (n : String)

namespace Link

def join : Link → Expr → Expr → Expr
  | operator o, l, r => .binary l o r
  | name n, l, r => .call2 n l r true

def chars : Link → List Char
  | operator o => o.symbol.toList
  | name n => n.toList

theorem isCompound_join (t : Link) (l r : Expr) : (t.join l r).isCompound = true := by
  cases t <;> rfl

theorem chars_join (t : Link) (l r : Expr) :
    (t.join l r).chars = l.chars ++ ' ' :: (t.chars ++ ' ' :: r.chars) := by
  cases t <;> rfl

theorem simplify_join (t : Link) (grouped : Bool) (l r : Expr) :
    (t.join l r).simplify grouped = t.join (l.simplify true) (r.simplify true) := by
  cases t <;> simp only [join, Expr.simplify]

end Link

namespace Expr

/-- The chain `l` with the chain `r` behind it; `r` is taken apart where it nests to the left. -/
def attach (t : Link) (l : Expr) : Expr → Expr
  | binary a o b => binary (attach t l a) o b
  | call2 n a b true => call2 n (attach t l a) b true
  | r => t.join l r

/-- The tree with every chain nested to the left. -/
def leftNested : Expr → Expr
  | binary l o r => attach (.operator o) l.leftNested r.leftNested
  | call2 n l r true => attach (.name n) l.leftNested r.leftNested
  | call2 n l r false => call2 n l.leftNested r.leftNested false
  | negate e => negate e.leftNested
  | brackets e => brackets e.leftNested
  | call n e => call n e.leftNested
  | e => e

/-- Induction along the left side of a chain, down to its first operand. -/
theorem chain_induction {motive : Expr → Prop}
    (operand : ∀ e, e.isCompound = false → motive e)
    (join : ∀ (t : Link) l r, motive l → motive (t.join l r)) (e : Expr) : motive e := by
  induction e with
  | binary l o r ih => exact join (.operator o) l r ih
  | call2 n l r infixed ih =>
    cases infixed with
    | true => exact join (.name n) l r ih
    | false => exact operand _ rfl
  | number | var | negate | brackets | call | foreign => exact operand _ rfl

theorem attach_join (t s : Link) (l a b : Expr) :
    attach t l (s.join a b) = s.join (attach t l a) b := by
  cases s <;> rfl

theorem attach_operand (t : Link) (l : Expr) {r : Expr} (h : r.isCompound = false) :
    attach t l r = t.join l r := by
  cases r with
  | binary => cases h
  | call2 n a b infixed =>
    cases infixed with
    | true => cases h
    | false => rfl
  | number | var | negate | brackets | call | foreign => rfl

theorem isCompound_attach (t : Link) (l r : Expr) : (attach t l r).isCompound = true := by
  induction r using chain_induction with
  | operand r h => rw [attach_operand t l h, t.isCompound_join]
  | join s a b => rw [attach_join, s.isCompound_join]

/-- Chains are put behind one another in any order. -/
theorem attach_attach (t s : Link) (a b c : Expr) :
    attach t a (attach s b c) = attach s (attach t a b) c := by
  induction c using chain_induction with
  | operand c h => rw [attach_operand s _ h, attach_operand s _ h, attach_join]
  | join u c d ih => rw [attach_join, attach_join, attach_join, ih]

theorem leftNested_join (t : Link) (l r : Expr) :
    (t.join l r).leftNested = attach t l.leftNested r.leftNested := by
  cases t <;> rfl

/-- What is put behind a chain may be nested anew. -/
theorem leftNested_join_join (t s : Link) (a b c : Expr) :
    (t.join a (s.join b c)).leftNested = (s.join (t.join a b) c).leftNested := by
  simp only [leftNested_join, attach_attach]

theorem isCompound_leftNested (e : Expr) : e.leftNested.isCompound = e.isCompound := by
  induction e using chain_induction with
  | operand e h =>
    cases e with
    | binary => cases h
    | call2 n a b infixed =>
      cases infixed with
      | true => cases h
      | false => rfl
    | number | var | negate | brackets | call | foreign => rfl
  | join t l r => rw [leftNested_join, isCompound_attach, t.isCompound_join]

/-! ## Text -/

theorem chars_attach (t : Link) (l r : Expr) :
    (attach t l r).chars = l.chars ++ ' ' :: (t.chars ++ ' ' :: r.chars) := by
  induction r using chain_induction with
  | operand r h => rw [attach_operand t l h, t.chars_join]
  | join s a b ih => simp [attach_join, s.chars_join, ih]

/-- Text does not show how chains are nested. -/
theorem chars_leftNested (e : Expr) : e.leftNested.chars = e.chars := by
  induction e with
  | binary l o r ihl ihr => rw [leftNested, chars_attach, ihl, ihr]; rfl
  | call2 n l r infixed ihl ihr =>
    cases infixed with
    | true => rw [leftNested, chars_attach, ihl, ihr]; rfl
    | false => simp only [leftNested, chars, ihl, ihr]
  | negate e ih | brackets e ih | call n e ih => simp only [leftNested, chars, ih]
  | number | var | foreign => rfl

theorem chars_eq_of_leftNested {e e' : Expr} (h : e.leftNested = e'.leftNested) :
    e.chars = e'.chars := by
  rw [← chars_leftNested, h, chars_leftNested]

end Expr
end Isotherm
