import Isotherm.Formula.Expr
import Isotherm.Formula.ParseError

/-!
# Reading expressions and equations

The grammar, loosest binding first:

    equation       := expression '=' expression
    expression     := additive (IDENT additive)*
    additive       := multiplicative (('+' | '-') multiplicative)*
    multiplicative := power (('*' | '/' | '%') power)*
    power          := unary ('^' power)?
    unary          := '-' unary | primary
    primary        := NUMBER | VAR | '(' expression ')'
                    | IDENT '(' expression [',' expression] ')'

The first three are chains that nest to the left; a power nests to the right. A minus in front of a
parenthesised group owns its parentheses. Every reader takes tokens off the front and says what it
left, also where it failed; a success takes at least one.
-/

namespace Isotherm

/-- The outcome of reading from `n` tokens: a value or a fault, and the tokens that are left. -/
inductive Reading (α : Type) (n : Nat) where
  | read (value : α) (rest : List Token) (shorter : rest.length < n)
  | stuck (fault : ParseFault) (rest : List Token) (within : rest.length ≤ n)

namespace Reading

def weaken {α : Type} {n m : Nat} (h : n ≤ m) : Reading α n → Reading α m
  | read value rest shorter => read value rest (Nat.lt_of_lt_of_le shorter h)
  | stuck fault rest within => stuck fault rest (Nat.le_trans within h)

/-- The same outcome, seen from more tokens that were left after a success. -/
def within {α : Type} {n m : Nat} (h : n < m) (r : Reading α n) : Reading α m :=
  r.weaken (Nat.le_of_lt h)

def andThen {α β : Type} {n : Nat} (r : Reading α n)
    (next : α → (rest : List Token) → rest.length < n → Reading β n) : Reading β n :=
  match r with
  | read value rest shorter => next value rest shorter
  | stuck fault rest within => stuck fault rest within

def rest {α : Type} {n : Nat} : Reading α n → List Token
  | read _ rest _ | stuck _ rest _ => rest

end Reading

namespace Grammar

/-- The chains: operands joined by infixed names, by sums, by products. -/
inductive Chain where
  | infixed | additive | multiplicative
deriving DecidableEq, Repr

inductive Level where
  | chain (c : Chain) | power | unary | primary
deriving DecidableEq, Repr

/-- A whole expression. -/
def expression : Level := .chain .infixed

def Chain.operand : Chain → Level
  | infixed => .chain .additive
  | additive => .chain .multiplicative
  | multiplicative => .power

/-- Levels in the order in which each is read through the next. -/
def Level.rank : Level → Nat
  | chain .infixed => 6
  | chain .additive => 5
  | chain .multiplicative => 4
  | power => 3
  | unary => 2
  | primary => 1

def Chain.joint? : Chain → Token → Option (Expr → Expr → Expr)
  | infixed, ⟨.identifier, name, _, _⟩ => some fun l r => .call2 name l r true
  | additive, ⟨.plus, _, _, _⟩ => some fun l r => .binary l .add r
  | additive, ⟨.minus, _, _, _⟩ => some fun l r => .binary l .subtract r
  | multiplicative, ⟨.multiply, _, _, _⟩ => some fun l r => .binary l .multiply r
  | multiplicative, ⟨.divide, _, _, _⟩ => some fun l r => .binary l .divide r
  | multiplicative, ⟨.modulus, _, _, _⟩ => some fun l r => .binary l .remainder r
  | _, _ => none

theorem Chain.rank_operand_lt (c : Chain) : c.operand.rank < (Level.chain c).rank := by
  cases c <;> decide

/-- The negation of an operand; one layer of brackets is the negation's own. -/
def negation : Expr → Expr
  | .brackets e => .negate e
  | e => .negate e

def expect (kind : TokenKind) (ts : List Token) : Reading Token ts.length :=
  match ts with
  | [] => .stuck (.expected kind.name none) [] (Nat.le_refl _)
  | t :: rest =>
    if t.kind = kind then .read t rest (by simp)
    else .stuck (.expected kind.name (some t)) (t :: rest) (Nat.le_refl _)

mutual

def read (level : Level) (ts : List Token) : Reading Expr ts.length :=
  match level with
  | .chain c =>
    have := c.rank_operand_lt
    (read c.operand ts).andThen fun left rest shorter =>
      (extend c left rest).weaken shorter
  | .power =>
    (read .unary ts).andThen fun left rest shorter =>
      match rest with
      | ⟨.power, _, _, _⟩ :: after =>
        have bound : after.length + 1 < ts.length := shorter
        ((read .power after).andThen fun right rest' shorter' =>
          .read (.binary left .power right) rest' shorter').weaken (by omega)
      | rest => .read left rest shorter
  | .unary =>
    match ts with
    | ⟨.minus, _, _, _⟩ :: after =>
      ((read .unary after).andThen fun operand rest shorter =>
        .read (negation operand) rest shorter).weaken (by simp)
    | ts => read .primary ts
  | .primary =>
    match ts with
    | [] => .stuck .unexpectedEnd [] (Nat.le_refl _)
    | ⟨.number, text, _, admitted⟩ :: rest =>
      .read (.number ((Numeral.real? text).get admitted.isSome)) rest (by simp)
    | ⟨.var, name, _, _⟩ :: rest => .read (.var name) rest (by simp)
    | ⟨.identifier, name, position, _⟩ :: ⟨.leftParenthesis, _, _, _⟩ :: rest =>
      (arguments name rest).weaken (Nat.le_add_right _ 2)
    | ⟨.identifier, name, position, admitted⟩ :: rest =>
      .stuck (.uncalled ⟨.identifier, name, position, admitted⟩ rest.head?) rest
        (Nat.le_succ _)
    | ⟨.leftParenthesis, _, _, _⟩ :: after =>
      ((read expression after).andThen fun inner rest shorter =>
        ((expect .rightParenthesis rest).andThen fun _ rest' shorter' =>
          .read (.brackets inner) rest' shorter').weaken (Nat.le_of_lt shorter)).weaken (by simp)
    | t :: rest => .stuck (.unexpectedToken t) (t :: rest) (Nat.le_refl _)
termination_by (ts.length, level.rank)
decreasing_by all_goals (rw [Prod.lex_def]; grind [Level.rank, expression])

/-- Reads on in a chain whose operands so far make up `left`. -/
def extend (c : Chain) (left : Expr) (ts : List Token) : Reading Expr (ts.length + 1) :=
  match ts with
  | [] => .read left [] (by simp)
  | t :: after =>
    match c.joint? t with
    | none => .read left (t :: after) (by simp)
    | some join =>
      ((read c.operand after).andThen fun right rest shorter =>
        (extend c (join left right) rest).weaken shorter).weaken (by simp; omega)
termination_by (ts.length, 0)
decreasing_by all_goals (rw [Prod.lex_def]; grind)

/-- Reads the arguments of the function `name` behind the opening parenthesis. -/
def arguments (name : String) (ts : List Token) : Reading Expr ts.length :=
  (read expression ts).andThen fun first rest shorter =>
    match rest with
    | ⟨.comma, _, _, _⟩ :: after =>
      have bound : after.length + 1 < ts.length := shorter
      ((read expression after).andThen fun second rest' shorter' =>
        ((expect .rightParenthesis rest').andThen fun _ rest'' shorter'' =>
          .read (.call2 name first second false) rest'' shorter'').weaken
            (Nat.le_of_lt shorter')).weaken (by omega)
    | rest =>
      ((expect .rightParenthesis rest).andThen fun _ rest' shorter' =>
        .read (.call name first) rest' shorter').weaken (Nat.le_of_lt shorter)
termination_by (ts.length, 7)
decreasing_by all_goals (rw [Prod.lex_def]; grind [Level.rank, expression])

end

end Grammar
end Isotherm
