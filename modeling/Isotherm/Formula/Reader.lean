import Isotherm.Formula.Grammar

/-!
# Reading formulas

`Equation.parse` reads a whole text as one equation, and nothing may follow it. A `Cursor` reads the
same grammar piece by piece: it stands at a place in a list of tokens, and each reading moves it on,
also a reading that fails midway.
-/

namespace Isotherm
namespace Grammar

def equation (ts : List Token) : Reading Equation ts.length :=
  (read expression ts).andThen fun lhs rest shorter =>
    ((expect .equals rest).andThen fun _ rest' shorter' =>
      ((read expression rest').andThen fun rhs rest'' shorter'' =>
        match rest'' with
        | [] => .read (Equation.ofSides lhs rhs) [] (Nat.zero_lt_of_lt shorter'')
        | t :: after => .stuck (.unexpectedToken t) (t :: after) (Nat.le_of_lt shorter'')).within
          shorter').within shorter

end Grammar

namespace Token

def tokenize (source : String) : Except ParseError (List Token) :=
  match scan source.toList 0 with
  | .ok ts => .ok ts
  | .error (c, position) => .error ⟨source, .unexpectedCharacter c position⟩

end Token

structure Cursor where
  tokens : List Token
  position : Nat
  within : position ≤ tokens.length := by omega

namespace Cursor

def start (tokens : List Token) : Cursor :=
  ⟨tokens, 0, Nat.zero_le _⟩

def rest (c : Cursor) : List Token :=
  c.tokens.drop c.position

/-- The cursor in front of the last `left` tokens. -/
def before (c : Cursor) (left : Nat) : Cursor :=
  ⟨c.tokens, c.tokens.length - left, Nat.sub_le _ _⟩

/-- The token `offset` places from the cursor. A place in front of the first token counts from the
end of the list; one further back does not exist. -/
def peek? (c : Cursor) (offset : Int) : Option (Option Token) :=
  let place := c.position + offset
  if 0 ≤ place then some c.tokens[place.toNat]?
  else if -place ≤ c.tokens.length then some c.tokens[(c.tokens.length + place).toNat]?
  else none

def advance {α : Type} {n : Nat} (c : Cursor) : Reading α n → Except ParseFault α × Cursor
  | .read value rest _ => (.ok value, c.before rest.length)
  | .stuck fault rest _ => (.error fault, c.before rest.length)

/-- Takes the next token, if it is of one of the given kinds. -/
def accept? (c : Cursor) (kinds : List TokenKind) : Option Token × Cursor :=
  match c.rest with
  | t :: after => if kinds.contains t.kind then (some t, c.before after.length) else (none, c)
  | [] => (none, c)

/-- Takes the next token, which has to be of the kind named `label`. -/
def expect (c : Cursor) (label : String) : Except ParseFault Token × Cursor :=
  match c.accept? (TokenKind.ofName? label).toList with
  | (some t, after) => (.ok t, after)
  | (none, after) => (.error (.expected label c.rest.head?), after)

def read (c : Cursor) (level : Grammar.Level) : Except ParseFault Expr × Cursor :=
  c.advance (Grammar.read level c.rest)

def equation (c : Cursor) : Except ParseFault Equation × Cursor :=
  if c.tokens.isEmpty then (.error .empty, c)
  else c.advance (Grammar.equation c.rest)

end Cursor

namespace Equation

def parse (source : String) : Except ParseError Equation := do
  let tokens ← Token.tokenize source
  match (Cursor.start tokens).equation.1 with
  | .ok e => .ok e
  | .error fault => .error ⟨source, fault⟩

end Equation
end Isotherm
