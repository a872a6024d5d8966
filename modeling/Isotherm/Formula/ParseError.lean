import Isotherm.Formula.Token
import Isotherm.Text.Quoted

/-!
# Errors of malformed formulas

Why a text is no equation, where the reader noticed, and the message that says so. Columns count
characters from one.
-/

namespace Isotherm

/-- Why a text is no equation. A token that was found instead is part of the cause; without one the
formula ended too early. -/
inductive ParseFault where
  | unexpectedCharacter (character : Char) (position : Nat)
  | empty
  | expected (wanted : String) (found : Option Token)
  | unexpectedToken (found : Token)
  | unexpectedEnd
  /-- A function name without the parenthesis that must follow it. -/
  | uncalled (name : Token) (found : Option Token)
deriving DecidableEq, Repr

namespace ParseFault

def describe (t : Token) : String :=
  t.kind.name ++ " '" ++ t.text ++ "'"

def detail : ParseFault → String
  | unexpectedCharacter c _ => "unexpected character " ++ Text.quoted (String.singleton c)
  | empty => "empty formula"
  | expected wanted (some found) => "expected " ++ wanted ++ " but got " ++ describe found
  | expected wanted none => "expected " ++ wanted ++ " but reached end of input"
  | unexpectedToken found => "unexpected token " ++ describe found
  | unexpectedEnd => "unexpected end of input"
  | uncalled name _ => "function " ++ name.text ++ " must be followed by '('"

/-- The number of characters before the fault, in a formula of `size` characters. -/
def position (size : Nat) : ParseFault → Nat
  | unexpectedCharacter _ position => position
  | empty | unexpectedEnd => size
  | expected _ found => (found.map Token.position).getD size
  | unexpectedToken found => found.position
  | uncalled name found => (found.getD name).position

end ParseFault

structure ParseError where
  source : String
  fault : ParseFault
deriving DecidableEq, Repr

namespace ParseError

def position (e : ParseError) : Nat :=
  e.fault.position e.source.length

def message (e : ParseError) : String :=
  "Invalid formula " ++ Text.quoted e.source ++ ": " ++ e.fault.detail
    ++ " at column " ++ toString (e.position + 1)

end ParseError
end Isotherm
