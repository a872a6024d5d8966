import Isotherm.Formula.Expr
import Isotherm.Number.Style

/-!
# The text of formulas

The one canonical text of a tree: single blanks around operators, equals sign and infixed names, a
comma and a blank between arguments, and no brackets but those of the tree, of calls and of
negations.
-/

namespace Isotherm

namespace Expr

/-- The characters of an expression; a foreign node has none. -/
def chars : Expr → List Char
  | number v => Style.formula.chars v
  | var name => name.toList
  | binary l o r => l.chars ++ ' ' :: (o.symbol.toList ++ ' ' :: r.chars)
  | negate e => '-' :: '(' :: (e.chars ++ [')'])
  | brackets e => '(' :: (e.chars ++ [')'])
  | call name e => name.toList ++ '(' :: (e.chars ++ [')'])
  | call2 name l r true => l.chars ++ ' ' :: (name.toList ++ ' ' :: r.chars)
  | call2 name l r false => name.toList ++ '(' :: (l.chars ++ ',' :: ' ' :: (r.chars ++ [')']))
  | foreign => []

def text (e : Expr) : String :=
  String.ofList e.chars

end Expr

namespace Equation

def textOfSides (lhs rhs : Expr) : String :=
  String.ofList (lhs.chars ++ ' ' :: '=' :: ' ' :: rhs.chars)

end Equation
end Isotherm
