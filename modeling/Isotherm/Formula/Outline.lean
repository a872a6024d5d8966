import Isotherm.Formula.Expr
import Isotherm.Number.Style

/-!
# Outlines of trees

A text that shows how a tree is built, node by node.
-/

namespace Isotherm

namespace Expr

def outline : Expr → String
  | number v => "Num(" ++ Style.report.text v ++ ")"
  | var name => "Var(" ++ name ++ ")"
  | binary l o r => "BinOp(" ++ l.outline ++ " " ++ o.symbol ++ " " ++ r.outline ++ ")"
  | negate e => "Neg(" ++ e.outline ++ ")"
  | brackets e => "Brackets(" ++ e.outline ++ ")"
  | call name e => "Call(" ++ name ++ ", " ++ e.outline ++ ")"
  | call2 name l r infixed =>
    "Call2(" ++ name ++ ", " ++ l.outline ++ ", " ++ r.outline ++ ", "
      ++ (if infixed then "infix" else "prefix") ++ ")"
  | foreign => "Foreign()"

end Expr

namespace Equation

def outline (e : Equation) : String :=
  let side (s : Option Expr) : String := (s.map Expr.outline).getD "None"
  "Equation(" ++ side e.lhs ++ " = " ++ side e.rhs ++ ")"

end Equation
end Isotherm
