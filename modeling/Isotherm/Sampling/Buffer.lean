/-!
# Nested lists of values

Values for a frame come as lists of lists. A regular nesting has a shape: the lengths from the
outermost list inward. Where the lists of one level differ, the shape ends and the nesting is
ragged.
-/

namespace Isotherm

inductive Buffer where
  | value (v : Float)
  | list (items : List Buffer)

namespace Buffer

/-- The lengths down to where the nesting ends or stops being regular. -/
structure Shape where
  lengths : List Nat
  ragged : Bool
deriving DecidableEq, Repr

def commonLengths : List Nat → List Nat → List Nat
  | a :: as, b :: bs => if a = b then a :: commonLengths as bs else []
  | _, _ => []

def Shape.meet (a b : Shape) : Shape :=
  let lengths := commonLengths a.lengths b.lengths
  ⟨lengths, a.ragged || b.ragged || a.lengths != lengths || b.lengths != lengths⟩

mutual

def shape : Buffer → Shape
  | value _ => ⟨[], false⟩
  | list [] => ⟨[0], false⟩
  | list (first :: rest) =>
    let inner := meetAll (shape first) rest
    ⟨(rest.length + 1) :: inner.lengths, inner.ragged⟩

def meetAll (found : Shape) : List Buffer → Shape
  | [] => found
  | item :: rest => meetAll (found.meet (shape item)) rest

end

/-- The value at an end of the nesting; zero where there is a list. -/
def leaf : Buffer → Float
  | value v => v
  | list _ => 0.0

/-- The items of a list; none of a value. -/
def items : Buffer → List Buffer
  | value _ => []
  | list items => items

def rows (b : Buffer) : Array (Array Float) :=
  (b.items.map fun row => (row.items.map leaf).toArray).toArray

/-- Lengths between parentheses, with a comma also behind a single one. -/
def lengthsText : List Nat → String
  | [] => "()"
  | [n] => "(" ++ toString n ++ ",)"
  | lengths => "(" ++ String.intercalate ", " (lengths.map toString) ++ ")"

end Buffer
end Isotherm
