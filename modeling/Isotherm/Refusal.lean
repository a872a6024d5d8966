/-!
# Refusals

Some work is left to libraries: the making of arrays, the algebra of symbols, and the layout and the
writing of pictures. A library does what it is asked, or it refuses with an exception of its own.
-/

namespace Isotherm

/-- An exception of a library, by its class and its message. Nothing in the program handles it. -/
structure Refusal where
  kind : String
  message : String
deriving DecidableEq, Repr

namespace Refusal

variable {ε : Type} (wrap : Refusal → ε)

/-- Goes on unless a library refuses. -/
def guard : Option Refusal → Except ε Unit
  | some refusal => .error (wrap refusal)
  | none => .ok ()

@[simp] theorem guard_none : guard wrap none = .ok () := rfl

@[simp] theorem guard_some (refusal : Refusal) :
    guard wrap (some refusal) = .error (wrap refusal) := rfl

end Refusal
end Isotherm
