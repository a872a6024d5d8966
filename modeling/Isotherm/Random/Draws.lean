import Isotherm.Random.Permuted

/-!
# Sources of draws

What a random construction needs is one number below a given bound after the other. A source may be
a generator of random numbers or a list of numbers that repeats; the construction cannot tell.
-/

namespace Isotherm

/-- A way to draw numbers below positive bounds from states of type `σ`. -/
structure DrawSource (σ : Type) where
  draw : (bound : Nat) → 0 < bound → σ → Fin bound × σ

namespace DrawSource

def permuted : DrawSource Permuted where
  draw bound positive g :=
    let (n, after) := g.below bound
    (⟨n % bound, Nat.mod_lt _ positive⟩, after)

/-- A list of numbers that repeats, and how many draws were made. -/
structure Listed where
  numbers : Array Nat
  made : Nat

def listed : DrawSource Listed where
  draw bound positive s :=
    (⟨s.numbers.getD (s.made % s.numbers.size) 0 % bound, Nat.mod_lt _ positive⟩,
      { s with made := s.made + 1 })

end DrawSource
end Isotherm
