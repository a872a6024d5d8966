import Isotherm.Random.SeedSequence

/-!
# A permuted congruential generator

A linear congruential generator of 128 bits whose outputs are its two halves combined and rotated by
its top bits. The 64 bits of an output serve two draws of 32, the low half first.
-/

namespace Isotherm

/-- The state of the generator, its odd increment, and the half of an output that is left over. -/
structure Permuted where
  state : Nat
  increment : Nat
  leftover : Option Nat

namespace Permuted

/-- The multiplier of the congruence. -/
def multiplier : Nat := 0x2360ed051fc65da44385df649fccf645

def advance (g : Permuted) : Permuted :=
  { g with state := (g.state * multiplier + g.increment) % twoTo 128 }

def rotate (word amount : Nat) : Nat :=
  (word >>> amount) ||| ((word <<< (64 - amount)) % twoTo 64)

def output (state : Nat) : Nat :=
  rotate ((state / twoTo 64) ^^^ (state % twoTo 64)) (state / twoTo 122)

def ofSeed (seed : Nat) : Permuted :=
  let words := SeedSequence.words64 seed 4
  let start := words.getD 0 0 * twoTo 64 + words.getD 1 0
  let stream := words.getD 2 0 * twoTo 64 + words.getD 3 0
  let g : Permuted := ⟨0, (2 * stream + 1) % twoTo 128, none⟩
  let g := g.advance
  { g with state := (g.state + start) % twoTo 128 }.advance

def next32 (g : Permuted) : Nat × Permuted :=
  match g.leftover with
  | some half => (half, { g with leftover := none })
  | none =>
    let g := g.advance
    let word := output g.state
    (word % twoTo 32, { g with leftover := some (word / twoTo 32) })

/-- The most draws that are thrown away in a row for the sake of evenness. -/
def mostRejections : Nat := 100

/-- A product of 32 random bits and the bound, drawn again while its low half falls short. -/
def product (bound : Nat) : Nat → Permuted → Nat × Permuted
  | 0, g => ((g.next32.1 * bound), g.next32.2)
  | fuel + 1, g =>
    let (bits, after) := g.next32
    if bits * bound % twoTo 32 < (twoTo 32 - bound) % bound then product bound fuel after
    else (bits * bound, after)

/-- A number below `bound`, all of them equally likely: the high half of the product. A bound of one
draws nothing. -/
def below (bound : Nat) (g : Permuted) : Nat × Permuted :=
  if bound ≤ 1 then (0, g)
  else
    let (p, after) := product bound mostRejections g
    (p / twoTo 32, after)

end Permuted
end Isotherm
