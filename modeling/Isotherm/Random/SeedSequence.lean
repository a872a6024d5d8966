import Isotherm.Number.Power

/-!
# Seed sequences

A natural number of any size is stirred into a pool of four 32-bit words, from which as many words
as a generator needs are drawn. Every bit of the number reaches every word.
-/

namespace Isotherm.SeedSequence

/-- The 32-bit words of a number, the lowest first; zero has one. -/
def words (n : Nat) : List UInt32 :=
  if n < twoTo 32 then [n.toUInt32] else n.toUInt32 :: words (n / twoTo 32)
termination_by n
decreasing_by simp only [twoTo, Nat.reduceShiftLeft] at *; omega

/-- The message that refuses a seed below zero. -/
def negativeSeed : String := "expected non-negative integer"

/-- The words of the pool. -/
def poolSize : Nat := 4

def fold (v : UInt32) : UInt32 := v ^^^ (v >>> 16)

def hash (multiplier constant value : UInt32) : UInt32 × UInt32 :=
  (fold ((value ^^^ constant) * (constant * multiplier)), constant * multiplier)

/-- The first constant and the multiplier of the hashes that fill the pool. -/
def fillConstants : UInt32 × UInt32 := (0x43b0d7e5, 0x931e8875)

/-- The first constant and the multiplier of the hashes that draw on the pool. -/
def drawConstants : UInt32 × UInt32 := (0x8b51f9dd, 0x58f38ded)

def mix (x y : UInt32) : UInt32 :=
  fold (0xca01f9dd * x - 0x4973f715 * y)

/-- A pool that is being filled, with the next hash constant. -/
structure Filling where
  pool : Array UInt32
  constant : UInt32

namespace Filling

def append (f : Filling) (word : UInt32) : Filling :=
  let (hashed, constant) := hash fillConstants.2 f.constant word
  ⟨f.pool.push hashed, constant⟩

def mixInto (f : Filling) (word : UInt32) (place : Nat) : Filling :=
  let (hashed, constant) := hash fillConstants.2 f.constant word
  ⟨f.pool.modify place (mix · hashed), constant⟩

def crossMix (f : Filling) : Filling :=
  (List.range poolSize).foldl (fun f source =>
    (List.range poolSize).foldl (fun f target =>
      if source = target then f else f.mixInto (f.pool.getD source 0) target) f) f

def mixIntoAll (f : Filling) (word : UInt32) : Filling :=
  (List.range poolSize).foldl (fun f target => f.mixInto word target) f

end Filling

/-- The pool of a number. The words that do not fit it are mixed in at the end. -/
def pool (n : Nat) : Array UInt32 :=
  let entropy := words n
  let first := (List.range poolSize).map fun i => entropy.getD i 0
  let filled := (first.foldl Filling.append ⟨#[], fillConstants.1⟩).crossMix
  ((entropy.drop poolSize).foldl Filling.mixIntoAll filled).pool

/-- The first `count` words drawn on a pool, around and around. -/
def draw (pool : Array UInt32) (count : Nat) : List UInt32 :=
  let step (state : List UInt32 × UInt32) (i : Nat) : List UInt32 × UInt32 :=
    let (hashed, constant) := hash drawConstants.2 state.2 (pool.getD (i % poolSize) 0)
    (hashed :: state.1, constant)
  ((List.range count).foldl step ([], drawConstants.1)).1.reverse

def pairs : List UInt32 → List Nat
  | low :: high :: rest => (high.toNat * twoTo 32 + low.toNat) :: pairs rest
  | _ => []

/-- The first `count` 64-bit words of the sequence of `n`. -/
def words64 (n count : Nat) : List Nat :=
  pairs (draw (pool n) (2 * count))

end Isotherm.SeedSequence
