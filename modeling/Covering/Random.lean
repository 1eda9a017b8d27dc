import Covering.Arithmetic

/-!
# Seeded random numbers

A stream of 64-bit words fixed by a seed: a xorshift generator with a
multiplied output, started from the seed scrambled once by splitmix. Integer
arithmetic alone decides the stream, so a seed gives the same rows everywhere.

A draw is a function from a generator to a value and the next generator.
Numbers below a bound are the high word of a 128-bit product, which needs no
rejection and so costs exactly one word whatever the bound.

## Main definitions

* `Random`: The generator's state.
* `Random.ofSeed`: The generator a seed starts.
* `Random.next`: The next word of the stream.
* `Random.below`: An index below a bound.
* `Random.weighted`: An index chosen in proportion to weights.

## Theorems

* `below_snd`, `weighted_snd`: A draw of either kind advances the stream once.
-/

namespace Covering

/-- The state of a random stream. -/
structure Random where
  state : UInt64
deriving DecidableEq, Repr

namespace Random

/-- The increment of the scrambling sequence, also the state that stands in for
    zero. -/
def golden : UInt64 := 0x9E3779B97F4A7C15

/-- Spreads a seed over all sixty-four bits. -/
def scramble (seed : UInt64) : UInt64 :=
  let z := seed + golden
  let z := (z ^^^ (z >>> 30)) * 0xBF58476D1CE4E5B9
  let z := (z ^^^ (z >>> 27)) * 0x94D049BB133111EB
  z ^^^ (z >>> 31)

/-- The stream of a seed. The transition maps zero to itself, so a seed that
    scrambles to zero starts from `golden` instead. -/
def ofSeed (seed : UInt64) : Random :=
  let state := scramble seed
  ⟨if state = 0 then golden else state⟩

/-- The transition of the state: three xor-shifts. -/
def shift (x : UInt64) : UInt64 :=
  let x := x ^^^ (x >>> 12)
  let x := x ^^^ (x <<< 25)
  x ^^^ (x >>> 27)

/-- The word a state puts out. -/
def output (x : UInt64) : UInt64 := x * 0x2545F4914F6CDD1D

/-- The generator after one word. -/
def advance (r : Random) : Random := ⟨shift r.state⟩

/-- The next word of the stream. -/
def next (r : Random) : UInt64 × Random :=
  (output r.advance.state, r.advance)

/-- The next word scaled to the numbers below `n`. -/
def scaled (r : Random) (n : Nat) : Nat := r.next.1.toNat * n / wordLimit

/-- An index below `n`. The stream advances once even where there is no
    choice, so that later draws do not depend on how wide this one was. -/
def below (r : Random) (n : Nat) : Nat × Random :=
  (if n ≤ 1 then 0 else r.scaled n, r.advance)

/-- The first index whose weights, summed up to and with it, exceed `target`,
    if there is one. -/
def pick? (target : Nat) : List Nat → Option Nat
  | [] => none
  | w :: ws => if target < w then some 0 else (pick? (target - w) ws).map (· + 1)

/-- An index chosen in proportion to `weights`, or any index below their number
    when they are all zero. -/
def weighted (r : Random) (weights : List Nat) : Nat × Random :=
  if sumOf weights = 0 then r.below weights.length
  else ((pick? (r.scaled (sumOf weights)) weights).getD (weights.length - 1), r.advance)

@[simp] theorem below_snd (r : Random) (n : Nat) : (r.below n).2 = r.advance := rfl

@[simp] theorem weighted_snd (r : Random) (weights : List Nat) :
    (r.weighted weights).2 = r.advance := by
  unfold weighted
  split <;> rfl

end Random

end Covering
