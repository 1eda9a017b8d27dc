import Covering.Completion
import Covering.Random

/-!
# Drawing candidate rows

A candidate keeps what a partial row binds and fills the free positions from
the left, each at random among the values that complete no exclusion. Where
the weights of the space apply, they decide the odds. When some position has no
such value left, the candidate is the least completion of the partial row
instead.

## Main definitions

* `allowedValues`: The values a free position may take.
* `pickValue`: One of them, drawn.
* `drawFrom`: A candidate filled position by position.
* `draw`: A candidate for a partial row.
* `drawPool`: Several candidates for one partial row.
-/

namespace Covering

/-- The values at a position that complete no exclusion. -/
def allowedValues (space : Space) (exclusions : ExclusionSet) (work : Partial)
    (position : Nat) : List Nat :=
  (List.range (space.count position)).filter fun value =>
    !exclusions.blocksAt (work.bind ⟨position, value⟩) position

/-- One of the values, drawn by the weights of the position if it has any. -/
def pickValue (space : Space) (position : Nat) (values : List Nat) (random : Random) :
    Nat × Random :=
  let (index, random) := match space.weightsAt? position with
    | none => random.below values.length
    | some weights => random.weighted (values.map fun value => weights.getD value 0)
  (values.getD index 0, random)

/-- Fills the given positions of `work` where they are free. When one of them
    has no allowed value, the answer is the least completion of `fixed`. -/
def drawFrom (space : Space) (exclusions : ExclusionSet) (fixed : Partial) :
    List Nat → Partial → Random → Option Row × Random
  | [], work, random => (work.toRow?, random)
  | position :: rest, work, random =>
    if (work.at? position).isSome then drawFrom space exclusions fixed rest work random
    else
      let allowed := allowedValues space exclusions work position
      if allowed.isEmpty then (exclusions.complete? space fixed, random)
      else
        let (value, random) := pickValue space position allowed random
        drawFrom space exclusions fixed rest (work.bind ⟨position, value⟩) random

/-- A candidate row that makes the bindings of `fixed`. -/
def draw (space : Space) (exclusions : ExclusionSet) (fixed : Partial) (random : Random) :
    Option Row × Random :=
  drawFrom space exclusions fixed (List.range fixed.length) fixed random

/-- The candidates of `n` draws for one partial row. -/
def drawPool (space : Space) (exclusions : ExclusionSet) (fixed : Partial) :
    Nat → Random → List Row × Random
  | 0, random => ([], random)
  | n + 1, random =>
    let (row?, random) := draw space exclusions fixed random
    let (pool, random) := drawPool space exclusions fixed n random
    (row?.toList ++ pool, random)

end Covering
