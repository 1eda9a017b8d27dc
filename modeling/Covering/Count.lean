import Covering.Arithmetic
import Covering.CoverError

/-!
# Counting obligations and rows

How many obligations a space has at an order, and how many rows an array needs
at least, both without enumerating anything. Counts are exact below `2 ^ 128`;
a count, or a sum on the way to it, that reaches this bound is an overflow.
The bound on rows stops at the largest number below it instead.

The number of obligations at order `t` is the `t`-th elementary symmetric sum
of the value counts, computed for all orders up to `t` at once, one parameter
after the other.

## Main definitions

* `countLimit`: The first number too large to be a count.
* `symmetricSums`: The elementary symmetric sums of the counts.
* `obligationCount`: The number of obligations.
* `rowLowerBound`: A number of rows that every covering array has.
-/

namespace Covering

/-- The first number that is too large to be a count. -/
def countLimit : Nat := 340282366920938463463374607431768211456

/-- The error for more obligations than can be counted. -/
def countOverflow : CoverError := .overflow (countLimit - 1) (wordLimit - 1)

/-- A count, unless it reaches the limit. -/
def checkedCount (n : Nat) : Except CoverError Nat :=
  if n < countLimit then .ok n else .error countOverflow

/-- The symmetric sums after one more parameter with `count` values: choose it
    with any of its values, or leave it out. -/
def addParameter (count : Nat) (sums : List Nat) : List Nat :=
  1 :: List.zipWith (fun lower here => here + lower * count) sums sums.tail

/-- The elementary symmetric sums of the counts up to the given order, starting
    from `sums`. -/
def symmetricSums (sums : List Nat) : List Nat → Except CoverError (List Nat)
  | [] => .ok sums
  | count :: counts =>
    match (addParameter count sums).mapM checkedCount with
    | .error e => .error e
    | .ok sums => symmetricSums sums counts

/-- The number of obligations of the space at the given order. -/
def obligationCount (space : Space) (order : Nat) : Except CoverError Nat := do
  orInvalid (space.checkOrder order)
  let sums ← symmetricSums (1 :: List.replicate order 0) space.counts
  pure (sums.getD order 0)

/-- The product of the numbers, or the greatest count if that is less. -/
def saturatingProduct (factors : List Nat) : Nat :=
  factors.foldl (fun acc factor => min (acc * factor) (countLimit - 1)) 1

/-- The counts from the largest down. -/
def descending (counts : List Nat) : List Nat :=
  counts.mergeSort fun a b => decide (b ≤ a)

/-- A number of rows that every array covering the space at this order has: the
    number of value tuples of the widest choice of positions. -/
def rowLowerBound (space : Space) (order : Nat) : Except CoverError Nat := do
  orInvalid (space.checkOrder order)
  pure (saturatingProduct ((descending space.counts).take order))

end Covering
