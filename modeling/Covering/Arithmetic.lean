/-!
# Sums, products and word sizes

The few quantities of arithmetic that the library is about: sums and products
of lists of numbers, powers, and the bounds of machine words. Counts, positions,
values and seeds are numbers of sixty-four bits wherever they come from or go
to.

## Main definitions

* `sumOf`, `productOf`: The sum and the product of a list.
* `power`: A power.
* `wordLimit`, `signedLimit`, `halfLimit`: The bounds of words.

## Theorems

* `sumOf_append`, `productOf_append`: Both respect concatenation.
* `foldl_max_spec`: The greatest of some numbers is one of them.
-/

namespace Covering

/-- The sum of a list of numbers. -/
def sumOf : List Nat → Nat
  | [] => 0
  | n :: ns => n + sumOf ns

/-- The product of a list of numbers. -/
def productOf : List Nat → Nat
  | [] => 1
  | n :: ns => n * productOf ns

/-- The power of a number. -/
def power (base exponent : Nat) : Nat := Nat.pow base exponent

/-- The first number that does not fit in sixty-four bits. -/
def wordLimit : Nat := 18446744073709551616

/-- The first number that does not fit in sixty-four bits with a sign. -/
def signedLimit : Nat := 9223372036854775808

/-- The first number that does not fit in thirty-two bits. -/
def halfLimit : Nat := 4294967296

theorem sumOf_append (ms ns : List Nat) : sumOf (ms ++ ns) = sumOf ms + sumOf ns := by
  induction ms with
  | nil => simp only [List.nil_append, sumOf, Nat.zero_add]
  | cons m ms ih => simp only [List.cons_append, sumOf, ih, Nat.add_assoc]

theorem productOf_append (ms ns : List Nat) :
    productOf (ms ++ ns) = productOf ms * productOf ns := by
  induction ms with
  | nil => simp only [List.nil_append, productOf, Nat.one_mul]
  | cons m ms ih => simp only [List.cons_append, productOf, ih, Nat.mul_assoc]

/-- The greatest of some numbers, with one to start from: it is one of them,
    and none is greater. -/
theorem foldl_max_spec (ns : List Nat) (start : Nat) :
    ns.foldl max start ∈ start :: ns ∧ ∀ n ∈ start :: ns, n ≤ ns.foldl max start :=
  List.max?_eq_some_iff.1 List.max?_cons'

end Covering
