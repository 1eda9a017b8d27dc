import Covering.Exclusion

/-!
# Completing partial rows

Whether a partial row can become a full row without an excluded combination,
and the first row it can become. Free positions are filled from the left, each
with its least value that leads to a completion of the rest; a value that
already completes an exclusion is passed over.

## Main definitions

* `firstBelow?`: The first success among the numbers below a bound.
* `ExclusionSet.fill`: The search over the free positions.
* `ExclusionSet.complete?`: The least completion of a partial row.

## Theorems

* `firstBelow?_eq_none_iff`: The search gives up only where nothing succeeds.
-/

namespace Covering

/-- The first success of `f` among `remaining` numbers from `start` on. -/
def firstFrom? {α : Type} (f : Nat → Option α) : (remaining start : Nat) → Option α
  | 0, _ => none
  | remaining + 1, start =>
    match f start with
    | some a => some a
    | none => firstFrom? f remaining (start + 1)

/-- The first success of `f` among the numbers below `n`. -/
def firstBelow? {α : Type} (n : Nat) (f : Nat → Option α) : Option α :=
  firstFrom? f n 0

theorem firstFrom?_eq_none_iff {α : Type} {f : Nat → Option α} {remaining start : Nat} :
    firstFrom? f remaining start = none ↔
      ∀ n, start ≤ n → n < start + remaining → f n = none := by
  induction remaining generalizing start with
  | zero =>
    simp only [firstFrom?, Nat.add_zero, true_iff]
    intro n hle hlt
    omega
  | succ remaining ih =>
    simp only [firstFrom?]
    split
    · rename_i a ha
      simp only [reduceCtorEq, false_iff]
      intro h
      rw [h start (Nat.le_refl _) (by omega)] at ha
      exact absurd ha (by simp only [reduceCtorEq, not_false_eq_true])
    · rename_i hnone
      rw [ih]
      constructor
      · intro h n hle hlt
        -- The first number has failed already; the others are the rest.
        by_cases hn : n = start
        · rw [hn, hnone]
        · exact h n (by omega) (by omega)
      · intro h n hle hlt
        exact h n (by omega) (by omega)

/-- The search gives up only where nothing succeeds. -/
theorem firstBelow?_eq_none_iff {α : Type} {f : Nat → Option α} {n : Nat} :
    firstBelow? n f = none ↔ ∀ k, k < n → f k = none := by
  rw [firstBelow?, firstFrom?_eq_none_iff]
  constructor
  · intro h k hk
    exact h k (Nat.zero_le k) (by omega)
  · intro h k _ hk
    exact h k (by omega)

namespace ExclusionSet

/-- Fills the given free positions in turn, each with the first value that
    completes no exclusion and lets the rest be filled. -/
def fill (set : ExclusionSet) (space : Space) : List Nat → Partial → Option Partial
  | [], work => some work
  | position :: free, work =>
    firstBelow? (space.count position) fun value =>
      let work' := work.bind ⟨position, value⟩
      if set.blocksAt work' position then none else fill set space free work'

/-- The least row that makes the bindings of the partial row and contains no
    exclusion; none when there is no such row, or when the partial row has not
    the width of the space. -/
def complete? (set : ExclusionSet) (space : Space) (work : Partial) : Option Row :=
  if work.length ≠ space.width || set.blocksPartial work then none
  else (set.fill space work.free work).bind Partial.toRow?

/-- Whether the obligation is in some row of the space without exclusion. -/
def feasible (set : ExclusionSet) (space : Space) (o : Obligation) : Bool :=
  !set.blocksObligation o && (set.complete? space (o.toPartial space.width)).isSome

end ExclusionSet

end Covering
