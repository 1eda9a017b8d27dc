import Covering.Random
import Mathlib.Tactic.ByContra

/-!
# Draws stay in range

An index that is drawn lies below the number of things to choose from, whatever
the state of the stream. This is all that a run needs to know of its draws:
which index it is decides which rows come out, but not that they cover.

## Theorems

* `below_lt`: An index drawn evenly is below its bound.
* `pick?_lt`: An index found by a scan of weights is one of theirs.
* `weighted_lt`: An index drawn by weights is one of theirs.
-/

namespace Covering

namespace Random

/-- Scaling a word to the numbers below a bound. -/
theorem scaled_lt (r : Random) {n : Nat} (h : 0 < n) : r.scaled n < n := by
  rw [scaled, Nat.div_lt_iff_lt_mul (by decide), Nat.mul_comm]
  exact Nat.mul_lt_mul_of_pos_left r.next.1.toNat_lt h

theorem below_lt (r : Random) {n : Nat} (h : 0 < n) : (r.below n).1 < n := by
  rw [below]
  simp only
  split
  · exact h
  · exact scaled_lt r h

theorem pick?_lt {target i : Nat} {weights : List Nat} (h : pick? target weights = some i) :
    i < weights.length := by
  induction weights generalizing target i with
  | nil => exact absurd h (by simp only [pick?, reduceCtorEq, not_false_eq_true])
  | cons w weights ih =>
      rw [pick?] at h
      split at h
      · rw [← Option.some.inj h, List.length_cons]
        exact Nat.succ_pos _
      · rcases Option.map_eq_some_iff.1 h with ⟨j, hj, rfl⟩
        rw [List.length_cons]
        exact Nat.succ_lt_succ (ih hj)

theorem weighted_lt (r : Random) {weights : List Nat} (h : weights ≠ []) :
    (r.weighted weights).1 < weights.length := by
  have hpos := List.length_pos_iff.2 h
  rw [weighted]
  split
  · exact below_lt r hpos
  · cases hpick : pick? (r.scaled (sumOf weights)) weights with
    | none => exact Nat.sub_lt hpos Nat.one_pos
    | some i => exact pick?_lt hpick

end Random

end Covering
