import Covering.Proofs.Random

/-!
# Draws are exact

Which index a draw gives, as a function of the next word of the stream.

A word is scaled to the numbers below a bound by a product and a division. Both
are exact here, and they are what words compute: the product of two words fits in
twice as many bits, and its high half fits in a word again (`toNat_highHalf`), so
widening loses nothing and neither does cutting back.

A draw by weights scales the next word to the numbers below their sum. The weights
divide these numbers up among the indices, each of which owns as many numbers as
its weight says, after those of the indices before it. The scan keeps no sums. It
takes the weights off the number one by one, so what it compares at an index is
the number less the sum of the weights before, and it stops at the owner
(`pick?_eq_some_iff`). There always is one for a number below the sum
(`exists_pick?_eq`), so the scan never comes to the end of the weights.

## Main definitions

* `highHalf`: The high half of a product, as words compute it.
* `Owns`: The index whose share of the numbers a number is in.

## Theorems

* `toNat_highHalf`: The high half is the quotient by the number of words.
* `below_fst`: A draw below a bound is the next word scaled to it.
* `owns_cons_succ`, `pick?_cons_eq_succ_iff`: A share and the scan, past one weight.
* `pick?_eq_some_iff`: The scan finds the owner.
* `exists_pick?_eq`: Every number below the sum has one.
* `Owns.pos`: An owner has some weight.
* `pick?_scaled`: A draw by weights is the owner of the next word scaled to their
  sum.
* `draws_exact`: Draws by bound and by weights.
-/

namespace Covering

namespace Random

/-- The high half of the product of two words: both are widened and multiplied in
    twice as many bits, and the upper half of the bits is a word again. -/
def highHalf (x n : UInt64) : UInt64 :=
  ⟨((x.toBitVec.setWidth 128 * n.toBitVec.setWidth 128) >>> 64).setWidth 64⟩

theorem toNat_highHalf (x n : UInt64) :
    (highHalf x n).toNat = x.toNat * n.toNat / wordLimit := by
  have hx : x.toNat < 2 ^ 128 := Nat.lt_trans x.toNat_lt (by decide)
  have hn : n.toNat < 2 ^ 128 := Nat.lt_trans n.toNat_lt (by decide)
  have hproduct : x.toNat * n.toNat < 2 ^ 64 * 2 ^ 64 := Nat.mul_lt_mul'' x.toNat_lt n.toNat_lt
  have hhalf : x.toNat * n.toNat / 2 ^ 64 < 2 ^ 64 := Nat.div_lt_of_lt_mul hproduct
  rw [← Nat.pow_add] at hproduct
  -- Every result fits in the bits it is kept in, so no remainder is taken.
  rw [highHalf, UInt64.toNat_ofBitVec, BitVec.toNat_setWidth, BitVec.toNat_ushiftRight,
    BitVec.toNat_mul, BitVec.toNat_setWidth, BitVec.toNat_setWidth, UInt64.toNat_toBitVec,
    UInt64.toNat_toBitVec, Nat.mod_eq_of_lt hx, Nat.mod_eq_of_lt hn, Nat.mod_eq_of_lt hproduct,
    Nat.shiftRight_eq_div_pow, Nat.mod_eq_of_lt hhalf]
  rfl

/-- Scaling a word is taking the high half of a product. -/
theorem toNat_highHalf_ofNat (r : Random) {n : Nat} (h : n < wordLimit) :
    (highHalf r.next.1 (.ofNat n)).toNat = r.scaled n := by
  rw [toNat_highHalf, UInt64.toNat_ofNat_of_lt' h, scaled]

/-- Where there is a choice, the index is the next word scaled. Where there is one
    index only, this is what the word is scaled to as well. -/
theorem below_fst (r : Random) {n : Nat} (h : 1 ≤ n) : (r.below n).1 = r.scaled n := by
  rw [below]
  simp only
  split
  · have hone : n = 1 := by omega
    have hlt := r.scaled_lt h
    rw [hone] at hlt ⊢
    exact (Nat.lt_one_iff.1 hlt).symm
  · rfl

section Shares

/-- The index whose share of the numbers a number is in: the weights before the
    index add up to no more than the number, and with its own weight to more. -/
def Owns (weights : List Nat) (target i : Nat) : Prop :=
  sumOf (weights.take i) ≤ target ∧ target < sumOf (weights.take (i + 1))

variable {weights ws : List Nat} {w target i : Nat}

theorem not_owns_nil : ¬ Owns [] target i := by
  rw [Owns, List.take_nil, List.take_nil]
  exact fun h => Nat.not_lt_zero target h.2

/-- The first share begins at zero. -/
theorem owns_cons_zero : Owns (w :: ws) target 0 ↔ target < w := by
  simp only [Owns, List.take_zero, List.take_succ_cons, sumOf, Nat.zero_le, true_and, Nat.add_zero]

/-- The shares after the first one are those of the other weights, moved up by
    the first. -/
theorem owns_cons_succ :
    Owns (w :: ws) target (i + 1) ↔ w ≤ target ∧ Owns ws (target - w) i := by
  simp only [Owns, List.take_succ_cons, sumOf]
  omega

theorem pick?_cons_eq_zero_iff : pick? target (w :: ws) = some 0 ↔ target < w := by
  rw [pick?]
  split
  · rename_i hlt
    exact iff_of_true rfl hlt
  · rename_i hge
    refine iff_of_false (fun h => ?_) hge
    rcases Option.map_eq_some_iff.1 h with ⟨j, _, hj⟩
    exact Nat.succ_ne_zero j hj

/-- Past the first weight, the scan goes on with what is left of the number. -/
theorem pick?_cons_eq_succ_iff :
    pick? target (w :: ws) = some (i + 1) ↔ w ≤ target ∧ pick? (target - w) ws = some i := by
  rw [pick?]
  split
  · rename_i hlt
    refine iff_of_false (fun h => ?_) fun h => absurd h.1 (Nat.not_le_of_lt hlt)
    exact Nat.succ_ne_zero i (Option.some.inj h).symm
  · rename_i hge
    rw [and_iff_right (Nat.le_of_not_lt hge), Option.map_eq_some_iff]
    simp only [Nat.add_right_cancel_iff, exists_eq_right]

/-- The scan finds the owner of the number it starts with: at every weight, the
    shares of those behind are what it still scans for. -/
theorem pick?_eq_some_iff : pick? target weights = some i ↔ Owns weights target i := by
  induction weights generalizing target i with
  | nil => exact iff_of_false (by simp only [pick?, reduceCtorEq, not_false_eq_true]) not_owns_nil
  | cons w ws ih =>
      cases i with
      | zero => rw [pick?_cons_eq_zero_iff, owns_cons_zero]
      | succ i => rw [pick?_cons_eq_succ_iff, owns_cons_succ, ih]

/-- The shares take up all numbers below the sum, so the scan does not run out of
    weights. -/
theorem exists_pick?_eq (h : target < sumOf weights) : ∃ i, pick? target weights = some i := by
  induction weights generalizing target with
  | nil => exact absurd h (Nat.not_lt_zero target)
  | cons w ws ih =>
      by_cases hlt : target < w
      · exact ⟨0, pick?_cons_eq_zero_iff.2 hlt⟩
      · rw [sumOf] at h
        -- What is left of the number is below the sum of the other weights.
        have hrest : target - w < sumOf ws := by omega
        rcases ih hrest with ⟨i, hi⟩
        exact ⟨i + 1, pick?_cons_eq_succ_iff.2 ⟨Nat.le_of_not_lt hlt, hi⟩⟩

theorem sumOf_take_succ (weights : List Nat) (i : Nat) :
    sumOf (weights.take (i + 1)) = sumOf (weights.take i) + weights.getD i 0 := by
  induction weights generalizing i with
  | nil => rw [List.take_nil, List.take_nil, List.getD_nil]; rfl
  | cons w ws ih =>
      cases i with
      | zero => simp only [List.take_succ_cons, List.take_zero, sumOf, List.getD_cons_zero,
          Nat.add_zero, Nat.zero_add]
      | succ i =>
          rw [List.take_succ_cons, List.take_succ_cons, sumOf, sumOf, ih, List.getD_cons_succ,
            Nat.add_assoc]

/-- A weight of zero owns nothing. -/
theorem Owns.pos (h : Owns weights target i) : 0 < weights.getD i 0 := by
  have hlt := Nat.lt_of_le_of_lt h.1 h.2
  rw [sumOf_take_succ] at hlt
  omega

end Shares

/-- A draw by weights that are not all zero gives what the scan finds, and never
    what stands in for it. -/
theorem pick?_scaled (r : Random) {weights : List Nat} (h : 0 < sumOf weights) :
    pick? (r.scaled (sumOf weights)) weights = some (r.weighted weights).1 := by
  obtain ⟨i, hi⟩ := exists_pick?_eq (r.scaled_lt h)
  rw [weighted, if_neg (Nat.ne_of_gt h), hi, Option.getD_some]

/-- Draws are exact. When the weights have a positive sum that fits in a word, the
    next word is scaled to a number below the sum, and words compute this number
    without loss. The index that is drawn is the only one whose share the number
    is in; its weight is not zero, and the scan finds it, so that nothing has to
    stand in for it. For all bounds from one on, the index below the bound is the
    next word scaled to the bound, and words compute it for a bound that fits in a
    word. And whatever the bound is, zero and one included, and whatever the weights
    are, none at all and only zeros included, a draw advances the stream by one
    word. -/
theorem draws_exact (r : Random) :
    (∀ weights : List Nat, 0 < sumOf weights → sumOf weights < wordLimit →
      ∃ target, target = r.next.1.toNat * sumOf weights / wordLimit ∧
        target = (highHalf r.next.1 (.ofNat (sumOf weights))).toNat ∧
        (∀ i, (r.weighted weights).1 = i ↔
          sumOf (weights.take i) ≤ target ∧ target < sumOf (weights.take (i + 1))) ∧
        0 < weights.getD (r.weighted weights).1 0 ∧
        pick? target weights = some (r.weighted weights).1) ∧
    (∀ n : Nat, 1 ≤ n →
      (r.below n).1 = r.next.1.toNat * n / wordLimit ∧ (r.below n).1 < n ∧
        (n < wordLimit → (r.below n).1 = (highHalf r.next.1 (.ofNat n)).toNat)) ∧
    (∀ n : Nat, (r.below n).2 = r.next.2) ∧
    ∀ weights : List Nat, (r.weighted weights).2 = r.next.2 := by
  refine ⟨fun weights hpos hlt => ?_, fun n hpos => ?_, r.below_snd, r.weighted_snd⟩
  · have hpick := r.pick?_scaled hpos
    refine ⟨r.scaled (sumOf weights), rfl, (r.toNat_highHalf_ofNat hlt).symm, fun i => ?_,
      (pick?_eq_some_iff.1 hpick).pos, hpick⟩
    -- What the scan finds is one index, so no other one owns the number.
    rw [← Option.some_inj, ← hpick]
    exact pick?_eq_some_iff
  · rw [r.below_fst hpos]
    exact ⟨rfl, r.scaled_lt hpos, fun hlt => (r.toNat_highHalf_ofNat hlt).symm⟩

/-- Of a sum of ten, a word scaled to eight is the first number that the second
    weight leaves over. It is owned by the fourth index, past a weight of zero. -/
theorem draws_exact_boundary :
    0 < sumOf [0, 8, 0, 2, 0] ∧ sumOf [0, 8, 0, 2, 0] < wordLimit ∧
      (ofSeed 3).next.1.toNat * sumOf [0, 8, 0, 2, 0] / wordLimit = 8 ∧
      ((ofSeed 3).weighted [0, 8, 0, 2, 0]).1 = 3 ∧
      1 ≤ 5 ∧ 5 < wordLimit ∧ ((ofSeed 3).below 5).1 = 4 ∧
      (highHalf (ofSeed 3).next.1 5).toNat = 4 := by
  rcases draws_exact (ofSeed 3) with ⟨hweighted, hbelow, -, -⟩
  rcases hweighted [0, 8, 0, 2, 0] (by decide) (by decide) with ⟨target, htarget, -, howner, -⟩
  have height : (ofSeed 3).next.1.toNat * sumOf [0, 8, 0, 2, 0] / wordLimit = 8 := by
    decide +kernel
  rw [height] at htarget
  subst htarget
  rcases hbelow 5 (by decide) with ⟨hfive, -, hwords⟩
  have hfour : ((ofSeed 3).below 5).1 = 4 := by
    rw [hfive]
    decide +kernel
  exact ⟨by decide, by decide, height, (howner 3).2 (by decide), by decide, by decide, hfour,
    (hwords (by decide)).symm.trans hfour⟩

end Random

end Covering
