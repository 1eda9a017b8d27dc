import Covering.Proofs.Count
import Mathlib.Data.Nat.Choose.Central
import Mathlib.Tactic.Linarith

/-!
# When counting overflows

Obligations are counted exactly or not at all, and the count is refused when it,
or any number that is met on the way to it, has no room. The count itself is one
such number. The others are the numbers of obligations at all lower orders,
which are added up beside it: nothing else is met, because each sum only grows
from one parameter to the next (`symmetricSum_le_append`), and no product that
goes into a sum is greater than the sum.

So a count can be refused that would have room. The number of obligations is not
monotone in the order, since there are few choices of nearly all positions:
where every parameter has one value, there is one obligation at the highest
order and far more at half of it (`obligationCount_overflow_ones`).

That takes an order close to the number of parameters and few values. One more
position in a choice multiplies the choices of `k` positions by the number of
positions that are left, with the values that each has, and divides them by the
`k + 1` ways to come by the same choice (`mul_symmetricSum_le`). As long as the
order does not exceed what is gained in this way, the numbers do grow with the
order, and a count is refused only for its own size.

## Main definitions

* `SumsFit`: There is room for the sums of all orders up to the given one.

## Theorems

* `symmetricSum_le_append`: Sums grow with parameters.
* `mul_symmetricSum_le`, `symmetricSum_le_succ`: When they grow with the order.
* `symmetricSum_ones`: Sums of ones are binomial coefficients.
* `symmetricSums_spec`, `addSubsets_spec`: What is refused on the way.
* `obligationCountWith_spec`: The count, or an overflow.
* `obligationCountWith_overflow`: Which counts overflow.
* `obligationCount_overflow_ones`: A count of one that overflows.
-/

namespace Covering

section Growth

/-- Sums grow with parameters. -/
theorem symmetricSum_le_append (k : Nat) (counts more : List Nat) :
    symmetricSum k counts ≤ symmetricSum k (counts ++ more) := by
  induction more generalizing counts with
  | nil => rw [List.append_nil]
  | cons count more ih =>
      rw [List.append_cons]
      refine Nat.le_trans ?_ (ih (counts ++ [count]))
      cases k with
      | zero => rw [symmetricSum_zero, symmetricSum_zero]
      | succ k =>
          rw [symmetricSum_concat]
          exact Nat.le_add_right ..

/-- Each choice of `k` positions becomes a choice of one more with any of the
    others, and each of those comes about in `k + 1` ways. -/
theorem mul_symmetricSum_le {m : Nat} {counts : List Nat} (h : ∀ count ∈ counts, m ≤ count)
    (k : Nat) :
    m * (counts.length - k) * symmetricSum k counts ≤ (k + 1) * symmetricSum (k + 1) counts := by
  induction counts generalizing k with
  | nil => rw [List.length_nil, Nat.zero_sub, Nat.mul_zero, Nat.zero_mul]; exact Nat.zero_le _
  | cons count counts ih =>
      rcases List.forall_mem_cons.1 h with ⟨hcount, hcounts⟩
      replace ih := ih hcounts
      cases k with
      | zero =>
          have hrest := ih 0
          simp only [symmetricSum_zero, Nat.sub_zero, Nat.mul_one, Nat.zero_add, Nat.one_mul,
            symmetricSum_cons, List.length_cons] at hrest ⊢
          rw [Nat.mul_succ, Nat.add_comm]
          exact Nat.add_le_add hcount hrest
      | succ k =>
          rw [symmetricSum_cons, symmetricSum_cons, List.length_cons, Nat.succ_sub_succ]
          by_cases hlong : counts.length ≤ k
          · rw [Nat.sub_eq_zero_of_le hlong, Nat.mul_zero, Nat.zero_mul]
            exact Nat.zero_le _
          · -- The position in front is in the choice already, or is another one to add.
            have hwith := Nat.mul_le_mul_left count (ih k)
            have hwithout := ih (k + 1)
            have hsplit : counts.length - k = counts.length - (k + 1) + 1 := by omega
            have hfront := Nat.mul_le_mul_right (symmetricSum (k + 1) counts) hcount
            generalize counts.length - (k + 1) = left at hsplit hwithout
            rw [hsplit] at hwith ⊢
            nlinarith only [hwith, hwithout, hfront]

/-- Sums grow with the order where more is gained by one more position than is
    lost. -/
theorem symmetricSum_le_succ {m k : Nat} {counts : List Nat} (h : ∀ count ∈ counts, m ≤ count)
    (hk : k + 1 ≤ m * (counts.length - k)) :
    symmetricSum k counts ≤ symmetricSum (k + 1) counts :=
  Nat.le_of_mul_le_mul_left
    (Nat.le_trans (Nat.mul_le_mul_right _ hk) (mul_symmetricSum_le h k)) (Nat.succ_pos k)

/-- Where even the last position gains more than is lost, all lower sums are no
    greater. -/
theorem symmetricSum_le_of_le {m order k : Nat} {counts : List Nat}
    (h : ∀ count ∈ counts, m ≤ count) (horder : order ≤ m * (counts.length + 1 - order))
    (hk : k ≤ order) : symmetricSum k counts ≤ symmetricSum order counts := by
  induction hk using Nat.decreasingInduction with
  | self => exact Nat.le_refl _
  | of_succ j hj ih =>
      refine Nat.le_trans (symmetricSum_le_succ h ?_) ih
      calc j + 1 ≤ order := hj
        _ ≤ m * (counts.length + 1 - order) := horder
        _ ≤ m * (counts.length - j) := Nat.mul_le_mul_left m (by omega)

/-- Where every parameter has one value, sums count choices of positions. -/
theorem symmetricSum_ones (n k : Nat) : symmetricSum k (List.replicate n 1) = n.choose k := by
  induction n generalizing k with
  | zero =>
      cases k with
      | zero => rw [symmetricSum_zero, Nat.choose_zero_right]
      | succ k => rw [List.replicate_zero, symmetricSum_succ_nil, Nat.choose_zero_succ]
  | succ n ih =>
      cases k with
      | zero => rw [symmetricSum_zero, Nat.choose_zero_right]
      | succ k => rw [List.replicate_succ, symmetricSum_cons, Nat.one_mul, ih, ih,
          Nat.choose_succ_succ]

end Growth

section Checked

/-- There is room for the sums of all orders up to the given one. -/
def SumsFit (order : Nat) (counts : List Nat) : Prop :=
  ∀ k, k ≤ order → symmetricSum k counts < countLimit

theorem SumsFit.of_append {order : Nat} {counts more : List Nat}
    (h : SumsFit order (counts ++ more)) : SumsFit order counts :=
  fun k hk => Nat.lt_of_le_of_lt (symmetricSum_le_append k counts more) (h k hk)

theorem sumsFit_nil (order : Nat) : SumsFit order [] := by
  intro k _
  cases k with
  | zero => rw [symmetricSum_zero]; decide
  | succ k => rw [symmetricSum_succ_nil]; decide

/-- Counts are checked one by one, and the first that has no room is an overflow
    like any other. -/
theorem mapM_checkedCount (ns : List Nat) :
    ((∀ n ∈ ns, n < countLimit) → ns.mapM checkedCount = .ok ns) ∧
      ((¬ ∀ n ∈ ns, n < countLimit) → ns.mapM checkedCount = .error countOverflow) := by
  induction ns with
  | nil => exact ⟨fun _ => rfl, fun h => absurd (fun n hn => absurd hn List.not_mem_nil) h⟩
  | cons n ns ih =>
      rw [List.mapM_cons, List.forall_mem_cons]
      by_cases hn : n < countLimit
      · have hfirst : checkedCount n = .ok n := if_pos hn
        constructor
        · intro h
          rw [hfirst, ih.1 h.2]
          rfl
        · intro h
          rw [hfirst, ih.2 fun hns => h ⟨hn, hns⟩]
          rfl
      · have hfirst : checkedCount n = .error countOverflow := if_neg hn
        refine ⟨fun h => absurd h.1 hn, fun _ => ?_⟩
        rw [hfirst]
        rfl

/-- The sums are refused if some of them has no room in the end, whether it was
    the last parameter that made it so or one before. -/
theorem symmetricSums_spec {order : Nat} {before : List Nat} (counts : List Nat)
    (hbefore : SumsFit order before) :
    (SumsFit order (before ++ counts) →
      symmetricSums ((List.range (order + 1)).map (symmetricSum · before)) counts =
        .ok ((List.range (order + 1)).map (symmetricSum · (before ++ counts)))) ∧
    (¬ SumsFit order (before ++ counts) →
      symmetricSums ((List.range (order + 1)).map (symmetricSum · before)) counts =
        .error countOverflow) := by
  induction counts generalizing before with
  | nil =>
      rw [List.append_nil]
      exact ⟨fun _ => rfl, fun h => absurd hbefore h⟩
  | cons count counts ih =>
      have hnext : (∀ n ∈ (List.range (order + 1)).map (symmetricSum · (before ++ [count])),
          n < countLimit) ↔ SumsFit order (before ++ [count]) := by
        simp only [List.forall_mem_map, List.mem_range, Nat.lt_succ_iff, SumsFit]
      rw [symmetricSums, addParameter_eq, List.append_cons before]
      by_cases hfit : SumsFit order (before ++ [count])
      · rw [(mapM_checkedCount _).1 (hnext.2 hfit)]
        exact ih hfit
      · -- What has no room now has none later.
        rw [(mapM_checkedCount _).2 fun h => hfit (hnext.1 h)]
        exact ⟨fun h => absurd h.of_append hfit, fun _ => rfl⟩

variable {space : Space} {order total : Nat}

/-- The count of an order is refused if that of some order up to it has no
    room. -/
theorem obligationCount_spec (horder : space.checkOrder order = .ok ()) :
    (SumsFit order space.counts →
      obligationCount space order = .ok (symmetricSum order space.counts)) ∧
    (¬ SumsFit order space.counts → obligationCount space order = .error countOverflow) := by
  have hspec := symmetricSums_spec space.counts (sumsFit_nil order)
  rw [List.nil_append, ← sums_nil] at hspec
  rw [obligationCount, horder]
  refine ⟨fun h => ?_, fun h => ?_⟩
  · rw [hspec.1 h, ← getD_sums]
    rfl
  · rw [hspec.2 h]
    rfl

/-- Adding up further choices is refused if there is no room for the total. -/
theorem addSubsets_spec (space : Space) (choices : List (List Nat)) (htotal : total < countLimit) :
    (total + sumOf (choices.map (tupleCount space)) < countLimit →
      addSubsets space total choices = .ok (total + sumOf (choices.map (tupleCount space)))) ∧
    (countLimit ≤ total + sumOf (choices.map (tupleCount space)) →
      addSubsets space total choices = .error countOverflow) := by
  induction choices generalizing total with
  | nil => exact ⟨fun _ => rfl, fun h => absurd htotal (Nat.not_lt.2 h)⟩
  | cons positions rest ih =>
      rw [List.map_cons, sumOf, ← Nat.add_assoc, addSubsets]
      by_cases hnext : total + tupleCount space positions < countLimit
      · rw [show checkedCount _ = .ok _ from if_pos hnext]
        exact ih hnext
      · rw [show checkedCount _ = .error _ from if_neg hnext]
        refine ⟨fun h => absurd (Nat.lt_of_le_of_lt (Nat.le_add_right ..) h) hnext, fun _ => rfl⟩

/-- Without submodels no choices are added. -/
theorem extraSubsets_nil (order : Nat) : extraSubsets order [] = [] := by
  rw [extraSubsets, List.filter_nil, List.flatMap_nil, List.mergeSort_nil]
  rfl

/-- The number of obligations, submodels included. -/
theorem sumOf_tupleCount_trackedSubsets (space : Space) (hpos : 1 ≤ order)
    (submodels : List Submodel) :
    sumOf ((trackedSubsets space order submodels).map (tupleCount space)) =
      symmetricSum order space.counts +
        sumOf ((extraSubsets order submodels).map (tupleCount space)) := by
  rw [trackedSubsets, List.map_append, sumOf_append, sumOf_tupleCount_subsets space hpos]

/-- The count with submodels is refused if there is no room for it, or for the
    sum of an order up to the model's. -/
theorem obligationCountWith_spec (horder : space.checkOrder order = .ok ())
    (submodels : List Submodel)
    (htotal : sumOf ((trackedSubsets space order submodels).map (tupleCount space)) = total) :
    (SumsFit order space.counts ∧ total < countLimit →
      obligationCountWith space order submodels = .ok total) ∧
    (¬ (SumsFit order space.counts ∧ total < countLimit) →
      obligationCountWith space order submodels = .error countOverflow) := by
  rw [sumOf_tupleCount_trackedSubsets space (Space.checkOrder_eq_ok_iff.1 horder).1] at htotal
  have hplain := obligationCount_spec horder
  rw [obligationCountWith]
  by_cases hfit : SumsFit order space.counts
  · have hextra := addSubsets_spec space (extraSubsets order submodels)
      (hfit order (Nat.le_refl order))
    rw [htotal] at hextra
    rw [hplain.1 hfit]
    refine ⟨fun h => hextra.1 h.2, fun h => hextra.2 ?_⟩
    exact Nat.not_lt.1 fun hlt => h ⟨hfit, hlt⟩
  · rw [hplain.2 hfit]
    exact ⟨fun h => absurd h.1 hfit, fun _ => rfl⟩

end Checked

/-- Which counts overflow. For an order of the space, obligations are counted
    when their number is below `2 ^ 128` and so are the numbers of obligations at
    all lower orders; if one of these has no room, the count is an overflow.
    Where every parameter has `m` values at least and the order is no greater
    than `m` for each position that the last one is chosen from, a count
    overflows for its own size alone. Without submodels it is the count of the
    space. -/
theorem obligationCountWith_overflow {space : Space} {order : Nat}
    (horder : space.checkOrder order = .ok ()) (submodels : List Submodel) :
    ((sumOf ((trackedSubsets space order submodels).map (tupleCount space)) < 2 ^ 128 ∧
        ∀ k, k < order → sumOf ((subsets space.width k).map (tupleCount space)) < 2 ^ 128) →
      obligationCountWith space order submodels =
        .ok (sumOf ((trackedSubsets space order submodels).map (tupleCount space)))) ∧
    ((2 ^ 128 ≤ sumOf ((trackedSubsets space order submodels).map (tupleCount space)) ∨
        ∃ k, k < order ∧ 2 ^ 128 ≤ sumOf ((subsets space.width k).map (tupleCount space))) →
      obligationCountWith space order submodels = .error countOverflow) ∧
    (∀ m, (∀ count ∈ space.counts, m ≤ count) → order ≤ m * (space.width + 1 - order) →
      (obligationCountWith space order submodels = .error countOverflow ↔
        2 ^ 128 ≤ sumOf ((trackedSubsets space order submodels).map (tupleCount space)))) ∧
    obligationCountWith space order [] = obligationCount space order := by
  have hpos := (Space.checkOrder_eq_ok_iff.1 horder).1
  have hspec := obligationCountWith_spec horder submodels rfl
  have hlimit : countLimit = 2 ^ 128 := rfl
  have htotal := sumOf_tupleCount_trackedSubsets space hpos submodels
  -- The sum of order zero is one, and no choice of positions stands for it.
  have hsum (k : Nat) : symmetricSum k space.counts < countLimit ↔
      sumOf ((subsets space.width k).map (tupleCount space)) < 2 ^ 128 := by
    cases k with
    | zero =>
        rw [symmetricSum_zero, subsets_zero, List.map_nil]
        exact iff_of_true (by decide) (Nat.two_pow_pos 128)
    | succ k => rw [sumOf_tupleCount_subsets space (Nat.succ_pos k), hlimit]
  have hfits (h : sumOf ((trackedSubsets space order submodels).map (tupleCount space)) < 2 ^ 128) :
      SumsFit order space.counts ↔
        ∀ k, k < order → sumOf ((subsets space.width k).map (tupleCount space)) < 2 ^ 128 := by
    refine ⟨fun hfit k hk => (hsum k).1 (hfit k (Nat.le_of_lt hk)), fun hlower k hk => ?_⟩
    rcases Nat.lt_or_eq_of_le hk with hlt | rfl
    · exact (hsum k).2 (hlower k hlt)
    · rw [htotal] at h
      exact Nat.lt_of_le_of_lt (Nat.le_add_right ..) h
  refine ⟨fun h => hspec.1 ⟨(hfits h.1).2 h.2, h.1⟩, fun h => hspec.2 ?_, fun m hm hgrow => ?_, ?_⟩
  · rintro ⟨hfit, hlt⟩
    rcases h with hge | ⟨k, hk, hge⟩
    · exact absurd hlt (Nat.not_lt.2 hge)
    · exact absurd ((hfits hlt).1 hfit k hk) (Nat.not_lt.2 hge)
  · refine ⟨fun h => Nat.not_lt.1 fun hlt => ?_, fun hge => hspec.2 fun h => ?_⟩
    · -- No lower sum is greater than that of the order, so all of them have room.
      have hfit : SumsFit order space.counts := fun k hk =>
        Nat.lt_of_le_of_lt (symmetricSum_le_of_le hm hgrow hk)
          (Nat.lt_of_le_of_lt (Nat.le_add_right ..) (htotal ▸ hlt))
      rw [hspec.1 ⟨hfit, hlt⟩] at h
      exact absurd h (by simp only [reduceCtorEq, not_false_eq_true])
    · exact absurd h.2 (Nat.not_lt.2 hge)
  · rw [obligationCountWith, extraSubsets_nil]
    cases obligationCount space order <;> rfl

/-- The count of three bits in pairs has room, and of all three together. -/
theorem obligationCountWith_overflow_bits :
    (Space.uniform 2 1).checkOrder 2 = .ok () ∧
      obligationCountWith (.uniform 2 1) 2 [⟨[0, 1, 2], 3⟩] = .ok 20 := by
  have horder : (Space.uniform 2 1).checkOrder 2 = .ok () := rfl
  have htotal : sumOf ((trackedSubsets (.uniform 2 1) 2 [⟨[0, 1, 2], 3⟩]).map
      (tupleCount (.uniform 2 1))) = 20 := by cbv
  rw [← htotal]
  refine ⟨horder, (obligationCountWith_overflow horder _).1 ⟨?_, ?_⟩⟩
  · rw [htotal]
    decide
  · decide +kernel

/-- A count of one that overflows: that of one hundred and forty parameters, one
    value each, all at once. Half of them can be chosen in too many ways. -/
theorem obligationCount_overflow_ones :
    (Space.uniform 139 0).checkOrder 140 = .ok () ∧
      obligationCount (.uniform 139 0) 140 = .error countOverflow ∧
      obligationCountWith (.uniform 139 0) 140 [] = .error countOverflow ∧
      sumOf ((trackedSubsets (.uniform 139 0) 140 []).map (tupleCount (.uniform 139 0))) = 1 := by
  have horder : (Space.uniform 139 0).checkOrder 140 = .ok () := by decide +kernel
  have hsums (k : Nat) : symmetricSum k (Space.uniform 139 0).counts = Nat.choose 140 k :=
    symmetricSum_ones 140 k
  have hfit : ¬ SumsFit 140 (Space.uniform 139 0).counts := by
    intro h
    have hhalf : symmetricSum 70 (Space.uniform 139 0).counts < 2 ^ 128 := h 70 (by decide)
    rw [hsums, ← Nat.centralBinom_eq_two_mul_choose 70] at hhalf
    have hcentral := Nat.four_pow_le_two_mul_self_mul_centralBinom 70 (by decide)
    omega
  have hcount := (obligationCount_spec horder).2 hfit
  refine ⟨horder, hcount, ?_, ?_⟩
  · rw [obligationCountWith, hcount]
    rfl
  · rw [sumOf_tupleCount_trackedSubsets _ (by decide), extraSubsets_nil, hsums, Nat.choose_self]
    rfl

end Covering
