import Covering.Proofs.Verdict
import Mathlib.Algebra.BigOperators.Group.List.Basic
import Mathlib.Algebra.Group.Nat.Defs
import Mathlib.Data.List.Perm.Subperm

/-!
# How many rows it takes

The bound on rows is one, and it is the best that a single choice of positions
gives.

Rows that cover a choice of positions have each of its value tuples somewhere,
and a row has one tuple there. So there are at least as many rows as tuples
(`tupleCount_le_length`). This holds of every tracked choice, and the bound is
the greatest number that follows in this way.

It is found without looking at the model's choices. A choice of positions picks
some of the counts, and picking from the counts in descending order never beats
the first ones (`productOf_le_take`): leaving one of them out only makes room
for a count that is no greater. Sorting the counts moves positions about, which
is no loss, since every choice of counts is that of some positions.

Products stop growing where counts end. A product that has stopped there is the
lesser of the true product and the greatest count, whatever follows
(`saturatingProduct_eq`), and so is the greatest of several
(`foldl_max_min`).

## Theorems

* `saturatingProduct_eq`: A product that stops growing.
* `productOf_le_take`: The first of descending numbers have the greatest product.
* `productOf_take_descending`: The greatest product of as many counts.
* `rowLowerBoundWith_eq`: The bound is a greatest number of tuples.
* `tupleCount_le_length`: Rows that cover a choice are as many as its tuples.
* `rowLowerBoundWith_exact`: The bound is a bound, and which it is.
-/

namespace Covering

section Saturating

/-- Stopping before a factor does not show where the product has to stop in the
    end anyway. -/
theorem min_mul_min (a factor limit : Nat) :
    min (min a limit * factor) limit = min (a * factor) limit := by
  rcases Nat.le_total a limit with hle | hge
  · rw [Nat.min_eq_left hle]
  · rw [Nat.min_eq_right hge]
    cases factor with
    | zero => rfl
    | succ factor =>
        -- Both products are beyond the limit.
        have hlimit : limit ≤ limit * (factor + 1) := Nat.le_mul_of_pos_right _ (Nat.succ_pos _)
        have ha : limit ≤ a * (factor + 1) :=
          Nat.le_trans hlimit (Nat.mul_le_mul_right _ hge)
        rw [Nat.min_eq_right hlimit, Nat.min_eq_right ha]

/-- A product that stops growing is the lesser of the product and the limit. -/
theorem saturatingProduct_eq (factors : List Nat) :
    saturatingProduct factors = min (productOf factors) (countLimit - 1) := by
  have hfold (a : Nat) : factors.foldl (fun acc factor => min (acc * factor) (countLimit - 1))
      (min a (countLimit - 1)) = min (a * productOf factors) (countLimit - 1) := by
    induction factors generalizing a with
    | nil => rw [List.foldl_nil, productOf, Nat.mul_one]
    | cons factor factors ih =>
        rw [List.foldl_cons, min_mul_min, ih, productOf, Nat.mul_assoc]
  have hone := hfold 1
  rw [Nat.one_mul] at hone
  exact hone

/-- The greatest of numbers that stop growing stops where they do. -/
theorem foldl_max_min (limit start : Nat) (ns : List Nat) :
    (ns.map (min · limit)).foldl max (min start limit) = min (ns.foldl max start) limit := by
  induction ns generalizing start with
  | nil => rfl
  | cons n ns ih =>
      rw [List.map_cons, List.foldl_cons, List.foldl_cons, ← ih,
        Nat.min_max_distrib_right]

end Saturating

section Greatest

variable {k : Nat} {picked : List Nat}

/-- Of numbers in descending order, the first ones have no lesser product than
    as many of those behind the first. -/
theorem productOf_take_le {n : Nat} {ns : List Nat} (hdesc : (n :: ns).Pairwise (· ≥ ·))
    (hk : k ≤ ns.length) : productOf (ns.take k) ≤ productOf ((n :: ns).take k) := by
  cases k with
  | zero => exact Nat.le_refl _
  | succ k =>
      -- The two differ in one factor: the last here, the first there.
      have hlast : ns[k] ≤ n := (List.pairwise_cons.1 hdesc).1 _ (List.getElem_mem hk)
      have htake : ns.take (k + 1) = ns.take k ++ [ns[k]] :=
        List.take_succ_eq_append_getElem hk
      rw [List.take_succ_cons, htake, productOf_append, productOf, productOf, productOf,
        Nat.mul_one, Nat.mul_comm n]
      exact Nat.mul_le_mul_left _ hlast

/-- Of numbers in descending order, none of the same number has a greater
    product than the first ones. -/
theorem productOf_le_take {ns : List Nat} (hdesc : ns.Pairwise (· ≥ ·))
    (h : picked.Sublist ns) : productOf picked ≤ productOf (ns.take picked.length) := by
  induction h with
  | slnil => exact Nat.le_refl _
  | cons n hsub ih =>
      -- The first number is left out.
      exact Nat.le_trans (ih hdesc.tail) (productOf_take_le hdesc hsub.length_le)
  | cons_cons n _ ih =>
      rw [List.length_cons, List.take_succ_cons, productOf, productOf]
      exact Nat.mul_le_mul_left n (ih hdesc.tail)

theorem descending_perm (counts : List Nat) : (descending counts).Perm counts :=
  List.mergeSort_perm ..

theorem pairwise_descending (counts : List Nat) : (descending counts).Pairwise (· ≥ ·) := by
  have hsorted : (descending counts).Pairwise fun a b => decide (b ≤ a) = true := by
    refine List.pairwise_mergeSort (fun a b c hab hbc => ?_) (fun a b => ?_) counts
    · rw [decide_eq_true_eq] at hab hbc ⊢
      exact Nat.le_trans hbc hab
    · rw [Bool.or_eq_true, decide_eq_true_eq, decide_eq_true_eq]
      exact Nat.le_total b a
  exact hsorted.imp of_decide_eq_true

theorem productOf_perm {ms ns : List Nat} (h : ms.Perm ns) : productOf ms = productOf ns := by
  rw [productOf_eq_prod, productOf_eq_prod, h.prod_eq]

/-- The largest counts have the greatest product, and are some of the counts. -/
theorem productOf_take_descending {counts : List Nat} (hk : k ≤ counts.length) :
    (∃ picked ∈ choose k counts, productOf picked = productOf ((descending counts).take k)) ∧
      ∀ picked ∈ choose k counts,
        productOf picked ≤ productOf ((descending counts).take k) := by
  constructor
  · -- Sorting moves the counts about, but the first ones are among them.
    have hsub : ((descending counts).take k).Subperm counts :=
      (List.take_sublist k _).subperm.trans (descending_perm counts).subperm
    rcases hsub with ⟨picked, hperm, hpicked⟩
    refine ⟨picked, mem_choose_iff.2 ⟨hpicked, ?_⟩, productOf_perm hperm⟩
    rw [hperm.length_eq, List.length_take, (descending_perm counts).length_eq, Nat.min_eq_left hk]
  · intro picked hpicked
    rcases mem_choose_iff.1 hpicked with ⟨hsub, hlen⟩
    -- In descending order, the same counts are some of the sorted ones.
    have hsorted : picked.Subperm (descending counts) :=
      hsub.subperm.trans (descending_perm counts).symm.subperm
    rcases hsorted with ⟨sorted, hperm, hsub'⟩
    have hle := productOf_le_take (pairwise_descending counts) hsub'
    rwa [productOf_perm hperm, hperm.length_eq, hlen] at hle

end Greatest

section Bound

variable {space : Space} {order : Nat} {submodels : List Submodel} {rows : List Row}

/-- The largest counts make the model's choice with the most value tuples. -/
theorem tupleCount_subsets (hpos : 1 ≤ order) (hle : order ≤ space.width) :
    (∃ positions ∈ subsets space.width order,
      tupleCount space positions = productOf ((descending space.counts).take order)) ∧
    ∀ positions ∈ subsets space.width order,
      tupleCount space positions ≤ productOf ((descending space.counts).take order) := by
  have hcounts : order ≤ space.counts.length := hle
  rcases productOf_take_descending hcounts with ⟨hmost, hgreatest⟩
  simp only [← map_count_subsets space hpos, List.mem_map, exists_exists_and_eq_and,
    forall_exists_index, and_imp, forall_apply_eq_imp_iff₂] at hmost hgreatest
  exact ⟨hmost, hgreatest⟩

/-- The bound is the greatest number of value tuples of a tracked choice, or
    the greatest count if that is less. -/
theorem rowLowerBoundWith_eq (submodels : List Submodel) (hpos : 1 ≤ order)
    (hle : order ≤ space.width) :
    ∃ most, (∃ positions ∈ trackedSubsets space order submodels,
        tupleCount space positions = most) ∧
      (∀ positions ∈ trackedSubsets space order submodels, tupleCount space positions ≤ most) ∧
      rowLowerBoundWith space order submodels = .ok (min most (countLimit - 1)) := by
  rcases tupleCount_subsets hpos hle with ⟨⟨widest, hwidest, hmost⟩, hgreatest⟩
  rcases foldl_max_spec ((extraSubsets order submodels).map (tupleCount space))
    (productOf ((descending space.counts).take order)) with ⟨hmem, hmax⟩
  rw [List.forall_mem_cons, List.forall_mem_map] at hmax
  refine ⟨((extraSubsets order submodels).map (tupleCount space)).foldl max
    (productOf ((descending space.counts).take order)), ?_, fun positions hpositions => ?_, ?_⟩
  · -- The greatest number is that of the largest counts or of an added choice.
    rcases List.mem_cons.1 hmem with hbase | hextra
    · exact ⟨widest, List.mem_append_left _ hwidest, hmost.trans hbase.symm⟩
    · rcases List.mem_map.1 hextra with ⟨positions, hpositions, heq⟩
      exact ⟨positions, List.mem_append_right _ hpositions, heq⟩
  · rcases List.mem_append.1 hpositions with h | h
    · exact Nat.le_trans (hgreatest positions h) hmax.1
    · exact hmax.2 positions h
  · have hbase : rowLowerBound space order =
        .ok (saturatingProduct ((descending space.counts).take order)) := by
      rw [rowLowerBound, Space.checkOrder_eq_ok_iff.2 ⟨hpos, hle⟩]
      rfl
    rw [rowLowerBoundWith, hbase, ← foldl_max_min, ← saturatingProduct_eq, List.map_map]
    simp only [saturatingProduct_eq]
    rfl

/-- Rows that meet every tracked obligation are at least as many as the value
    tuples of any tracked choice: each tuple is that of a row. -/
theorem tupleCount_le_length (hsub : ∀ s ∈ submodels, s.check space = .ok ())
    (hrows : ∀ row ∈ rows, row.length = space.width)
    (hmet : ∀ o ∈ trackedObligations space order submodels, o.MetBy rows)
    {positions : List Nat} (hpositions : positions ∈ trackedSubsets space order submodels) :
    tupleCount space positions ≤ rows.length := by
  have hchoice := choice_of_mem_trackedSubsets hsub hpositions
  have htuples : product (positions.map space.count) ⊆ rows.map (·.valuesAt positions) := by
    intro values hvalues
    have hlen : values.length = positions.length := by
      rw [length_of_mem_product hvalues, List.length_map]
    rcases hmet ⟨positions, values⟩ ((mem_trackedObligations_iff hsub).2 ⟨hpositions, hvalues⟩)
      with ⟨row, hrow, hsat⟩
    have hlt : ∀ p ∈ positions, p < row.length := fun p hp => by
      rw [hrows row hrow]
      exact hchoice.lt_width p hp
    exact List.mem_map.2 ⟨row, hrow, (Obligation.satisfiedBy_iff hlen hlt).1 hsat⟩
  -- No tuple is listed twice, so there are no more of them than rows.
  have hle := (List.subperm_of_subset (nodup_product _) htuples).length_le
  rwa [length_product, List.length_map] at hle

/-- The lower bound is one, and no other. Whatever rows the checker accepts
    without exclusions, there is a bound and they are at least as many. And for
    every order of the space, the bound is the greatest number of value tuples
    of a tracked choice, or `2 ^ 128 - 1` if that is less. -/
theorem rowLowerBoundWith_exact (space : Space) (order : Nat) (submodels : List Submodel) :
    (∀ (rows : List Row) (other : Space) (report : Report),
      checkCoverage rows space order (.empty other) submodels = .ok report →
        ∃ bound, rowLowerBoundWith space order submodels = .ok bound ∧ bound ≤ rows.length) ∧
    (1 ≤ order → order ≤ space.width →
      ∃ most, (∃ positions ∈ trackedSubsets space order submodels,
          productOf (positions.map space.count) = most) ∧
        (∀ positions ∈ trackedSubsets space order submodels,
          productOf (positions.map space.count) ≤ most) ∧
        rowLowerBoundWith space order submodels = .ok (min (2 ^ 128 - 1) most)) := by
  constructor
  · intro rows other report hreport
    have hindexed := ExclusionSet.indexed_ofLists (ExclusionSet.ofLists_nil other)
    rcases (checkCoverage_eq_ok_iff hindexed).1 hreport with ⟨hposed, hallows, hmissing, _⟩
    have hsub := hposed.submodels_ok
    have hmet : ∀ o ∈ trackedObligations space order submodels, o.MetBy rows := fun o ho =>
      Space.missing_eq_nil_iff.1 hmissing o ho (Space.feasible_nil (inSpace_of_mem_tracked hsub ho))
    rcases rowLowerBoundWith_eq submodels hposed.order_pos hposed.order_le with
      ⟨most, ⟨positions, hpositions, hmost⟩, _, hbound⟩
    have hle := tupleCount_le_length hsub
      (fun row hrow => Space.length_of_admits (hallows row hrow).1) hmet hpositions
    rw [hmost] at hle
    exact ⟨_, hbound, Nat.le_trans (Nat.min_le_left ..) hle⟩
  · intro hpos hle
    rcases rowLowerBoundWith_eq submodels hpos hle with ⟨most, hmost, hgreatest, hbound⟩
    refine ⟨most, hmost, hgreatest, ?_⟩
    rw [hbound, Nat.min_comm]
    rfl

/-- With a submodel of order three on three parameters with two values each, no
    row can be spared. -/
theorem rowLowerBoundWith_exact_cube :
    checkCoverage (product [2, 2, 2]) (.uniform 2 1) 2 (.empty (.uniform 2 1)) [⟨[0, 1, 2], 3⟩] =
        .ok ⟨8, 2, 20, 20, 0⟩ ∧
      ∃ bound, rowLowerBoundWith (.uniform 2 1) 2 [⟨[0, 1, 2], 3⟩] = .ok bound ∧ bound ≤ 8 := by
  have hreport : checkCoverage (product [2, 2, 2]) (.uniform 2 1) 2 (.empty (.uniform 2 1))
      [⟨[0, 1, 2], 3⟩] = .ok ⟨8, 2, 20, 20, 0⟩ := by decide +kernel
  exact ⟨hreport, (rowLowerBoundWith_exact (.uniform 2 1) 2 _).1 _ _ _ hreport⟩

end Bound

end Covering
