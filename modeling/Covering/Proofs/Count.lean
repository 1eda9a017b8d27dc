import Covering.Proofs.Generator.Outcome
import Covering.Proofs.Succession
import Mathlib.Tactic.Ring

/-!
# Counting without enumerating

The count of obligations is the length of their enumeration.

`obligationCount` knows nothing of choices of positions. It adds one parameter
after the other to the sums of all lower orders, so what it maintains is about
a part of the parameters: each entry is the elementary symmetric sum of the
counts so far (`symmetricSums_eq`). Its recursion takes a parameter off the end
of the list, while `choose` takes one off the front. `symmetricSum_concat` says
that it does not matter which end is taken off.

Whoever goes through the obligations, to check rows or to keep books on them,
goes through the same choices of positions and, on each, through as many value
tuples as the product of their counts. This fails for the empty choice alone,
which has a product of one but no tuples. It is never among the choices to be
covered, since both the model and a submodel choose some positions.

## Main definitions

* `symmetricSum`: An elementary symmetric sum.

## Theorems

* `symmetricSum_cons`, `symmetricSum_concat`: A count more, at either end.
* `symmetricSums_eq`: The sums that are maintained.
* `obligationCount_eq`: The count is a symmetric sum.
* `obligationCountWith_eq`, `length_trackedObligations`: The count and the
  obligations, by choices of positions.
* `total_tally`, `Ledger.total_start`: The checker and the books count the same.
* `obligationCountWith_exact`: All counts of obligations agree.
-/

namespace Covering

section SymmetricSum

/-- The elementary symmetric sum of the counts: the products of all choices of
    `k` of them, added up. -/
def symmetricSum (k : Nat) (counts : List Nat) : Nat :=
  sumOf ((choose k counts).map productOf)

@[simp] theorem symmetricSum_zero (counts : List Nat) : symmetricSum 0 counts = 1 := by
  rw [symmetricSum, choose_zero]
  rfl

@[simp] theorem symmetricSum_succ_nil (k : Nat) : symmetricSum (k + 1) [] = 0 := rfl

/-- One count more: choose it, or leave it out. -/
theorem symmetricSum_cons (k count : Nat) (counts : List Nat) :
    symmetricSum (k + 1) (count :: counts) =
      count * symmetricSum k counts + symmetricSum (k + 1) counts := by
  rw [symmetricSum, choose_succ_cons, List.map_append, sumOf_append, List.map_map, symmetricSum,
    ← sumOf_map_mul]
  rfl

/-- The same at the end of the list. -/
theorem symmetricSum_concat (k count : Nat) (counts : List Nat) :
    symmetricSum (k + 1) (counts ++ [count]) =
      symmetricSum (k + 1) counts + symmetricSum k counts * count := by
  induction counts generalizing k with
  | nil =>
      rw [List.nil_append, symmetricSum_cons]
      ring
  | cons first counts ih =>
      -- The choices with the first count are one shorter behind it.
      rw [List.cons_append, symmetricSum_cons, symmetricSum_cons, ih]
      cases k with
      | zero =>
          rw [symmetricSum_zero, symmetricSum_zero, symmetricSum_zero]
          ring
      | succ k =>
          rw [ih, symmetricSum_cons]
          ring

/-- One parameter more brings the sums of the counts before it to those of the
    counts with it. -/
theorem addParameter_eq (order count : Nat) (counts : List Nat) :
    addParameter count ((List.range (order + 1)).map (symmetricSum · counts)) =
      (List.range (order + 1)).map (symmetricSum · (counts ++ [count])) := by
  rw [addParameter]
  refine List.ext_getElem ?_ fun k hk hk' => ?_
  · simp only [List.length_cons, List.length_zipWith, List.length_tail, List.length_map,
      List.length_range]
    omega
  · -- Every sum but the first takes in what the one below it gives with the count.
    cases k with
    | zero =>
        rw [List.getElem_cons_zero, List.getElem_map, List.getElem_range, symmetricSum_zero]
    | succ k =>
        simp only [List.getElem_cons_succ, List.getElem_zipWith, List.getElem_tail,
          List.getElem_map, List.getElem_range, symmetricSum_concat]

/-- Before any parameter, the sum of order zero is one and the others are zero. -/
theorem sums_nil (order : Nat) :
    1 :: List.replicate order 0 = (List.range (order + 1)).map (symmetricSum · []) := by
  rw [List.range_succ_eq_map, List.map_cons, List.map_map, symmetricSum_zero]
  refine congrArg _ (List.eq_replicate_iff.2 ⟨?_, fun n hn => ?_⟩).symm
  · rw [List.length_map, List.length_range]
  · rcases List.mem_map.1 hn with ⟨k, _, rfl⟩
    exact symmetricSum_succ_nil k

/-- The sum that is looked up at the end. -/
theorem getD_sums (order : Nat) (counts : List Nat) :
    ((List.range (order + 1)).map (symmetricSum · counts)).getD order 0 =
      symmetricSum order counts := by
  rw [List.getD_eq_getElem?_getD, List.getElem?_map, List.getElem?_range (Nat.lt_succ_self order)]
  rfl

theorem checkedCount_eq_ok {n m : Nat} (h : checkedCount n = .ok m) : m = n := by
  rw [checkedCount] at h
  split at h
  · exact (Except.ok.inj h).symm
  · exact absurd h (by simp only [reduceCtorEq, not_false_eq_true])

/-- The sums that are maintained are those of the counts so far. -/
theorem symmetricSums_eq {order : Nat} {before counts sums : List Nat}
    (h : symmetricSums ((List.range (order + 1)).map (symmetricSum · before)) counts = .ok sums) :
    sums = (List.range (order + 1)).map (symmetricSum · (before ++ counts)) := by
  induction counts generalizing before with
  | nil =>
      rw [List.append_nil]
      exact (Except.ok.inj h).symm
  | cons count counts ih =>
      rw [symmetricSums] at h
      split at h
      · exact absurd h (by simp only [reduceCtorEq, not_false_eq_true])
      · rename_i next hnext
        rw [eq_of_mapM_ok (fun _ _ => checkedCount_eq_ok) hnext, addParameter_eq] at h
        rw [ih h, List.append_assoc, List.singleton_append]

end SymmetricSum

section Counts

variable {space : Space} {order total : Nat}

/-- The number of obligations is a symmetric sum of the counts. -/
theorem obligationCount_eq (h : obligationCount space order = .ok total) :
    1 ≤ order ∧ total = symmetricSum order space.counts := by
  rcases bind_eq_ok_iff.1 h with ⟨_, horder, h⟩
  rcases bind_eq_ok_iff.1 h with ⟨sums, hsums, h⟩
  refine ⟨(Space.checkOrder_eq_ok_iff.1 (orInvalid_eq_ok_iff.1 horder)).1, ?_⟩
  rw [sums_nil] at hsums
  rw [← pure_eq_ok_iff.1 h, symmetricSums_eq hsums, List.nil_append, getD_sums]

/-- What the model's choices add up to is a symmetric sum of the counts. -/
theorem sumOf_tupleCount_subsets (space : Space) (h : 1 ≤ order) :
    sumOf ((subsets space.width order).map (tupleCount space)) =
      symmetricSum order space.counts := by
  rw [symmetricSum, ← map_count_subsets space h, List.map_map]
  rfl

theorem addSubsets_eq {choices : List (List Nat)} {count : Nat}
    (h : addSubsets space total choices = .ok count) :
    count = total + sumOf (choices.map (tupleCount space)) := by
  induction choices generalizing total with
  | nil => exact (Except.ok.inj h).symm
  | cons positions rest ih =>
      rw [addSubsets] at h
      split at h
      · exact absurd h (by simp only [reduceCtorEq, not_false_eq_true])
      · rename_i next hnext
        rw [ih h, checkedCount_eq_ok hnext, List.map_cons, sumOf, Nat.add_assoc]

/-- The count with submodels adds the tracked choices up. -/
theorem obligationCountWith_eq {submodels : List Submodel}
    (h : obligationCountWith space order submodels = .ok total) :
    total = sumOf ((trackedSubsets space order submodels).map (tupleCount space)) := by
  rcases bind_eq_ok_iff.1 h with ⟨base, hbase, hextra⟩
  rcases obligationCount_eq hbase with ⟨horder, rfl⟩
  rw [addSubsets_eq hextra, trackedSubsets, List.map_append, sumOf_append,
    sumOf_tupleCount_subsets space horder]

theorem length_obligationsOn (space : Space) {positions : List Nat} (h : positions ≠ []) :
    (obligationsOn space positions).length = tupleCount space positions := by
  rw [obligationsOn, List.length_map,
    tuples_of_ne_nil fun hmap => h (List.map_eq_nil_iff.1 hmap), length_product, tupleCount]

/-- Obligations are as many as the value tuples of the choices. -/
theorem length_flatMap_obligationsOn (space : Space) {choices : List (List Nat)}
    (h : ∀ positions ∈ choices, positions ≠ []) :
    (choices.flatMap (obligationsOn space)).length =
      sumOf (choices.map (tupleCount space)) := by
  rw [List.length_flatMap, sumOf_eq_sum]
  exact congrArg _ (List.map_congr_left fun positions hmem =>
    length_obligationsOn space (h positions hmem))

theorem length_trackedObligations (space : Space) (order : Nat) (submodels : List Submodel) :
    (trackedObligations space order submodels).length =
      sumOf ((trackedSubsets space order submodels).map (tupleCount space)) :=
  length_flatMap_obligationsOn space fun _ => ne_nil_of_mem_trackedSubsets

end Counts

section Totals

variable {space : Space} {order : Nat} {submodels : List Submodel} {set : ExclusionSet}
  {rows : List Row}

namespace Tally

theorem total_foldl {α : Type} {step : Tally → α → Tally} {size : α → Nat}
    (h : ∀ tally a, (step tally a).total = tally.total + size a) (as : List α) (tally : Tally) :
    (as.foldl step tally).total = tally.total + sumOf (as.map size) := by
  induction as generalizing tally with
  | nil => rfl
  | cons a as ih => rw [List.foldl_cons, ih, h, List.map_cons, sumOf, Nat.add_assoc]

/-- Every obligation is counted once, whatever becomes of it. -/
theorem total_add (space : Space) (set : ExclusionSet) (seen : List (List Nat)) (tally : Tally)
    (o : Obligation) : (tally.add space set seen o).total = tally.total + 1 := by
  rw [add]
  split
  · simp only [total]
    omega
  · split <;> simp only [total, List.length_cons] <;> omega

theorem total_addSubset (space : Space) (set : ExclusionSet) (rows : List Row) (tally : Tally)
    (positions : List Nat) :
    (tally.addSubset space set rows positions).total =
      tally.total + (obligationsOn space positions).length := by
  rw [addSubset, total_foldl (total_add space set (project rows positions)), List.map_const',
    sumOf_eq_sum, List.sum_replicate_nat, Nat.mul_one]

end Tally

/-- The checker counts the tracked obligations, whatever the rows and the
    exclusions are. -/
theorem total_tally (space : Space) (order : Nat) (set : ExclusionSet) (submodels : List Submodel)
    (rows : List Row) :
    (tally space order set submodels rows).total =
      (trackedObligations space order submodels).length := by
  rw [tally, Tally.total_foldl (Tally.total_addSubset space set rows), trackedObligations,
    List.length_flatMap, sumOf_eq_sum]
  exact Nat.zero_add _

theorem obligationsTotal_of_checkCoverage {report : Report}
    (h : checkCoverage rows space order set submodels = .ok report) :
    report.obligationsTotal = (trackedObligations space order submodels).length := by
  rw [checkCoverage_eq (wellPosed_of_checkCoverage h)] at h
  split at h
  · exact absurd h (by simp only [reduceCtorEq, not_false_eq_true])
  · simp only at h
    split at h
    · rw [← Except.ok.inj h]
      exact total_tally ..
    · exact absurd h (by simp only [reduceCtorEq, not_false_eq_true])

/-- The books have a cell for each tracked obligation, whatever is excluded. -/
theorem Ledger.total_start (space : Space) (order : Nat) (submodels : List Submodel)
    (set : ExclusionSet) :
    (start space order submodels set).total =
      (trackedObligations space order submodels).length := by
  rw [length_trackedObligations]
  have htables : (ofTables ((trackedSubsets space order submodels).map
      (Table.ofPositions space))).total =
        sumOf ((trackedSubsets space order submodels).map (tupleCount space)) := by
    rw [ofTables, List.map_map]
    refine congrArg sumOf (List.map_congr_left fun positions _ => ?_)
    exact Array.size_replicate
  rw [start]
  split
  · exact htables
  · rw [excludeBlocked]
    refine List.foldlRecOn (motive := fun ledger : Ledger => ledger.total = _) _ _ htables
      fun ledger h ref _ => ?_
    split
    · rw [total_exclude, h]
    · exact h

/-- All counts of obligations agree. When counting them with submodels does not
    overflow, the count is the number of pairs of a choice of positions and a
    value tuple: those on the model's choices of positions, which their
    successors go through one after the other, and those on the choices that
    submodels add, each with its value tuples, which are gone through in the
    same way. A successful check of rows reports this number as its total, the
    books at the start of a run hold it, and a run that passes its checks
    returns it in its statistics. And the count without submodels is the length
    of the enumeration of obligations by successors. -/
theorem obligationCountWith_exact {count : Nat}
    (h : obligationCountWith space order submodels = .ok count) :
    (Visits (Subset.next? space.width) (Subset.first? space.width order)
        (subsets space.width order) none ∧
      (∀ radices, Visits (Tuple.next? radices) (Tuple.first? radices) (tuples radices) none) ∧
      count = ((subsets space.width order ++ extraSubsets order submodels).flatMap
        fun positions => (tuples (positions.map space.count)).map
          fun values => (positions, values)).length) ∧
    (∀ (rows : List Row) (set : ExclusionSet) (report : Report),
      checkCoverage rows space order set submodels = .ok report →
        report.obligationsTotal = count) ∧
    (∀ set, (Ledger.start space order submodels set).total = count) ∧
    (∀ (g : Generator) (raw : List (List Binding)) (seed : Nat), g.Accepted raw →
      g.space = space → g.order = order → g.submodels = submodels → g.check = .ok () →
        ∃ array statistics, g.run seed = .ok (array, statistics) ∧
          statistics.obligationsTotal = count) ∧
    ∀ plain, obligationCount space order = .ok plain →
      Visits (Obligation.next? space) (Obligation.first? space order) (obligations space order)
        none ∧ plain = (obligations space order).length := by
  have htracked : (trackedObligations space order submodels).length = count := by
    rw [length_trackedObligations, obligationCountWith_eq h]
  refine ⟨⟨visits_subsets .., visits_tuples, ?_⟩, fun rows set report hreport => ?_, fun set => ?_,
    fun g raw seed hg hspace horder hsubmodels hcheck => ?_, fun plain hplain => ?_⟩
  · rw [← htracked, trackedObligations, trackedSubsets, List.length_flatMap, List.length_flatMap]
    simp only [obligationsOn, List.length_map]
  · rw [obligationsTotal_of_checkCoverage hreport, htracked]
  · rw [Ledger.total_start, htracked]
  · have hrun : g.run seed = .ok (_, _) := Generator.run_eq_ok_iff.2 ⟨hcheck, rfl, rfl⟩
    refine ⟨_, _, hrun, ?_⟩
    rw [(Generator.statistics_of_run hg hrun).1, Generator.tracked, hspace, horder, hsubmodels,
      htracked]
  · rcases obligationCount_eq hplain with ⟨hpos, rfl⟩
    refine ⟨visits_obligations .., ?_⟩
    rw [obligations, length_flatMap_obligationsOn space fun _ => ne_nil_of_mem_subsets,
      sumOf_tupleCount_subsets space hpos]

/-- The sample has twelve obligations on pairs and eight on the triple that its
    submodel adds. -/
theorem obligationCountWith_exact_sample :
    obligationCountWith Generator.sample.space 2 [⟨[0, 1, 2], 3⟩] = .ok 20 ∧
      20 = ((subsets 3 2 ++ extraSubsets 2 [⟨[0, 1, 2], 3⟩]).flatMap
        fun positions => (tuples (positions.map Generator.sample.space.count)).map
          fun values => (positions, values)).length ∧
      (∃ array statistics, Generator.sample.run 2 = .ok (array, statistics) ∧
        statistics.obligationsTotal = 20) ∧
      12 = (obligations Generator.sample.space 2).length := by
  have hcount : obligationCountWith Generator.sample.space 2 [⟨[0, 1, 2], 3⟩] = .ok 20 := by
    decide +kernel
  rcases obligationCountWith_exact hcount with ⟨hpairs, _, _, hrun, hplain⟩
  exact ⟨hcount, hpairs.2.2, hrun Generator.sample _ 2 Generator.accepted_sample rfl rfl rfl
    (Generator.run_eq_ok_iff.1 Generator.run_sample).1, (hplain 12 (by decide +kernel)).2⟩

end Totals

end Covering
