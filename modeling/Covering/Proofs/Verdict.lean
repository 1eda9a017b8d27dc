import Covering.Coverage.Report
import Covering.Proofs.Checks
import Covering.Proofs.Completion

/-!
# The verdict on rows

The checker accepts exactly the rows that cover, and its counts and errors say
exactly what is so.

The checker never asks whether a row satisfies an obligation. It projects the
rows to each choice of positions, looks value tuples up among the projections,
and searches for a completion only of tuples that it has not seen. `add_eq`
turns one such step into the three-way case distinction it stands for: the
obligation is met by a row, or else feasible and so missing, or else neither.
Counting through all obligations is then counting the members of three classes
of a list (`tally_eq`).

Feasibility is not looked at for what has been seen, which is right only for
rows without exclusion: what such a row meets is feasible. This is why the
number of excluded obligations does not depend on the rows
(`countP_unmet_infeasible`).

## Main definitions

* `Obligation.MetBy`: Some row satisfies the obligation.
* `Space.WellPosed`: The order and the submodels fit the space.
* `Space.missing`: The feasible obligations that no row meets.
* `Tally.sorted`: What a tally of obligations should be.
* `fullReport`: The report on rows from which nothing is missing.

## Theorems

* `add_eq`: One obligation, judged.
* `tally_eq`: All obligations, judged.
* `countP_met_add_infeasible`: Met and infeasible obligations add up.
* `rowError?_eq_none_iff`: The rows that nothing is wrong with.
* `rowError?_of_not_admits`, `rowError?_of_not_avoids`: What is wrong with
  others.
* `findSome?_rowError?`: The first faulty row.
* `checkCoverage_eq`: The verdict on a well-posed request.
* `checkCoverage_eq_ok_iff`: The rows that get a report, and which.
* `checkCoverage_exact`: Acceptance, counts and errors are exact.
-/

namespace Covering

/-- Some row satisfies the obligation. -/
def Obligation.MetBy (o : Obligation) (rows : List Row) : Prop :=
  ∃ row ∈ rows, o.satisfiedBy row = true

instance (o : Obligation) (rows : List Row) : Decidable (o.MetBy rows) :=
  inferInstanceAs (Decidable (∃ row ∈ rows, o.satisfiedBy row = true))

namespace Space

/-- What an allowed row contains is feasible. -/
theorem feasible_of_metBy {space : Space} {lists : List (List Binding)} {rows : List Row}
    (hrows : ∀ row ∈ rows, space.Allows lists row) {o : Obligation} (h : o.MetBy rows) :
    space.Feasible lists o := by
  rcases h with ⟨row, hrow, hsat⟩
  exact ⟨row, (hrows row hrow).1, (hrows row hrow).2, hsat⟩

/-- The order of interaction and the submodels fit the space. -/
structure WellPosed (space : Space) (order : Nat) (submodels : List Submodel) : Prop where
  order_pos : 1 ≤ order
  order_le : order ≤ space.width
  submodels_ok : ∀ s ∈ submodels, s.check space = .ok ()

theorem valueFault?_eq_none_iff {position : Nat} {row : Row} {counts : List Nat}
    (hlen : row.length = counts.length) :
    valueFault? position row counts = none ↔ (row.zip counts).all (fun e => e.1 < e.2) = true := by
  induction row generalizing position counts with
  | nil => cases counts <;> simp only [valueFault?, List.zip_nil_left, List.all_nil]
  | cons v row ih =>
      cases counts with
      | nil => exact absurd hlen (Nat.succ_ne_zero _)
      | cons c counts =>
          rw [List.length_cons, List.length_cons, Nat.add_right_cancel_iff] at hlen
          rw [valueFault?, List.zip_cons_cons, List.all_cons, Bool.and_eq_true, decide_eq_true_eq]
          split
          · rename_i hlt
            rw [ih hlen]
            exact ⟨fun h => ⟨hlt, h⟩, fun h => h.2⟩
          · rename_i hge
            exact ⟨fun h => absurd h (by simp only [reduceCtorEq, not_false_eq_true]),
              fun h => absurd h.1 hge⟩

/-- The rows without fault are the rows of the space. -/
theorem rowFault?_eq_none_iff {space : Space} {row : Row} :
    space.rowFault? row = none ↔ space.admits row = true := by
  rw [rowFault?, admits, Bool.and_eq_true, beq_iff_eq]
  split
  · rename_i hlen
    rw [valueFault?_eq_none_iff hlen]
    exact ⟨fun h => ⟨hlen, h⟩, fun h => h.2⟩
  · rename_i hlen
    exact ⟨fun h => absurd h (by simp only [reduceCtorEq, not_false_eq_true]),
      fun h => absurd h.1 hlen⟩

/-- The obligations that some allowed row contains and none of the rows does. -/
def missing (space : Space) (lists : List (List Binding)) (rows : List Row)
    (os : List Obligation) : List Obligation :=
  os.filter fun o => ¬ o.MetBy rows ∧ space.Feasible lists o

theorem missing_eq_nil_iff {space : Space} {lists : List (List Binding)} {rows : List Row}
    {os : List Obligation} :
    space.missing lists rows os = [] ↔ ∀ o ∈ os, space.Feasible lists o → o.MetBy rows := by
  rw [missing, List.filter_eq_nil_iff]
  refine forall₂_congr fun o _ => ?_
  rw [decide_eq_true_eq, not_and, not_imp_not]

section OfLists

variable {space other : Space} {raw : List (List Binding)} {set : ExclusionSet}

theorem allows_ofLists_iff (h : ExclusionSet.ofLists other raw = .ok set) {row : Row} :
    space.Allows set.lists row ↔ space.Allows raw row :=
  and_congr_right fun _ => ExclusionSet.avoids_ofLists_iff h

theorem missing_ofLists (h : ExclusionSet.ofLists other raw = .ok set) (rows : List Row)
    (os : List Obligation) : space.missing set.lists rows os = space.missing raw rows os :=
  List.filter_congr fun o _ => by rw [decide_eq_decide, feasible_ofLists_iff h]

theorem countP_infeasible_ofLists (h : ExclusionSet.ofLists other raw = .ok set)
    (os : List Obligation) :
    os.countP (fun o => ¬ space.Feasible set.lists o) =
      os.countP fun o => ¬ space.Feasible raw o :=
  List.countP_congr fun o _ => by
    rw [decide_eq_true_eq, decide_eq_true_eq, feasible_ofLists_iff h]

end OfLists

end Space

namespace Tally

/-- What a tally should be after these obligations: those met by a row, those
    that are neither met nor feasible, and the rest, which is missing. -/
def sorted (space : Space) (lists : List (List Binding)) (rows : List Row)
    (os : List Obligation) (tally : Tally) : Tally where
  covered := tally.covered + os.countP fun o => o.MetBy rows
  excluded := tally.excluded + os.countP fun o => ¬ o.MetBy rows ∧ ¬ space.Feasible lists o
  missing := (space.missing lists rows os).reverse ++ tally.missing

section Sorted

variable {space : Space} {set : ExclusionSet} {rows : List Row}

/-- A value tuple is seen among the projections when some row meets its
    obligation. -/
theorem contains_project_iff (hrows : ∀ row ∈ rows, row.length = space.width)
    {positions : List Nat} (hpos : space.Choice positions) {o : Obligation}
    (ho : o ∈ obligationsOn space positions) :
    (project rows positions).contains o.values = true ↔ o.MetBy rows := by
  rcases (mem_obligationsOn_iff hpos).1 ho with ⟨hpositions, hvalues⟩
  have hlen : o.values.length = o.positions.length := by
    rw [length_of_mem_product hvalues, List.length_map, hpositions]
  -- A row projects to the values exactly if it satisfies the obligation.
  have hsat : ∀ row ∈ rows, row.valuesAt positions = o.values ↔ o.satisfiedBy row = true := by
    intro row hrow
    rw [← hpositions, ← Obligation.satisfiedBy_iff hlen fun p hp => ?_]
    rw [hrows row hrow]
    exact hpos.lt_width p (hpositions ▸ hp)
  rw [List.contains_eq_mem, decide_eq_true_eq, project, List.mem_map]
  exact exists_congr fun row => and_congr_right fun hrow => hsat row hrow

/-- What the checker takes to be infeasible is so. An empty set of exclusions
    needs no search. -/
theorem infeasible_iff (hset : set.Indexed) {o : Obligation} (ho : o.InSpace space) :
    (!set.isEmpty && !set.feasible space o) = true ↔ ¬ space.Feasible set.lists o := by
  rw [← ExclusionSet.feasible_iff hset ho, Bool.and_eq_true, Bool.not_eq_true',
    Bool.not_eq_true', Bool.not_eq_true]
  refine ⟨fun h => h.2, fun h => ⟨?_, h⟩⟩
  -- If nothing is excluded, the obligation is feasible.
  by_contra hempty
  rw [Bool.not_eq_false, ExclusionSet.isEmpty, List.isEmpty_iff] at hempty
  have hfeasible : space.Feasible set.lists o := by
    rw [ExclusionSet.lists, hempty]
    exact Space.feasible_nil ho
  rw [← ExclusionSet.feasible_iff hset ho, h] at hfeasible
  exact absurd hfeasible (by decide)

/-- One obligation, judged. -/
theorem add_eq (hset : set.Indexed) (hrows : ∀ row ∈ rows, row.length = space.width)
    {positions : List Nat} (hpos : space.Choice positions) {o : Obligation}
    (ho : o ∈ obligationsOn space positions) (tally : Tally) :
    tally.add space set (project rows positions) o = tally.sorted space set.lists rows [o] := by
  have hspace : o.InSpace space := by
    rcases (mem_obligationsOn_iff hpos).1 ho with ⟨hpositions, hvalues⟩
    rcases o with ⟨_, _⟩
    subst hpositions
    exact Obligation.inSpace_of_choice hpos hvalues
  simp only [add, sorted, Space.missing, contains_project_iff hrows hpos ho,
    infeasible_iff hset hspace, List.countP_singleton, List.filter_cons, List.filter_nil,
    decide_eq_true_eq]
  -- Seen, or not seen and missing, or not seen and infeasible.
  by_cases hmet : o.MetBy rows
  · simp [hmet]
  · by_cases hfeasible : space.Feasible set.lists o <;> simp [hmet, hfeasible]

@[simp] theorem sorted_nil (space : Space) (lists : List (List Binding)) (rows : List Row)
    (tally : Tally) : tally.sorted space lists rows [] = tally := by
  simp only [sorted, Space.missing, List.countP_nil, List.filter_nil, List.reverse_nil,
    List.nil_append, Nat.add_zero]

theorem sorted_append (lists : List (List Binding)) (os os' : List Obligation) (tally : Tally) :
    tally.sorted space lists rows (os ++ os') =
      (tally.sorted space lists rows os).sorted space lists rows os' := by
  simp only [sorted, Space.missing, List.countP_append, List.filter_append, List.reverse_append,
    List.append_assoc, Nat.add_assoc]

/-- The three classes are all there are. -/
theorem total_sorted (space : Space) (lists : List (List Binding)) (rows : List Row)
    (os : List Obligation) :
    (sorted space lists rows os {}).total = os.length := by
  induction os with
  | nil => rfl
  | cons o os ih =>
      simp only [total, sorted, Space.missing, List.countP_cons, List.filter_cons,
        List.append_nil, List.length_reverse, List.length_cons, Nat.zero_add,
        decide_eq_true_eq] at ih ⊢
      -- Each obligation falls into one class.
      by_cases hmet : o.MetBy rows
      · simp only [hmet, not_true_eq_false, false_and, if_true, if_false]
        omega
      · by_cases hfeasible : space.Feasible lists o
        · simp only [hmet, hfeasible, not_false_eq_true, not_true_eq_false, and_true, and_false,
            if_true, if_false, List.length_cons]
          omega
        · simp only [hmet, hfeasible, not_false_eq_true, and_true, and_false, if_true, if_false]
          omega

/-- All obligations on one choice of positions, judged. -/
theorem addSubset_eq (hset : set.Indexed) (hrows : ∀ row ∈ rows, row.length = space.width)
    {positions : List Nat} (hpos : space.Choice positions) (tally : Tally) :
    tally.addSubset space set rows positions =
      tally.sorted space set.lists rows (obligationsOn space positions) := by
  have hfold : ∀ (os : List Obligation) (tally : Tally), os ⊆ obligationsOn space positions →
      os.foldl (add space set (project rows positions)) tally =
        tally.sorted space set.lists rows os := by
    intro os
    induction os with
    | nil => exact fun tally _ => (sorted_nil ..).symm
    | cons o os ih =>
        intro tally hsub
        rw [List.cons_subset] at hsub
        rw [List.foldl_cons, add_eq hset hrows hpos hsub.1, ih _ hsub.2, ← sorted_append,
          List.singleton_append]
  exact hfold _ tally fun _ h => h

end Sorted

end Tally

section Verdict

variable {space : Space} {set : ExclusionSet} {rows : List Row} {order : Nat}
  {submodels : List Submodel}

/-- All obligations, judged. -/
theorem tally_eq (order : Nat) (hset : set.Indexed)
    (hrows : ∀ row ∈ rows, row.length = space.width)
    (hsub : ∀ s ∈ submodels, s.check space = .ok ()) :
    tally space order set submodels rows =
      Tally.sorted space set.lists rows (trackedObligations space order submodels) {} := by
  have hfold : ∀ (choices : List (List Nat)) (t : Tally), (∀ c ∈ choices, space.Choice c) →
      choices.foldl (Tally.addSubset space set rows) t =
        t.sorted space set.lists rows (choices.flatMap (obligationsOn space)) := by
    intro choices
    induction choices with
    | nil => exact fun t _ => (Tally.sorted_nil ..).symm
    | cons c choices ih =>
        intro t hchoices
        rw [List.forall_mem_cons] at hchoices
        rw [List.foldl_cons, Tally.addSubset_eq hset hrows hchoices.1, ih _ hchoices.2,
          List.flatMap_cons, Tally.sorted_append]
  exact hfold _ {} fun c hc => choice_of_mem_trackedSubsets hsub hc

/-- Of rows without exclusion nothing has to be known to count what is
    excluded, since all that they meet is feasible. -/
theorem countP_unmet_infeasible {lists : List (List Binding)}
    (hrows : ∀ row ∈ rows, space.Allows lists row) (os : List Obligation) :
    os.countP (fun o => ¬ o.MetBy rows ∧ ¬ space.Feasible lists o) =
      os.countP fun o => ¬ space.Feasible lists o := by
  refine List.countP_congr fun o _ => ?_
  rw [decide_eq_true_eq, decide_eq_true_eq]
  exact ⟨fun h => h.2, fun h => ⟨fun hmet => h (Space.feasible_of_metBy hrows hmet), h⟩⟩

/-- Met and infeasible obligations are all there are when nothing is missing. -/
theorem countP_met_add_infeasible {lists : List (List Binding)} {os : List Obligation}
    (hrows : ∀ row ∈ rows, space.Allows lists row) (h : space.missing lists rows os = []) :
    os.countP (fun o => o.MetBy rows) + os.countP (fun o => ¬ space.Feasible lists o) =
      os.length := by
  have htotal := Tally.total_sorted space lists rows os
  simp only [Tally.total, Tally.sorted, h, List.reverse_nil, List.append_nil, List.length_nil,
    Nat.zero_add, Nat.add_zero, countP_unmet_infeasible hrows] at htotal
  exact htotal

/-- The shape of a row that is not one of the space is named. -/
theorem rowError?_of_not_admits {row : Row} (i : Nat) (h : space.admits row = false) :
    ∃ fault, space.rowFault? row = some fault ∧
      rowError? space set (row, i) = some (.malformedRow i fault) := by
  cases hfault : space.rowFault? row with
  | none =>
      rw [Space.rowFault?_eq_none_iff.1 hfault] at h
      exact absurd h (by decide)
  | some fault => exact ⟨fault, rfl, by rw [rowError?, hfault]⟩

/-- Of a row of the space, the first member of the set that it contains is
    named. -/
theorem rowError?_of_not_avoids {row : Row} (i : Nat) (hadmits : space.admits row = true)
    (h : ¬ row.Avoids set.lists) :
    ∃ e, set.violation? row = some e ∧
      rowError? space set (row, i) = some (.excludedRow i e.bindings) := by
  cases hviolation : set.violation? row with
  | none => exact absurd (ExclusionSet.avoids_iff.2 hviolation) h
  | some e =>
      refine ⟨e, rfl, ?_⟩
      rw [rowError?, Space.rowFault?_eq_none_iff.2 hadmits, hviolation, Option.map_some]

/-- The rows that nothing is wrong with. -/
theorem rowError?_eq_none_iff {entry : Row × Nat} :
    rowError? space set entry = none ↔ space.Allows set.lists entry.1 := by
  rw [rowError?, Space.Allows, ← Space.rowFault?_eq_none_iff, ExclusionSet.avoids_iff]
  split
  · rename_i fault hfault
    rw [hfault]
    simp only [reduceCtorEq, false_and]
  · rename_i hfault
    simp only [hfault, Option.map_eq_none_iff, true_and]

/-- No row is faulty when all are allowed. -/
theorem findSome?_rowError?_eq_none_iff :
    rows.zipIdx.findSome? (rowError? space set) = none ↔
      ∀ row ∈ rows, space.Allows set.lists row := by
  rw [List.findSome?_eq_none_iff]
  constructor
  · intro h row hrow
    rcases List.mem_iff_getElem.1 hrow with ⟨i, hi, rfl⟩
    exact rowError?_eq_none_iff.1 (h (rows[i], i) (List.mk_mem_zipIdx_iff_getElem?.2
      (List.getElem?_eq_getElem hi)))
  · intro h entry hentry
    exact rowError?_eq_none_iff.2 (h entry.1 (List.fst_mem_of_mem_zipIdx hentry))

/-- The first element of a list that has an answer decides, when those before
    it have none. -/
theorem findSome?_zipIdx {α β : Type} {f : α × Nat → Option β} {as : List α} {n i : Nat} {a : α}
    {b : β} (hi : as[i]? = some a) (hb : f (a, n + i) = some b)
    (hbefore : ∀ j c, j < i → as[j]? = some c → f (c, n + j) = none) :
    (as.zipIdx n).findSome? f = some b := by
  induction as generalizing n i with
  | nil => exact absurd hi (by simp only [List.getElem?_nil, reduceCtorEq, not_false_eq_true])
  | cons c as ih =>
      rw [List.zipIdx_cons, List.findSome?_cons]
      cases i with
      | zero =>
          rw [List.getElem?_cons_zero, Option.some.injEq] at hi
          rw [hi, ← Nat.add_zero n, hb]
      | succ i =>
          -- The first element has no answer, so the search goes on behind it.
          have hc : f (c, n) = none := hbefore 0 c (Nat.succ_pos i) rfl
          rw [hc]
          refine ih hi (by rw [← hb, Nat.add_right_comm n 1 i]; rfl) fun j d hj hd => ?_
          rw [Nat.add_right_comm n 1 j]
          exact hbefore (j + 1) d (Nat.succ_lt_succ hj) hd

/-- The first faulty row is the one that is named. -/
theorem findSome?_rowError? {i : Nat} {row : Row} {e : CoverError} (hi : rows[i]? = some row)
    (he : rowError? space set (row, i) = some e)
    (hbefore : ∀ (j : Nat) (earlier : Row), j < i → rows[j]? = some earlier →
      space.Allows set.lists earlier) :
    rows.zipIdx.findSome? (rowError? space set) = some e := by
  refine findSome?_zipIdx hi (by rw [Nat.zero_add]; exact he) fun j earlier hj hearlier => ?_
  exact rowError?_eq_none_iff.2 (hbefore j earlier hj hearlier)

/-- A request that is not well posed gets no report. -/
theorem wellPosed_of_checkCoverage {report : Report}
    (h : checkCoverage rows space order set submodels = .ok report) :
    space.WellPosed order submodels := by
  rw [checkCoverage] at h
  rcases bind_eq_ok_iff.1 h with ⟨_, horder, h⟩
  rcases bind_eq_ok_iff.1 h with ⟨_, hsub, _⟩
  rcases Space.checkOrder_eq_ok_iff.1 (orInvalid_eq_ok_iff.1 horder) with ⟨hpos, hle⟩
  exact ⟨hpos, hle, forM_eq_ok_iff.1 (orInvalid_eq_ok_iff.1 hsub)⟩

/-- The verdict on a well-posed request: the first faulty row if there is one,
    and what follows from the tally otherwise. -/
theorem checkCoverage_eq (h : space.WellPosed order submodels) :
    checkCoverage rows space order set submodels =
      match rows.zipIdx.findSome? (rowError? space set) with
      | some e => .error e
      | none =>
        let counts := tally space order set submodels rows
        if counts.missing.isEmpty then
          .ok { rows := rows.length
                order
                obligationsTotal := counts.total
                obligationsCovered := counts.covered
                obligationsExcluded := counts.excluded }
        else .error (.coverageGap counts.missing.length (counts.missing.reverse.take reportedGaps))
    := by
  rw [checkCoverage, Space.checkOrder_eq_ok_iff.2 ⟨h.order_pos, h.order_le⟩,
    forM_eq_ok_iff.2 h.submodels_ok]
  rfl

/-- The report on rows from which nothing is missing. -/
def fullReport (space : Space) (lists : List (List Binding)) (rows : List Row) (order : Nat)
    (submodels : List Submodel) : Report :=
  let tracked := trackedObligations space order submodels
  { rows := rows.length
    order
    obligationsTotal := tracked.length
    obligationsCovered := tracked.countP fun o => o.MetBy rows
    obligationsExcluded := tracked.countP fun o => ¬ space.Feasible lists o }

/-- The verdict on allowed rows: their gaps, or a report without gaps. -/
theorem checkCoverage_of_allows (hset : set.Indexed) (h : space.WellPosed order submodels)
    (hrows : ∀ row ∈ rows, space.Allows set.lists row) :
    checkCoverage rows space order set submodels =
      let missing := space.missing set.lists rows (trackedObligations space order submodels)
      if missing = [] then .ok (fullReport space set.lists rows order submodels)
      else .error (.coverageGap missing.length (missing.take reportedGaps)) := by
  have hlen : ∀ row ∈ rows, row.length = space.width := by
    intro row hrow
    exact Space.length_of_admits (hrows row hrow).1
  have htally := tally_eq order hset hlen h.submodels_ok
  have htotal := Tally.total_sorted space set.lists rows (trackedObligations space order submodels)
  -- No row is faulty, so the tally decides.
  rw [checkCoverage_eq h, findSome?_rowError?_eq_none_iff.2 hrows]
  simp only [htally, htotal]
  simp only [Tally.sorted, fullReport, List.append_nil, List.isEmpty_reverse, List.isEmpty_iff,
    List.length_reverse, List.reverse_reverse, Nat.zero_add, countP_unmet_infeasible hrows]

/-- Rows get a report when the request is well posed, they are allowed, and
    nothing is missing from them. -/
theorem checkCoverage_eq_ok_iff (hset : set.Indexed) {report : Report} :
    checkCoverage rows space order set submodels = .ok report ↔
      space.WellPosed order submodels ∧ (∀ row ∈ rows, space.Allows set.lists row) ∧
        space.missing set.lists rows (trackedObligations space order submodels) = [] ∧
        report = fullReport space set.lists rows order submodels := by
  constructor
  · intro hok
    have hposed := wellPosed_of_checkCoverage hok
    -- A faulty row would have been reported instead.
    have hrows : ∀ row ∈ rows, space.Allows set.lists row := by
      rw [← findSome?_rowError?_eq_none_iff]
      rw [checkCoverage_eq hposed] at hok
      split at hok
      · exact absurd hok (by simp only [reduceCtorEq, not_false_eq_true])
      · assumption
    rw [checkCoverage_of_allows hset hposed hrows] at hok
    simp only at hok
    split at hok
    · rename_i hmissing
      exact ⟨hposed, hrows, hmissing, (Except.ok.inj hok).symm⟩
    · exact absurd hok (by simp only [reduceCtorEq, not_false_eq_true])
  · rintro ⟨hposed, hrows, hmissing, rfl⟩
    rw [checkCoverage_of_allows hset hposed hrows]
    exact if_pos hmissing

/-- The verdict names the first faulty row. -/
theorem checkCoverage_of_rowError? (h : space.WellPosed order submodels) {i : Nat} {row : Row}
    {e : CoverError} (hi : rows[i]? = some row) (he : rowError? space set (row, i) = some e)
    (hbefore : ∀ (j : Nat) (earlier : Row), j < i → rows[j]? = some earlier →
      space.Allows set.lists earlier) :
    checkCoverage rows space order set submodels = .error e := by
  rw [checkCoverage_eq h, findSome?_rowError? hi he hbefore]

/-- Acceptance, counts and errors of the checker are exact, for exclusions that
    were built from combinations on this space or on any other.

    Rows are accepted when the request is well posed, each row is allowed, and
    each feasible obligation is met. The report counts the obligations, none of
    them twice, those that are not feasible, and those that are met, which are
    all others. What is missing from allowed rows is counted, and its first
    sixteen are named in order; of rows that are not allowed the first is named,
    for its shape if that is at fault and otherwise for the first member of the
    set that it contains. -/
theorem checkCoverage_exact {other : Space} {raw : List (List Binding)}
    (hset : ExclusionSet.ofLists other raw = .ok set) (space : Space) (rows : List Row)
    (order : Nat) (submodels : List Submodel) :
    (space.WellPosed order submodels → (trackedObligations space order submodels).Nodup) ∧
    ((∃ report, checkCoverage rows space order set submodels = .ok report) ↔
      (1 ≤ order ∧ order ≤ space.width) ∧ (∀ s ∈ submodels, s.check space = .ok ()) ∧
        (∀ row ∈ rows, space.admits row = true ∧ row.Avoids raw) ∧
        ∀ o ∈ trackedObligations space order submodels, space.Feasible raw o → o.MetBy rows) ∧
    (∀ report, checkCoverage rows space order set submodels = .ok report →
      report.rows = rows.length ∧ report.order = order ∧
        report.obligationsTotal = (trackedObligations space order submodels).length ∧
        report.obligationsExcluded = (trackedObligations space order submodels).countP
          (fun o => ¬ space.Feasible raw o) ∧
        report.obligationsCovered = (trackedObligations space order submodels).countP
          (fun o => o.MetBy rows) ∧
        report.obligationsCovered + report.obligationsExcluded = report.obligationsTotal) ∧
    (space.WellPosed order submodels → (∀ row ∈ rows, space.admits row = true ∧ row.Avoids raw) →
      let missing := (trackedObligations space order submodels).filter
        fun o => ¬ o.MetBy rows ∧ space.Feasible raw o
      missing ≠ [] → checkCoverage rows space order set submodels =
        .error (.coverageGap missing.length (missing.take 16))) ∧
    (space.WellPosed order submodels → ∀ (i : Nat) (row : Row), rows[i]? = some row →
      (∀ (j : Nat) (earlier : Row), j < i → rows[j]? = some earlier →
        space.admits earlier = true ∧ earlier.Avoids raw) →
      (space.admits row = false → ∃ fault, space.rowFault? row = some fault ∧
        checkCoverage rows space order set submodels = .error (.malformedRow i fault)) ∧
      (space.admits row = true → ¬ row.Avoids raw → ∃ e, set.violation? row = some e ∧
        checkCoverage rows space order set submodels = .error (.excludedRow i e.bindings))) := by
  have hindexed := ExclusionSet.indexed_ofLists hset
  have hallows (row : Row) : space.Allows set.lists row ↔ space.admits row = true ∧ row.Avoids raw
    := Space.allows_ofLists_iff hset
  refine ⟨fun hposed => nodup_trackedObligations hposed.submodels_ok, ⟨?_, ?_⟩, ?_, ?_, ?_⟩
  · -- What rows with a report have passed.
    rintro ⟨report, hok⟩
    rcases (checkCoverage_eq_ok_iff hindexed).1 hok with ⟨hposed, hrows, hmissing, _⟩
    rw [Space.missing_ofLists hset, Space.missing_eq_nil_iff] at hmissing
    exact ⟨⟨hposed.order_pos, hposed.order_le⟩, hposed.submodels_ok,
      fun row hrow => (hallows row).1 (hrows row hrow), hmissing⟩
  · -- Nothing else can go wrong.
    rintro ⟨⟨hpos, hle⟩, hsub, hrows, hmet⟩
    refine ⟨_, (checkCoverage_eq_ok_iff hindexed).2 ⟨⟨hpos, hle, hsub⟩,
      fun row hrow => (hallows row).2 (hrows row hrow), ?_, rfl⟩⟩
    rw [Space.missing_ofLists hset, Space.missing_eq_nil_iff]
    exact hmet
  · intro report hok
    rcases (checkCoverage_eq_ok_iff hindexed).1 hok with ⟨_, hrows, hmissing, rfl⟩
    exact ⟨rfl, rfl, rfl, Space.countP_infeasible_ofLists hset _, rfl,
      countP_met_add_infeasible hrows hmissing⟩
  · intro hposed hrows missing hmissing
    rw [checkCoverage_of_allows hindexed hposed fun row hrow => (hallows row).2 (hrows row hrow),
      Space.missing_ofLists hset]
    exact if_neg hmissing
  · intro hposed i row hi hbefore
    -- All rows before this one are allowed, so this one decides.
    have hbefore' (j : Nat) (earlier : Row) (hj : j < i) (hearlier : rows[j]? = some earlier) :
        space.Allows set.lists earlier := (hallows earlier).2 (hbefore j earlier hj hearlier)
    refine ⟨fun hadmits => ?_, fun hadmits hcontains => ?_⟩
    · rcases rowError?_of_not_admits i hadmits with ⟨fault, hfault, herror⟩
      exact ⟨fault, hfault, checkCoverage_of_rowError? hposed hi herror hbefore'⟩
    · rw [← ExclusionSet.avoids_ofLists_iff hset] at hcontains
      rcases rowError?_of_not_avoids i hadmits hcontains with ⟨e, hviolation, herror⟩
      exact ⟨e, hviolation, checkCoverage_of_rowError? hposed hi herror hbefore'⟩

/-- Two parameters with two values each. -/
def square : Space := .uniform 1 1

/-- The set that excludes one value of the square's second parameter. -/
def edge : ExclusionSet := .ofMembers 2 [⟨[⟨1, 0⟩]⟩]

/-- One of the two rows that are allowed leaves out the other, and what takes
    the excluded value is not missing. -/
theorem checkCoverage_square :
    ExclusionSet.ofLists square [[⟨1, 0⟩]] = .ok edge ∧
      checkCoverage [[0, 1]] square 2 edge [] = .error (.coverageGap 1 [⟨[0, 1], [1, 1]⟩]) := by
  have hset : ExclusionSet.ofLists square [[⟨1, 0⟩]] = .ok edge := by decide +kernel
  have hmissing : (trackedObligations square 2 []).filter
      (fun o => ¬ o.MetBy [[0, 1]] ∧ square.Feasible [[⟨1, 0⟩]] o) = [⟨[0, 1], [1, 1]⟩] := by
    decide +kernel
  have hgap := (checkCoverage_exact hset square [[0, 1]] 2 []).2.2.2.1
    ⟨by decide, by decide, by decide⟩ (by decide)
  simp only [hmissing] at hgap
  exact ⟨hset, hgap (by decide)⟩

end Verdict

end Covering
