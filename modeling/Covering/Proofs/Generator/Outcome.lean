import Covering.Proofs.Generator.Termination

/-!
# What a run returns

An array that covers, and statistics that a checker of the array would agree
with.

Both follow from the invariant at the end of a run, where nothing is uncovered.
Then every cell is covered or excluded, and the two are told apart by
feasibility alone: what is covered is in an allowed row, and what is excluded
is in none (`Sound.metBy_iff`). So neither the draws nor the settings have a
say in which obligations the statistics count, only in the rows that come out.

The array records the counts of its space but not the weights, and is checked
on the unweighted space. Nothing that is checked depends on weights.

## Theorems

* `Sound.metBy_iff`: At the end the feasible obligations are met.
* `Sound.excluded_eq`: At the end the others are excluded.
* `Sound.check_eq`: At the end the rows get a full report.
* `checkCoverage_of_run`: The rows of a run get a full report.
* `run_covers`: The array of a run covers what it can.
* `statistics_exact`: The statistics of a run are those of its request.
-/

namespace Covering

namespace Space

section SameCounts

variable {space other : Space} (h : other.counts = space.counts)

include h

theorem admits_congr (row : Row) : other.admits row = space.admits row := by
  rw [admits, admits, width, width, h]

theorem feasible_congr (lists : List (List Binding)) (o : Obligation) :
    other.Feasible lists o ↔ space.Feasible lists o := by
  simp only [Feasible, admits_congr h]

theorem check_congr (s : Submodel) : s.check other = s.check space := by
  rw [Submodel.check, Submodel.check, Submodel.fault?, Submodel.fault?, width, width, h]

theorem wellPosed_congr {order : Nat} {submodels : List Submodel}
    (hposed : space.WellPosed order submodels) : other.WellPosed order submodels :=
  ⟨hposed.order_pos, by rw [width, h]; exact hposed.order_le,
    fun s hs => by rw [check_congr h, hposed.submodels_ok s hs]⟩

theorem trackedObligations_congr (order : Nat) (submodels : List Submodel) :
    trackedObligations other order submodels = trackedObligations space order submodels := by
  have hcount : other.count = space.count := by
    funext p
    rw [count, count, h]
  have hon : obligationsOn other = obligationsOn space := by
    funext positions
    rw [obligationsOn, obligationsOn, hcount]
  rw [trackedObligations, trackedObligations, trackedSubsets, trackedSubsets, width, width, h, hon]

end SameCounts

/-- The counts of a space make an unweighted space. -/
theorem exists_ofCounts (space : Space) :
    ∃ other, ofCounts space.counts = .ok other ∧ other.counts = space.counts := by
  rw [ofCounts, dif_neg space.counts_ne_nil]
  split
  · rename_i position hzero
    -- Only a count of zero could be at fault, and a space has none.
    rw [List.findIdx?_eq_some_iff_getElem] at hzero
    rcases hzero with ⟨hlt, hcount, _⟩
    have hpos := space.counts_pos _ (List.getElem_mem hlt)
    rw [beq_iff_eq] at hcount
    omega
  · exact ⟨_, rfl, rfl⟩

end Space

namespace Run

variable {g : Generator} {raw : List (List Binding)} {run : Run}

/-- Every tracked obligation has an entry. -/
theorem Sound.exists_entry (h : Sound g run) {o : Obligation} (ho : o ∈ g.tracked) :
    ∃ cell, (o, cell) ∈ run.ledger.entries := by
  rw [Generator.tracked, trackedObligations, ← Ledger.map_fst_entries h.books] at ho
  rcases List.mem_map.1 ho with ⟨⟨_, cell⟩, he, rfl⟩
  exact ⟨cell, he⟩

/-- Where nothing remains, no entry is uncovered. -/
theorem Sound.closed (h : Sound g run) (hzero : run.ledger.remaining = 0) {e : Obligation × Cell}
    (he : e ∈ run.ledger.entries) : e.2 ≠ .uncovered := by
  rw [h.books.remaining_eq, cellCount, List.countP_eq_zero] at hzero
  exact fun hc => hzero e he (decide_eq_true hc)

/-- Where nothing remains, the rows meet exactly the feasible obligations. -/
theorem Sound.metBy_iff (h : Sound g run) (hzero : run.ledger.remaining = 0) {o : Obligation}
    (ho : o ∈ g.tracked) :
    o.MetBy run.rows ↔ g.space.Feasible g.exclusions.lists o := by
  refine ⟨Space.feasible_of_metBy h.allowed, fun hfeasible => ?_⟩
  rcases h.exists_entry ho with ⟨cell, he⟩
  cases cell with
  | uncovered => exact absurd rfl (h.closed hzero he)
  | covered => exact (h.covered _ he).1 rfl
  | excluded => exact absurd hfeasible (h.excluded _ he rfl)

/-- Where nothing remains, nothing is missing from the rows. -/
theorem Sound.missing_eq_nil (h : Sound g run) (hzero : run.ledger.remaining = 0) :
    g.space.missing g.exclusions.lists run.rows g.tracked = [] := by
  rw [Space.missing_eq_nil_iff]
  exact fun o ho hfeasible => (h.metBy_iff hzero ho).2 hfeasible

/-- Where nothing remains, the infeasible obligations are excluded. -/
theorem Sound.excluded_eq (h : Sound g run) (hzero : run.ledger.remaining = 0) :
    run.ledger.excluded = g.tracked.countP fun o => ¬ g.space.Feasible g.exclusions.lists o := by
  refine h.books.excluded.trans (h.books.cellCount_eq fun e he => ⟨h.excluded e he, ?_⟩)
  intro hinfeasible
  cases hcell : e.2 with
  | uncovered => exact absurd hcell (h.closed hzero he)
  | covered =>
      exact absurd (Space.feasible_of_metBy h.allowed ((h.covered e he).1 hcell)) hinfeasible
  | excluded => rfl

/-- Where nothing remains, the rows get a full report. -/
theorem Sound.check_eq (hg : g.Accepted raw) (h : Sound g run)
    (hzero : run.ledger.remaining = 0) (seed : Nat) :
    CoveringArray.check ⟨g.space.counts, g.order, seed, g.submodels, run.rows⟩
      (some g.exclusions) =
        .ok (fullReport g.space g.exclusions.lists run.rows g.order g.submodels) := by
  -- The check makes its own space from the counts of the array.
  rcases g.space.exists_ofCounts with ⟨other, hother, hcounts⟩
  have htracked := Space.trackedObligations_congr hcounts g.order g.submodels
  refine bind_eq_ok_iff.2 ⟨other, orInvalid_eq_ok_iff.2 hother,
    (checkCoverage_eq_ok_iff hg.indexed).2
      ⟨Space.wellPosed_congr hcounts hg.wellPosed, fun row hrow => ?_, ?_, ?_⟩⟩
  · rw [Space.Allows, Space.admits_congr hcounts]
    exact h.allowed row hrow
  · simp only [htracked, Space.missing, Space.feasible_congr hcounts]
    exact h.missing_eq_nil hzero
  · simp only [fullReport, htracked, Space.feasible_congr hcounts]

end Run

namespace Generator

variable {g : Generator} {raw : List (List Binding)}

/-- Of infeasible obligations, some are blocked outright. -/
theorem countP_infeasible (space : Space) (lists : List (List Binding)) (os : List Obligation) :
    (os.countP fun o => ¬ space.Feasible lists o) =
      (os.countP fun o => o.Blocked lists) +
        os.countP fun o => ¬ o.Blocked lists ∧ ¬ space.Feasible lists o := by
  rw [List.countP_eq_countP_filter_add os _ fun o => o.Blocked lists, List.countP_filter,
    List.countP_filter]
  congr 1
  · refine List.countP_congr fun o _ => ?_
    simp only [Bool.and_eq_true, decide_eq_true_eq, and_iff_right_iff_imp]
    exact Space.not_feasible_of_blocked
  · refine List.countP_congr fun o _ => ?_
    simp only [Bool.and_eq_true, decide_eq_true_eq, Bool.not_eq_true', decide_eq_false_iff_not,
      and_comm]

/-- The three statistics of obligations, from the request alone. -/
theorem statistics_of_run (hg : g.Accepted raw) {seed : Nat} {array : CoveringArray}
    {statistics : Statistics} (hrun : g.run seed = .ok (array, statistics)) :
    statistics.obligationsTotal = g.tracked.length ∧
      statistics.obligationsExcluded = (g.tracked.countP fun o => o.Blocked raw) ∧
        statistics.obligationsInfeasible =
          g.tracked.countP fun o => ¬ o.Blocked raw ∧ ¬ g.space.Feasible raw o := by
  rcases run_eq_ok_iff.1 hrun with ⟨hcheck, _, rfl⟩
  rcases Run.complete_spec hg hcheck seed with ⟨hsound, hzero⟩
  have hblocked := hsound.blocked
  have hstruck := hsound.struckOut
  -- What was struck out, at the start or later, is all that is infeasible.
  rw [hsound.excluded_eq hzero, countP_infeasible] at hstruck
  simp only [Obligation.blocked_ofLists_iff hg.exclusions,
    Space.feasible_ofLists_iff hg.exclusions] at hblocked hstruck
  exact ⟨hsound.total, hblocked, by simp only; omega⟩

/-- The rows of a run get a full report on its own space. -/
theorem checkCoverage_of_run (hg : g.Accepted raw) {seed : Nat} {array : CoveringArray}
    {statistics : Statistics} (hrun : g.run seed = .ok (array, statistics)) :
    checkCoverage array.rows g.space g.order g.exclusions g.submodels =
      .ok (fullReport g.space g.exclusions.lists array.rows g.order g.submodels) := by
  rcases run_eq_ok_iff.1 hrun with ⟨hcheck, rfl, _⟩
  rcases Run.complete_spec hg hcheck seed with ⟨hsound, hzero⟩
  exact (checkCoverage_eq_ok_iff hg.indexed).2
    ⟨hg.wellPosed, hsound.allowed, hsound.missing_eq_nil hzero, rfl⟩

/-- The array of a run covers what it can: it passes its check, its rows are
    rows of the space without any of the combinations to exclude, and every
    tracked obligation that some such row contains is in one of its rows. -/
theorem run_covers (hg : g.Accepted raw) {seed : Nat} {array : CoveringArray}
    {statistics : Statistics} (hrun : g.run seed = .ok (array, statistics)) :
    (∃ report, array.check (some g.exclusions) = .ok report) ∧
      (∀ row ∈ array.rows, g.space.admits row = true ∧ row.Avoids raw) ∧
        ∀ o ∈ trackedObligations g.space g.order g.submodels, g.space.Feasible raw o →
          ∃ row ∈ array.rows, o.satisfiedBy row = true := by
  rcases run_eq_ok_iff.1 hrun with ⟨hcheck, rfl, rfl⟩
  rcases Run.complete_spec hg hcheck seed with ⟨hsound, hzero⟩
  refine ⟨⟨_, hsound.check_eq hg hzero seed⟩, fun row hrow => ?_, fun o ho hfeasible => ?_⟩
  · exact (Space.allows_ofLists_iff hg.exclusions).1 (hsound.allowed row hrow)
  · exact (hsound.metBy_iff hzero ho).2 ((Space.feasible_ofLists_iff hg.exclusions).2 hfeasible)

theorem run_covers_sample :
    (∃ report, sampleArray.check (some sample.exclusions) = .ok report) ∧
      (∀ row ∈ sampleArray.rows, sample.space.admits row = true ∧ row.Avoids sampleLists) ∧
        ∀ o ∈ trackedObligations sample.space 2 [⟨[0, 1, 2], 3⟩],
          sample.space.Feasible sampleLists o →
            ∃ row ∈ sampleArray.rows, o.satisfiedBy row = true :=
  run_covers accepted_sample run_sample

/-- The statistics of a run count the tracked obligations, none of them twice,
    those that contain a combination to exclude, and those that contain none
    and still are in no allowed row. The check of the array reports the same
    total, the latter two together as excluded, and the rest as covered. So the
    statistics do not depend on seed, settings, weights and seed rows. -/
theorem statistics_exact (hg : g.Accepted raw) {seed : Nat} {array : CoveringArray}
    {statistics : Statistics} (hrun : g.run seed = .ok (array, statistics)) :
    g.tracked.Nodup ∧
    (statistics.obligationsTotal = g.tracked.length ∧
      statistics.obligationsExcluded = (g.tracked.countP fun o => o.Blocked raw) ∧
        statistics.obligationsInfeasible =
          g.tracked.countP fun o => ¬ o.Blocked raw ∧ ¬ g.space.Feasible raw o) ∧
    (∃ report, array.check (some g.exclusions) = .ok report ∧
      report.obligationsTotal = statistics.obligationsTotal ∧
        report.obligationsExcluded =
          statistics.obligationsExcluded + statistics.obligationsInfeasible ∧
        report.obligationsCovered + report.obligationsExcluded = report.obligationsTotal) ∧
    ∀ (g' : Generator) (seed' : Nat) (array' : CoveringArray) (statistics' : Statistics),
      g'.Accepted raw → g'.space.counts = g.space.counts → g'.order = g.order →
        g'.submodels = g.submodels → g'.run seed' = .ok (array', statistics') →
          statistics'.obligationsTotal = statistics.obligationsTotal ∧
            statistics'.obligationsExcluded = statistics.obligationsExcluded ∧
            statistics'.obligationsInfeasible = statistics.obligationsInfeasible := by
  rcases statistics_of_run hg hrun with ⟨htotal, hblocked, hinfeasible⟩
  refine ⟨nodup_trackedObligations hg.wellPosed.submodels_ok, ⟨htotal, hblocked, hinfeasible⟩,
    ?_, ?_⟩
  · rcases run_eq_ok_iff.1 hrun with ⟨hcheck, rfl, rfl⟩
    rcases Run.complete_spec hg hcheck seed with ⟨hsound, hzero⟩
    refine ⟨_, hsound.check_eq hg hzero seed, hsound.total.symm, ?_, ?_⟩
    · exact (hsound.excluded_eq hzero).symm.trans hsound.struckOut.symm
    · exact countP_met_add_infeasible hsound.allowed (hsound.missing_eq_nil hzero)
  · intro g' seed' array' statistics' hg' hcounts horder hsubmodels hrun'
    rcases statistics_of_run hg' hrun' with ⟨htotal', hblocked', hinfeasible'⟩
    -- Both requests are about the same obligations.
    have htracked : g'.tracked = g.tracked := by
      rw [tracked, tracked, horder, hsubmodels, Space.trackedObligations_congr hcounts]
    simp only [htracked, Space.feasible_congr hcounts] at htotal' hblocked' hinfeasible'
    exact ⟨htotal'.trans htotal.symm, hblocked'.trans hblocked.symm,
      hinfeasible'.trans hinfeasible.symm⟩

/-- Of the sample's twenty obligations six are blocked, and one is infeasible
    beyond that. -/
theorem statistics_exact_sample :
    20 = sample.tracked.length ∧ 6 = (sample.tracked.countP fun o => o.Blocked sampleLists) ∧
      1 = sample.tracked.countP fun o =>
        ¬ o.Blocked sampleLists ∧ ¬ sample.space.Feasible sampleLists o :=
  (statistics_exact accepted_sample run_sample).2.1

end Generator

end Covering
