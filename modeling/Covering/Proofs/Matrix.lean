import Covering.Matrix
import Mathlib.Data.List.Nodup

/-!
# The matrix does not depend on the order of scenarios

Scenarios come in the order of a directory, or in any other one, and the report
on them is the same. Its sums stop at the largest word and its ratios are added
up in floating point, so they would depend on the order in which they are taken.
But nothing is summed before the rows are sorted, and sorting leaves no choice:
a row has its place by name, order, seed and counts, and rows that no two
scenarios share all four of can be sorted in one way only.

## Main definitions

* `ScenarioRow.key`, `ScenarioResult.key`, `Model.key`: What rows are sorted by.

## Theorems

* `ScenarioRow.key_eq_of_precedes`: Rows that precede each other have the same key.
* `perm_scenarios`, `pairwise_scenarios`: The rows of a report.
* `allPassed_iff`: All have passed when each has.
* `Model.key_run`: A model and its result have the same key.
* `matrix_perm`: The report of scenarios in any order.
-/

namespace Covering

/-- What rows are sorted by. -/
abbrev ScenarioKey := String × Nat × Nat × List Int

/-- The key of a row. -/
def ScenarioRow.key (row : ScenarioRow) : ScenarioKey :=
  (row.name, row.order, row.seed, row.valueCounts)

/-- The key of a result. -/
def ScenarioResult.key (result : ScenarioResult) : ScenarioKey :=
  (result.name, result.order, result.seed, result.valueCounts)

/-- The key of a model. -/
def Model.key (model : Model) : ScenarioKey :=
  (model.name, model.order, model.seed, model.valueCounts)

namespace ScenarioRow

/-- How two rows compare in the order of a report. -/
def compareKeys : ScenarioRow → ScenarioRow → Ordering :=
  compareLex (compareOn (·.name)) (compareLex (compareOn (·.order))
    (compareLex (compareOn (·.seed)) (compareOn (·.valueCounts))))

instance : Std.TransCmp compareKeys := inferInstanceAs (Std.TransCmp (compareLex _ _))

theorem precedes_eq (a b : ScenarioRow) : a.precedes b = (compareKeys a b).isLE := rfl

/-- Rows that precede each other have the same key. -/
theorem key_eq_of_precedes {a b : ScenarioRow} (hab : a.precedes b = true)
    (hba : b.precedes a = true) : a.key = b.key := by
  rw [precedes_eq] at hab hba
  have heq := Std.OrientedCmp.isLE_antisymm hab hba
  simp only [compareKeys, compareLex_eq_eq, compareOn, Std.LawfulEqCmp.compare_eq_iff_eq] at heq
  rw [key, key, heq.1, heq.2.1, heq.2.2.1, heq.2.2.2]

end ScenarioRow

section Report

variable {results results' : List ScenarioResult} {settings : Settings} {campaign : String}

/-- The rows of a report are those of the results. -/
theorem perm_scenarios (results : List ScenarioResult) (settings : Settings) (campaign : String) :
    (matrixOf results settings campaign).scenarios.Perm
      (results.map (ScenarioRow.ofResult campaign)) := List.mergeSort_perm ..

/-- All have passed when each scenario has. -/
theorem allPassed_iff (results : List ScenarioResult) (settings : Settings) (campaign : String) :
    (matrixOf results settings campaign).allPassed = true ↔
      ∀ result ∈ results, result.verdict = .pass := by
  have hrow (row : ScenarioRow) :
      row.verdict = .pass ↔ row.verdict ≠ .fail ∧ row.verdict ≠ .error := by
    cases row.verdict <;> decide
  have hrows : (matrixOf results settings campaign).allPassed = true ↔
      ∀ row ∈ (matrixOf results settings campaign).scenarios, row.verdict = .pass := by
    rw [MatrixReport.allPassed, Bool.and_eq_true, decide_eq_true_eq, decide_eq_true_eq]
    simp only [hrow, forall_and]
    refine and_congr ?_ ?_ <;>
      exact List.countP_eq_zero.trans (by simp only [beq_iff_eq]; rfl)
  rw [hrows]
  simp only [(perm_scenarios results settings campaign).mem_iff, List.forall_mem_map]
  rfl

/-- The rows of a report are sorted. -/
theorem pairwise_scenarios (results : List ScenarioResult) (settings : Settings)
    (campaign : String) :
    (matrixOf results settings campaign).scenarios.Pairwise (·.precedes · = true) :=
  pairwise_mergeSort_isLE ScenarioRow.compareKeys _

/-- Rows of one report with the same key are the same row, if no two results
    have the same key. -/
theorem eq_of_key_eq (hkeys : (results.map ScenarioResult.key).Nodup) {a b : ScenarioRow}
    (ha : a ∈ results.map (ScenarioRow.ofResult campaign))
    (hb : b ∈ results.map (ScenarioRow.ofResult campaign)) (h : a.key = b.key) : a = b := by
  rcases List.mem_map.1 ha with ⟨result, hresult, rfl⟩
  rcases List.mem_map.1 hb with ⟨result', hresult', rfl⟩
  exact congrArg _ (List.inj_on_of_nodup_map hkeys hresult hresult' h)

/-- Results in another order get the same rows in the same order. -/
theorem scenarios_perm (hperm : results.Perm results')
    (hkeys : (results.map ScenarioResult.key).Nodup) :
    (matrixOf results settings campaign).scenarios =
      (matrixOf results' settings campaign).scenarios := by
  have hrows : (results'.map (ScenarioRow.ofResult campaign)).Perm
      (results.map (ScenarioRow.ofResult campaign)) := (hperm.map _).symm
  have hperm' := (perm_scenarios results' settings campaign).trans hrows
  refine List.Perm.eq_of_pairwise (fun a b ha hb hab hba => ?_)
    (pairwise_scenarios results settings campaign) (pairwise_scenarios results' settings campaign)
    ((perm_scenarios results settings campaign).trans hperm'.symm)
  exact eq_of_key_eq hkeys ((perm_scenarios results settings campaign).mem_iff.1 ha)
    (hperm'.mem_iff.1 hb) (ScenarioRow.key_eq_of_precedes hab hba)

/-- All of a report is made from its sorted rows. -/
theorem matrixOf_eq (results : List ScenarioResult) (settings : Settings) (campaign : String) :
    matrixOf results settings campaign =
      { campaign, settings
        summary := MatrixSummary.ofRows (matrixOf results settings campaign).scenarios
        orders := ((matrixOf results settings campaign).scenarios.foldl
          (fun buckets row => Bucket.addTo row buckets) []).map Bucket.toRow
        scenarios := (matrixOf results settings campaign).scenarios } := rfl

/-- Results in another order get the same report. -/
theorem matrixOf_perm (hperm : results.Perm results')
    (hkeys : (results.map ScenarioResult.key).Nodup) :
    matrixOf results settings campaign = matrixOf results' settings campaign := by
  rw [matrixOf_eq results, scenarios_perm hperm hkeys, ← matrixOf_eq]

end Report

namespace Model

theorem key_attempt (model : Model) (settings : Settings) :
    (model.attempt settings).1.key = model.key := by
  unfold attempt
  simp only
  split
  · rfl
  · split
    · rfl
    · split
      · rfl
      · split <;> rfl

/-- A model and its result have the same key. -/
theorem key_run (model : Model) (settings : Settings) :
    (model.run settings).key = model.key := by
  have hattempt := model.key_attempt settings
  unfold run
  split
  · rename_i result hresult
    rw [hresult] at hattempt
    split <;> exact hattempt
  · rename_i result e hresult
    rw [hresult] at hattempt
    exact hattempt

end Model

/-- The report does not depend on the order of scenarios. Models in another order
    get the same report, all of it, if no two of them have the same name, order,
    seed and counts; and so do results from anywhere. -/
theorem matrix_perm (settings : Settings) (campaign : String) :
    (∀ models models' : List Model, models.Perm models' → (models.map Model.key).Nodup →
      runMatrix models settings campaign = runMatrix models' settings campaign) ∧
    ∀ results results' : List ScenarioResult, results.Perm results' →
      (results.map ScenarioResult.key).Nodup →
        matrixOf results settings campaign = matrixOf results' settings campaign := by
  refine ⟨fun models models' hperm hkeys => ?_, fun results results' => matrixOf_perm⟩
  refine matrixOf_perm (hperm.map _) ?_
  rw [List.map_map, List.map_congr_left fun model _ => model.key_run settings]
  exact hkeys

section Sample

/-- What became of one model under a seed. -/
def resultOfSeed (seed rows : Nat) : ScenarioResult :=
  { name := "m", valueCounts := [3, 3], order := 2, seed, verdict := .pass, rows := some rows,
    lowerBound := some 10 }

/-- A model that differs in its seed alone. -/
def modelOfSeed (seed : Nat) : Model := { name := "m", valueCounts := [2, 0], seed }

end Sample

/-- Results of one model whose ratios are rounded when they are added up get one
    report in two orders, and so do two models with different seeds. -/
theorem matrix_perm_seeds :
    matrixOf [resultOfSeed 0 1, resultOfSeed 1 2, resultOfSeed 2 4] {} "c" =
        matrixOf [resultOfSeed 2 4, resultOfSeed 0 1, resultOfSeed 1 2] {} "c" ∧
      runMatrix [modelOfSeed 1, modelOfSeed 0] {} "c" =
        runMatrix [modelOfSeed 0, modelOfSeed 1] {} "c" :=
  ⟨(matrix_perm {} "c").2 _ _ (by decide) (by decide),
    (matrix_perm {} "c").1 _ _ (.swap ..) (by decide)⟩

end Covering
