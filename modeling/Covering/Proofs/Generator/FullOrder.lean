import Covering.Proofs.Generator.Rows

/-!
# Full order

At the greatest order that a space has, a run lists what is allowed: every row of
the space without an excluded combination, and each of them once.

An obligation of that order binds every position, so it is a row by another
name. The row of that name satisfies it and no other row does
(`satisfiedBy_ofRow_iff`). To cover all feasible obligations is then to have all
allowed rows, and a row with an obligation of its own is one that was not there
before. So nothing new is to be said about draws, climbing and completions: that
nothing is missing is the end of a run, and that nothing comes twice is that no
row is wasted.

Submodels have no say in this. Their orders cannot exceed the number of
parameters, so they add nothing to what is covered.

## Main definitions

* `Obligation.ofRow`: A row as an obligation on all positions.

## Theorems

* `ofRow_mem_tracked`: At full order every row is tracked as an obligation.
* `satisfiedBy_ofRow_iff`: Only the row itself satisfies it.
* `Productive.nodup`: Rows with obligations of their own are all different.
* `run_full_order`: A run at full order returns the allowed rows.
-/

namespace Covering

/-- The row as an obligation that binds all positions. -/
def Obligation.ofRow (row : Row) : Obligation := ⟨List.range row.length, row⟩

section FullOrder

variable {space : Space} {submodels : List Submodel} {row other : Row}

/-- Only the row itself satisfies the obligation that it makes. -/
theorem satisfiedBy_ofRow_iff (hlen : other.length = row.length) :
    (Obligation.ofRow row).satisfiedBy other = true ↔ other = row := by
  rw [Obligation.ofRow, Obligation.satisfiedBy_iff (by rw [List.length_range]) fun p hp => by
    rw [hlen]
    exact List.mem_range.1 hp, ← hlen, Row.valuesAt_range]

/-- At full order the rows of a space are among the tracked obligations. -/
theorem ofRow_mem_tracked (hsub : ∀ s ∈ submodels, s.check space = .ok ())
    (hrow : space.admits row = true) :
    Obligation.ofRow row ∈ trackedObligations space space.width submodels := by
  rw [mem_trackedObligations_iff hsub, Obligation.ofRow, Space.length_of_admits hrow]
  refine ⟨List.mem_append_left _ (mem_subsets_iff.2 ?_), ?_⟩
  · exact ⟨space.width_pos, List.Sublist.refl _, List.length_range⟩
  · rw [Space.map_count_range]
    exact mem_product_counts_iff.2 hrow

end FullOrder

/-- Rows that each meet an obligation of their own are all different, if the
    first ones are. -/
theorem Productive.nodup {os : List Obligation} {first rows : List Row}
    (h : Productive os first rows) (hfirst : first.Nodup) : rows.Nodup := by
  induction h with
  | refl => exact hfirst
  | @add rows row _ hnew ih =>
      rcases hnew with ⟨o, _, hsat, hunmet⟩
      -- A row that was there before would have met the new obligation.
      refine List.nodup_append.2 ⟨ih, List.nodup_singleton row, fun a ha b hb hab => ?_⟩
      rw [List.mem_singleton.1 hb] at hab
      exact hunmet ⟨row, hab ▸ ha, hsat⟩

namespace Run

variable {g : Generator} {raw : List (List Binding)} {run : Run} {row : Row}

/-- At full order, where nothing remains, the rows are the allowed ones. -/
theorem Sound.mem_rows_iff (hg : g.Accepted raw) (h : Sound g run)
    (hzero : run.ledger.remaining = 0) (horder : g.order = g.space.width) :
    row ∈ run.rows ↔ g.space.Allows g.exclusions.lists row := by
  refine ⟨h.allowed row, fun hrow => ?_⟩
  have htracked : Obligation.ofRow row ∈ g.tracked := by
    rw [Generator.tracked, horder]
    exact ofRow_mem_tracked hg.wellPosed.submodels_ok hrow.1
  -- The row makes its own obligation feasible, so some row meets it.
  rcases (h.metBy_iff hzero htracked).2
    ⟨row, hrow.1, hrow.2, (satisfiedBy_ofRow_iff rfl).2 rfl⟩ with ⟨other, hother, hsat⟩
  have hlen : other.length = row.length := by
    rw [Space.length_of_admits (h.allowed other hother).1, Space.length_of_admits hrow.1]
  rwa [(satisfiedBy_ofRow_iff hlen).1 hsat] at hother

end Run

namespace Generator

variable {g : Generator} {raw : List (List Binding)}

/-- At full order a run returns the allowed rows. Without seed rows its rows are
    all different, they are the rows of the space that contain none of the
    combinations to exclude, and so they are the product of the values of all
    parameters, as far as it is allowed, in some order. -/
theorem run_full_order (hg : g.Accepted raw) (horder : g.order = g.space.width)
    (hseeds : g.seedRows = []) {seed : Nat} {array : CoveringArray} {statistics : Statistics}
    (hrun : g.run seed = .ok (array, statistics)) :
    array.rows.Nodup ∧
      (∀ row, row ∈ array.rows ↔ g.space.admits row = true ∧ row.Avoids raw) ∧
      array.rows.Perm ((product g.space.counts).filter fun row => Row.Avoids row raw) := by
  rcases run_eq_ok_iff.1 hrun with ⟨hcheck, rfl, rfl⟩
  rcases Run.complete_spec hg hcheck seed with ⟨hsound, hzero⟩
  have hmem (row : Row) : row ∈ (Run.complete g seed).rows ↔
      g.space.admits row = true ∧ row.Avoids raw := by
    rw [hsound.mem_rows_iff hg hzero horder]
    exact Space.allows_ofLists_iff hg.exclusions
  have hnodup : (Run.complete g seed).rows.Nodup := by
    -- There are no rows before the first round.
    refine (Run.complete_productive hg hcheck seed).1.nodup ?_
    rw [Run.seeded, hseeds]
    exact List.nodup_nil
  refine ⟨hnodup, hmem, (List.perm_ext_iff_of_nodup hnodup ((nodup_product _).filter _)).2 ?_⟩
  intro row
  rw [hmem, List.mem_filter, mem_product_counts_iff, decide_eq_true_eq]

/-- The sample at full order, with nothing to start from. -/
def fullSample : Generator := { sample with order := 3, seedRows := [] }

/-- Of the sample's eight rows four are allowed, and its run at full order returns
    those. -/
theorem run_full_order_sample :
    ([[0, 1, 1], [1, 0, 1], [1, 1, 1], [1, 0, 0]] : List Row).Perm
      ((product [2, 2, 2]).filter fun row => Row.Avoids row sampleLists) := by
  have haccepted : fullSample.Accepted sampleLists :=
    ⟨rfl, accepted_sample.exclusions, accepted_sample.submodels⟩
  have hrun : fullSample.run 2 = .ok
      ({ sampleArray with order := 3, rows := [[0, 1, 1], [1, 0, 1], [1, 1, 1], [1, 0, 0]] },
        { obligationsTotal := 8, obligationsExcluded := 4, rows := 4,
          candidatesScored := 8 }) := by decide +kernel
  exact (run_full_order haccepted rfl rfl hrun).2.2

end Generator

end Covering
