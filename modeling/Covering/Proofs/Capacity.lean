import Covering.Capacity
import Covering.Proofs.CommandLine.Options
import Covering.Proofs.Count
import Covering.Proofs.Guarded.Access
import Mathlib.Algebra.Order.BigOperators.Group.List

/-!
# Requests that there is room for

What is asked of the sizes of lists before they are made is asked of the sizes
that they have when they are made. A partial row has as many entries as its
width says, and a pool never has more rows than candidates were to be drawn for
it. The tables of a run are where this needs an argument: they are there from
the start, and rows and struck out obligations change their cells and not how
many there are, so what is known of the choices of positions holds of every
ledger of the run (`tablesHaveRoom_iff`).

Nothing is refused that the usual limits allow. The cells of all tables together
are the obligations of the request, and a request with more obligations than its
settings allow is refused with an error before anything else. So there is room
for the tables when that limit is one that memory can have, and for the whole run
when the pool is (`Generator.run?_eq_some`).

A pool is made when candidates are drawn and not before. Where none are drawn
the number of candidates does not matter, however large it is.

## Theorems

* `Obligation.toPartial?_eq_some_iff`, `SeedRow.ofBindings?_eq_some_iff`,
  `Subset.start?_eq_none_iff`: The lists that there is room for.
* `Generator.tablesHaveRoom_iff`: The room that is asked for is that of the tables.
* `length_drawPool_le`, `Run.length_drawAnchored_le`: The sizes of pools.
* `Generator.tablesHaveRoom_of_check`: A limit on obligations limits the tables.
* `Generator.run_of_not_drawsCandidates`: Runs that draw no candidates.
* `Generator.run?_eq_none_iff`: The runs that there is no room for.
* `Generator.run?_eq_some`, `Model.run?_eq_some`, `runMatrix?_eq_some`: There is
  room under usual limits.
* `Model.run?_standard`: There is under the standard settings.
-/

namespace Covering

theorem hasRoom_iff {count size : Nat} : hasRoom count size = true ↔ count * size < signedLimit :=
  decide_eq_true_iff

section Lists

/-- A partial row is given if the obligation fits and there is room for the row. -/
theorem Obligation.toPartial?_eq_some_iff {o : Obligation} {width : Nat} {row : Partial} :
    o.toPartial? width = some row ↔
      o.toPartial width = row ∧ o.fits width = true ∧ hasRoom row.length 16 = true := by
  rw [toPartial?, Option.ite_none_right_eq_some, Bool.and_eq_true, Option.some.injEq]
  constructor
  · rintro ⟨⟨hroom, hfits⟩, rfl⟩
    exact ⟨rfl, hfits, by rw [length_toPartial, hroom]⟩
  · rintro ⟨rfl, hfits, hroom⟩
    rw [length_toPartial] at hroom
    exact ⟨⟨hroom, hfits⟩, rfl⟩

/-- A seed row is given if there is room for it. -/
theorem SeedRow.ofBindings?_eq_some_iff {width : Nat} {bindings : List Binding} {row : SeedRow} :
    SeedRow.ofBindings? width bindings = some row ↔
      SeedRow.ofBindings width bindings = row ∧ hasRoom row.length 16 = true := by
  have hlength : (SeedRow.ofBindings width bindings).length = width := Partial.length_ofBindings ..
  rw [ofBindings?, Option.ite_none_right_eq_some, Option.some.injEq]
  constructor
  · rintro ⟨hroom, rfl⟩
    exact ⟨rfl, by rw [hlength, hroom]⟩
  · rintro ⟨rfl, hroom⟩
    rw [hlength] at hroom
    exact ⟨hroom, rfl⟩

/-- An enumeration has no start if the first list is one that there is no room for. -/
theorem Subset.start?_eq_none_iff {n k : Nat} :
    Subset.start? n k = none ↔
      ∃ positions, Subset.first? n k = some positions ∧ hasRoom positions.length 8 = false := by
  rw [start?, first?]
  by_cases h : 0 < k ∧ k ≤ n
  · have hasked : (decide (k = 0) || decide (n < k)) = false := by
      rw [decide_eq_false (Nat.ne_of_gt h.1), decide_eq_false (Nat.not_lt.2 h.2)]
      rfl
    rw [hasked, Bool.false_or, if_pos h]
    simp only [ite_eq_right_iff, reduceCtorEq, imp_false, Bool.not_eq_true, Option.some.injEq,
      exists_eq_left', List.length_range]
  · have hnone : (decide (k = 0) || decide (n < k)) = true := by
      rw [Bool.or_eq_true, decide_eq_true_iff, decide_eq_true_iff]
      omega
    rw [hnone, Bool.true_or, if_pos rfl, if_neg h]
    simp only [reduceCtorEq, false_and, exists_false]

end Lists

section Pools

/-- A pool for a seed row has at most as many rows as candidates are drawn. -/
theorem length_drawPool_le (space : Space) (set : ExclusionSet) (fixed : Partial) (n : Nat)
    (random : Random) : (drawPool space set fixed n random).1.length ≤ n := by
  induction n generalizing random with
  | zero => exact Nat.le_refl 0
  | succ n ih =>
      rw [drawPool, List.length_append, Nat.add_comm]
      exact Nat.add_le_add (ih _) (Option.length_toList_le)

/-- So has a pool for obligations. -/
theorem Run.length_drawAnchored_le (g : Generator) (n : Nat) (run : Run) :
    (drawAnchored g n run).1.length ≤ n := by
  induction n generalizing run with
  | zero => exact Nat.le_refl 0
  | succ n ih =>
      rw [drawAnchored]
      split
      · exact Nat.zero_le _
      · simp only
        split
        · exact Nat.le_succ_of_le (ih _)
        · rw [List.length_append, Nat.add_comm]
          exact Nat.add_le_add (ih _) Option.length_toList_le

end Pools

section Runs

namespace Generator

variable {g : Generator} {raw : List (List Binding)}

/-- The room that is asked for before a run is room for its tables, at the start and
    whenever rows have been entered and obligations struck out. -/
theorem tablesHaveRoom_iff (hg : g.Accepted raw) {ledger : Ledger}
    (h : Ledger.Reachable g.space g.order g.submodels g.exclusions ledger) :
    g.tablesHaveRoom = true ↔
      ∀ table ∈ ledger.tables, Covering.hasRoom table.cells.size 1 = true := by
  have hledger := h.wellFormed hg.wellPosed.submodels_ok
  rw [tablesHaveRoom, ← hledger.positions, List.all_map, List.all_eq_true]
  refine forall₂_congr fun table htable => ?_
  rw [(hledger.shaped table htable).size]
  rfl

/-- A request that passes its check has no more cells in all tables together than
    obligations are allowed. -/
theorem tablesHaveRoom_of_check (hcheck : g.check = .ok ())
    (hlimit : g.settings.maxObligations < signedLimit) : g.tablesHaveRoom = true := by
  rcases bind_eq_ok_iff.1 hcheck with ⟨_, _, hcount⟩
  rcases bind_eq_ok_iff.1 hcount with ⟨count, hcount, hallowed⟩
  have hle : count ≤ g.settings.maxObligations := by
    split at hallowed
    · exact absurd hallowed (by simp only [throw, throwThe, MonadExceptOf.throw, reduceCtorEq,
        not_false_eq_true])
    · exact Nat.not_lt.1 ‹_›
  rw [tablesHaveRoom, List.all_eq_true]
  intro positions hpositions
  -- The tuples of one choice are among those that are counted.
  have hone : tupleCount g.space positions ≤ count := by
    rw [obligationCountWith_eq hcount, sumOf_eq_sum]
    exact List.single_le_sum (fun _ _ => Nat.zero_le _) _ (List.mem_map_of_mem hpositions)
  rw [hasRoom_iff, Nat.mul_one]
  exact Nat.lt_of_le_of_lt (Nat.le_trans hone hle) hlimit

/-- A run that draws no candidates ends where it starts. -/
theorem complete_of_not_drawsCandidates (h : g.drawsCandidates = false) (seed : Nat) :
    Run.complete g seed = Run.start g seed := by
  rw [drawsCandidates, Bool.or_eq_false_iff, Bool.not_eq_false', List.isEmpty_iff,
    decide_eq_false_iff_not, not_not] at h
  have hremaining : (Run.start g seed).ledger.remaining = 0 := h.2
  rw [Run.complete, h.1]
  simp only [List.foldl_nil, hremaining]
  rfl

/-- The number of candidates does not matter to it. -/
theorem run_of_not_drawsCandidates (h : g.drawsCandidates = false) (pool seed : Nat) :
    ({ g with settings := { g.settings with candidatePool := pool } } : Generator).run seed =
      g.run seed := by
  have hother := complete_of_not_drawsCandidates
    (g := { g with settings := { g.settings with candidatePool := pool } }) h seed
  rw [run, run, hother, complete_of_not_drawsCandidates h]
  rfl

/-- There is no room for the run of a request that passes its check where there is
    none for some table, or for a pool that is drawn. -/
theorem run?_eq_none_iff {seed : Nat} :
    g.run? seed = none ↔ g.check = .ok () ∧
      (g.tablesHaveRoom = false ∨
        Covering.hasRoom g.settings.candidatePool 24 = false ∧ g.drawsCandidates = true) := by
  rw [run?, hasRoom]
  cases g.check with
  | error e => simp only [if_true, reduceCtorEq, false_and]
  | ok =>
      simp only [ite_eq_right_iff, reduceCtorEq, imp_false, Bool.not_eq_true, true_and,
        Bool.and_eq_false_iff, Bool.or_eq_false_iff, Bool.not_eq_false']

/-- There is room for a run when the obligations that are allowed, and the candidates
    that are asked for, are as many as memory can have. -/
theorem hasRoom_of_limits (hlimit : g.settings.maxObligations < signedLimit)
    (hpool : Covering.hasRoom g.settings.candidatePool 24 = true) : g.hasRoom = true := by
  rw [hasRoom]
  split
  · rfl
  · rename_i hcheck
    rw [tablesHaveRoom_of_check hcheck hlimit, hpool]
    rfl

theorem run?_eq_some (hlimit : g.settings.maxObligations < signedLimit)
    (hpool : Covering.hasRoom g.settings.candidatePool 24 = true) (seed : Nat) :
    g.run? seed = some (g.run seed) := if_pos (hasRoom_of_limits hlimit hpool)

end Generator

variable {settings : Settings}

/-- The same for models, whose requests keep the settings. -/
theorem Model.run?_eq_some (hlimit : settings.maxObligations < signedLimit)
    (hpool : Covering.hasRoom settings.candidatePool 24 = true) (model : Model) :
    model.run? settings = some (model.run settings) := by
  refine if_pos ?_
  rw [hasRoom]
  split
  · rfl
  · rename_i g hg
    rcases generator_eq_ok_iff.1 hg with ⟨_, _, _, _, _, _, _, rfl⟩
    exact Generator.hasRoom_of_limits hlimit hpool

/-- And for the report of all models. -/
theorem runMatrix?_eq_some (hlimit : settings.maxObligations < signedLimit)
    (hpool : hasRoom settings.candidatePool 24 = true) (models : List Model) (campaign : String) :
    runMatrix? models settings campaign = some (runMatrix models settings campaign) := by
  have hresults : models.mapM (·.run? settings) = some (models.map (·.run settings)) :=
    Guarded.mapM_eq_some fun model _ => model.run?_eq_some hlimit hpool
  rw [runMatrix?, hresults]
  rfl

/-- The settings in force when nothing is said leave room for every model. -/
theorem Model.run?_standard (model : Model) : model.run? .standard = some (model.run .standard) :=
  model.run?_eq_some (by decide) (by decide)

end Runs

end Covering
