import Covering.Proofs.Bound
import Covering.Proofs.CommandLine.Options
import Covering.Proofs.Count
import Covering.Scenario

/-!
# What a scenario reports

The verdict on a model says whether there is an array, and nothing else can go
wrong: checking the array again never finds a fault.

A result is filled in on the way, so that whether it has rows tells a failure to
generate from a failure to check. That distinction is never needed. An array
exists when the request could be made and the run succeeded, and the invariant
of the run gives such an array a full report (`attempt_of_run_eq_ok`). What is
left are the faults on the way to the array. Every step on that way refuses the
request as faulty or as too large (`Refuses`), so these are the only codes that a
result ever has.

The bound on rows that is reported next to the rows is another matter. It counts
the value tuples of a choice of positions and knows nothing of exclusions, while
rows only have to contain the tuples that are feasible. So there may be fewer
rows than the bound says, though not by more than there are infeasible tuples
(`bound_le_rows_add_infeasible`), and one excluded pair of values is enough for
that (`rows_lt_bound_corner`).

## Main definitions

* `CoverError.Refusal`: The errors that are about the request.
* `Refuses`: A step that fails in no other way.
* `Model.corner`: A model with fewer rows than its bound.

## Theorems

* `Refuses.bind`: Two such steps in turn.
* `refuses_obligationCountWith`, `Generator.refuses_run`, `Model.refuses_generate`:
  The steps on the way to an array.
* `run_of_run_eq_ok`, `run_of_generate_eq_error`: What is reported of an array, and
  of a refusal.
* `verdict_exact`: Verdicts, contents and codes of results.
* `countP_feasible_le_length`: There are as many rows as feasible tuples.
* `bound_le_rows_add_infeasible`: How far the bound may exceed the rows.
-/

namespace Covering

namespace CoverError

/-- The errors that are about the request and not about rows. -/
inductive Refusal : CoverError → Prop where
  | invalid (fault : InputFault) : Refusal (.invalidInput fault)
  | overflow (obligations limit : Nat) : Refusal (.overflow obligations limit)

theorem Refusal.code {e : CoverError} (h : e.Refusal) :
    e.code = "invalid_input" ∨ e.code = "overflow" := by
  cases h with
  | invalid fault => exact .inl rfl
  | overflow obligations limit => exact .inr rfl

end CoverError

/-- A step that fails only by refusing the request. -/
def Refuses {α : Type} (x : Except CoverError α) : Prop := ∀ e, x = .error e → e.Refusal

section Refuses

variable {α β : Type}

theorem refuses_ok (a : α) : Refuses (.ok a) := fun _ h => nomatch h

theorem refuses_error {e : CoverError} (h : e.Refusal) : Refuses (.error e : Except CoverError α) :=
  fun _ he => Except.error.inj he ▸ h

theorem refuses_orInvalid (x : Except InputFault α) : Refuses (orInvalid x) := by
  cases x with
  | error fault => exact refuses_error (.invalid fault)
  | ok a => exact refuses_ok a

/-- The second step only has to refuse where the first one succeeds. -/
theorem Refuses.bind {x : Except CoverError α} {f : α → Except CoverError β} (hx : Refuses x)
    (hf : ∀ a, x = .ok a → Refuses (f a)) : Refuses (x >>= f) := by
  cases x with
  | error e => exact refuses_error (hx e rfl)
  | ok a => exact hf a rfl

theorem refuses_mapM {f : α → Except CoverError β} (hf : ∀ a, Refuses (f a)) (as : List α) :
    Refuses (as.mapM f) := by
  induction as with
  | nil => exact refuses_ok []
  | cons a as ih =>
      rw [List.mapM_cons]
      exact (hf a).bind fun b _ => ih.bind fun bs _ => refuses_ok (b :: bs)

theorem refuses_checkedCount (n : Nat) : Refuses (checkedCount n) := by
  unfold checkedCount
  by_cases h : n < countLimit
  · rw [if_pos h]
    exact refuses_ok n
  · rw [if_neg h]
    exact refuses_error (.overflow ..)

theorem refuses_symmetricSums (sums counts : List Nat) : Refuses (symmetricSums sums counts) := by
  induction counts generalizing sums with
  | nil => exact refuses_ok sums
  | cons count counts ih =>
      unfold symmetricSums
      have hnext := refuses_mapM refuses_checkedCount (addParameter count sums)
      split
      · rename_i e he
        exact refuses_error (hnext e he)
      · exact ih _

theorem refuses_addSubsets (space : Space) (total : Nat) (choices : List (List Nat)) :
    Refuses (addSubsets space total choices) := by
  induction choices generalizing total with
  | nil => exact refuses_ok total
  | cons positions rest ih =>
      unfold addSubsets
      have hnext := refuses_checkedCount (total + tupleCount space positions)
      split
      · rename_i e he
        exact refuses_error (hnext e he)
      · exact ih _

/-- Counting obligations fails for a faulty order or a count that is too large. -/
theorem refuses_obligationCountWith (space : Space) (order : Nat) (submodels : List Submodel) :
    Refuses (obligationCountWith space order submodels) := by
  have hplain : Refuses (obligationCount space order) :=
    (refuses_orInvalid _).bind fun _ _ =>
      (refuses_symmetricSums _ _).bind fun _ _ => refuses_ok _
  exact hplain.bind fun total _ => refuses_addSubsets space total _

end Refuses

namespace Generator

/-- A run fails for its seed rows, or for more obligations than it may handle. -/
theorem refuses_run (g : Generator) (seed : Nat) : Refuses (g.run seed) := by
  have hcheck : Refuses g.check := by
    refine (refuses_orInvalid _).bind fun _ _ =>
      (refuses_obligationCountWith _ _ _).bind fun obligations _ => ?_
    by_cases h : g.settings.maxObligations < obligations
    · rw [if_pos h]
      exact refuses_error (.overflow ..)
    · rw [if_neg h]
      exact refuses_ok ()
  exact hcheck.bind fun _ _ => refuses_ok _

end Generator

namespace Model

variable {model : Model} {settings : Settings} {g : Generator} {array : CoveringArray}
  {statistics : Statistics}

theorem refuses_generate (model : Model) (settings : Settings) :
    Refuses (model.generate settings) :=
  (refuses_orInvalid _).bind fun g _ => g.refuses_run model.seed

theorem generate_eq_ok_iff :
    model.generate settings = .ok (array, statistics) ↔
      ∃ g, model.generator settings = .ok g ∧ g.run model.seed = .ok (array, statistics) := by
  unfold generate
  rw [bind_eq_ok_iff]
  exact exists_congr fun g => and_congr_left fun _ => orInvalid_eq_ok_iff

/-- The request of a model has a bound on rows. As a word it is the number of
    value tuples of some choice of positions, or the last word. -/
theorem exists_bound (hg : model.generator settings = .ok g) :
    ∃ positions ∈ trackedSubsets g.space g.order g.submodels, ∃ bound,
      rowLowerBoundWith g.space g.order g.submodels = .ok bound ∧
        min bound (wordLimit - 1) = min (tupleCount g.space positions) (wordLimit - 1) := by
  have hposed := (accepted_of_generator hg).wellPosed
  rcases rowLowerBoundWith_eq g.submodels hposed.order_pos hposed.order_le with
    ⟨_, ⟨positions, hpositions, rfl⟩, _, hbound⟩
  refine ⟨positions, hpositions, _, hbound, ?_⟩
  have hle : wordLimit - 1 ≤ countLimit - 1 := by decide
  omega

/-- The array of a run gets a report under the exclusions of its request. -/
theorem exists_report (hg : model.generator settings = .ok g) {seed : Nat}
    (hrun : g.run seed = .ok (array, statistics)) :
    ∃ report, array.check (some g.exclusions) = .ok report := by
  have haccepted := accepted_of_generator hg
  rcases Generator.run_eq_ok_iff.1 hrun with ⟨hcheck, rfl, _⟩
  rcases Run.complete_spec haccepted hcheck seed with ⟨hsound, hzero⟩
  exact ⟨_, hsound.check_eq haccepted hzero seed⟩

/-- What is reported of an array: everything about it, and no error. -/
theorem attempt_of_run_eq_ok (hg : model.generator settings = .ok g)
    (hrun : g.run model.seed = .ok (array, statistics)) :
    ∃ positions ∈ trackedSubsets g.space g.order g.submodels, model.attempt settings =
      ({ model.untried with
          lowerBound := some (min (tupleCount g.space positions) (wordLimit - 1))
          rows := some array.rows.length
          fingerprint := some array.fingerprint
          statistics := some statistics }, none) := by
  rcases exists_bound hg with ⟨positions, hpositions, bound, hbound, hword⟩
  rcases exists_report hg hrun with ⟨report, hreport⟩
  refine ⟨positions, hpositions, ?_⟩
  unfold attempt
  rw [hg]
  simp only [orInvalid, Except.mapError, hbound, hword, hrun, hreport]

/-- What is reported of a refusal: the error, and at most the bound. -/
theorem attempt_of_generate_eq_error {e : CoverError} (h : model.generate settings = .error e) :
    ∃ lowerBound, model.attempt settings = ({ model.untried with lowerBound }, some e) := by
  unfold generate at h
  unfold attempt
  cases hg : model.generator settings with
  | error fault =>
      rw [hg] at h
      have he := Except.error.inj h
      rw [← he]
      exact ⟨none, rfl⟩
  | ok g =>
      rw [hg] at h
      have hrun : g.run model.seed = .error e := h
      rcases exists_bound hg with ⟨_, _, bound, hbound, _⟩
      -- There is a bound already when the run refuses.
      simp only [orInvalid, Except.mapError, hbound, hrun]
      exact ⟨_, rfl⟩

/-- The result of a model that gets an array, expected or not. -/
theorem run_of_run_eq_ok (hg : model.generator settings = .ok g)
    (hrun : g.run model.seed = .ok (array, statistics)) :
    ∃ positions ∈ trackedSubsets g.space g.order g.submodels, model.run settings =
      { model.untried with
          verdict := if model.expectError = none then .pass else .fail
          lowerBound := some (min (tupleCount g.space positions) (wordLimit - 1))
          rows := some array.rows.length
          fingerprint := some array.fingerprint
          statistics := some statistics
          error := model.expectError.map fun code =>
            "expected " ++ code ++ ", generation succeeded" } := by
  rcases attempt_of_run_eq_ok hg hrun with ⟨positions, hpositions, hattempt⟩
  refine ⟨positions, hpositions, ?_⟩
  unfold run
  rw [hattempt]
  cases model.expectError with
  | none => rfl
  | some code => rfl

/-- The result of a model that is refused. -/
theorem run_of_generate_eq_error {e : CoverError} (h : model.generate settings = .error e) :
    ∃ lowerBound, model.run settings =
      { model.untried with
          verdict := verdictOn model.expectError e false
          lowerBound
          errorCode := some e.code
          error := some e.message } := by
  rcases attempt_of_generate_eq_error h with ⟨lowerBound, hattempt⟩
  refine ⟨lowerBound, ?_⟩
  unfold run
  rw [hattempt]
  rfl

/-- Verdicts are exact, and checking an array again never finds a fault.

    A model that expects no error passes when it gets an array and is in error
    otherwise; it never fails. A model that expects an error passes when it is
    refused with the code of that error and fails otherwise; it is never in
    error. A result has rows, a fingerprint and statistics when there is an
    array, which are those of the array, and none of them otherwise. The code of
    an error is that of a faulty or of too large a request. -/
theorem verdict_exact (model : Model) (settings : Settings) :
    (model.expectError = none →
      ((model.run settings).verdict = .pass ↔
        ∃ array statistics, model.generate settings = .ok (array, statistics)) ∧
      ((model.run settings).verdict = .error ↔ ∃ e, model.generate settings = .error e) ∧
      (model.run settings).verdict ≠ .fail) ∧
    (∀ code, model.expectError = some code →
      ((model.run settings).verdict = .pass ↔
        ∃ e, model.generate settings = .error e ∧ e.code = code) ∧
      ((model.run settings).verdict = .fail ↔
        ¬ ∃ e, model.generate settings = .error e ∧ e.code = code) ∧
      (model.run settings).verdict ≠ .error) ∧
    (∀ array statistics, model.generate settings = .ok (array, statistics) →
      (model.run settings).rows = some array.rows.length ∧
        (model.run settings).fingerprint = some array.fingerprint ∧
        (model.run settings).statistics = some statistics ∧
        (model.run settings).errorCode = none) ∧
    (∀ e, model.generate settings = .error e →
      (model.run settings).rows = none ∧ (model.run settings).fingerprint = none ∧
        (model.run settings).statistics = none ∧
        (model.run settings).errorCode = some e.code) ∧
    (∀ code, (model.run settings).errorCode = some code →
      code = "invalid_input" ∨ code = "overflow") ∧
    ∀ g array statistics, model.generator settings = .ok g →
      g.run model.seed = .ok (array, statistics) →
        ∃ report, array.check (some g.exclusions) = .ok report := by
  have hreport : ∀ g array statistics, model.generator settings = .ok g →
      g.run model.seed = .ok (array, statistics) →
        ∃ report, array.check (some g.exclusions) = .ok report :=
    fun g array statistics hg hrun => exists_report hg hrun
  -- The clauses speak of an array or of a refusal, and there is one of the two.
  cases hgenerate : model.generate settings with
  | ok generated =>
      rcases generated with ⟨array, statistics⟩
      rcases generate_eq_ok_iff.1 hgenerate with ⟨g, hg, hgrun⟩
      rcases run_of_run_eq_ok hg hgrun with ⟨_, _, hrun⟩
      simp only [hrun, Except.ok.injEq, Prod.mk.injEq, reduceCtorEq]
      refine ⟨fun hexpect => ?_, fun code hexpect => ?_, ?_, ?_, ?_, hreport⟩
      · simp [hexpect]
      · simp [hexpect]
      · rintro _ _ ⟨rfl, rfl⟩
        exact ⟨rfl, rfl, rfl, rfl⟩
      · exact fun _ h => absurd h not_false
      · exact fun code hcode => nomatch hcode
  | error e =>
      rcases run_of_generate_eq_error hgenerate with ⟨lowerBound, hrun⟩
      have hcode := (refuses_generate model settings e hgenerate).code
      simp only [hrun, Except.error.injEq, reduceCtorEq]
      refine ⟨fun hexpect => ?_, fun code hexpect => ?_, ?_, ?_, ?_, hreport⟩
      · simp [hexpect, verdictOn]
      · -- The verdict turns on the code alone.
        by_cases heq : code = e.code
        · simp [hexpect, verdictOn, heq]
        · simp [hexpect, verdictOn, heq, Ne.symm heq]
      · exact fun _ _ h => absurd h not_false
      · rintro _ rfl
        exact ⟨rfl, rfl, rfl, rfl⟩
      · exact fun code hc => Option.some.inj hc ▸ hcode

end Model

section Feasible

variable {space : Space} {lists : List (List Binding)} {rows : List Row} {positions : List Nat}

/-- Rows that meet all feasible obligations of a choice of positions are at
    least as many: each has the value tuple of one of them there. -/
theorem countP_feasible_le_length (hpositions : space.Choice positions)
    (hrows : ∀ row ∈ rows, row.length = space.width)
    (hmet : ∀ o ∈ obligationsOn space positions, space.Feasible lists o → o.MetBy rows) :
    ((obligationsOn space positions).countP fun o => space.Feasible lists o) ≤ rows.length := by
  rw [List.countP_eq_length_filter]
  have hnodup : (((obligationsOn space positions).filter fun o => space.Feasible lists o).map
      Obligation.values).Nodup := by
    have hall : ((obligationsOn space positions).map Obligation.values).Nodup := by
      rw [obligationsOn, hpositions.tuples, List.map_map]
      exact (nodup_product _).map fun _ _ heq => heq
    exact hall.sublist (List.filter_sublist.map _)
  have htuples : ((obligationsOn space positions).filter fun o => space.Feasible lists o).map
      Obligation.values ⊆ rows.map (·.valuesAt positions) := by
    intro values hvalues
    rcases List.mem_map.1 hvalues with ⟨o, ho, rfl⟩
    rw [List.mem_filter, decide_eq_true_eq] at ho
    rcases (mem_obligationsOn_iff hpositions).1 ho.1 with ⟨rfl, hproduct⟩
    rcases hmet o ho.1 ho.2 with ⟨row, hrow, hsat⟩
    have hlen : o.values.length = o.positions.length := by
      rw [length_of_mem_product hproduct, List.length_map]
    have hlt : ∀ p ∈ o.positions, p < row.length := fun p hp => by
      rw [hrows row hrow]
      exact hpositions.lt_width p hp
    exact List.mem_map.2 ⟨row, hrow, (Obligation.satisfiedBy_iff hlen hlt).1 hsat⟩
  have hle := (List.subperm_of_subset hnodup htuples).length_le
  rwa [List.length_map, List.length_map] at hle

/-- The obligations on a choice of positions are feasible or not. -/
theorem countP_feasible_add (space : Space) (lists : List (List Binding)) (hne : positions ≠ []) :
    ((obligationsOn space positions).countP fun o => space.Feasible lists o) +
      ((obligationsOn space positions).countP fun o => ¬ space.Feasible lists o) =
        tupleCount space positions := by
  rw [← length_obligationsOn space hne,
    List.length_eq_countP_add_countP fun o => space.Feasible lists o]
  simp only [decide_not, Bool.not_eq_true, decide_eq_false_iff_not]

end Feasible

namespace Model

variable {model : Model} {settings : Settings} {g : Generator}

/-- Where the result has rows, the run of the request has them. -/
theorem exists_run_of_rows (hg : model.generator settings = .ok g) {n : Nat}
    (hrows : (model.run settings).rows = some n) :
    ∃ array statistics, g.run model.seed = .ok (array, statistics) ∧ array.rows.length = n := by
  cases hrun : g.run model.seed with
  | ok generated =>
      rcases generated with ⟨array, statistics⟩
      rcases run_of_run_eq_ok hg hrun with ⟨_, _, hresult⟩
      rw [hresult] at hrows
      exact ⟨array, statistics, rfl, Option.some.inj hrows⟩
  | error e =>
      have hgenerate : model.generate settings = .error e := by
        unfold generate
        rw [hg]
        exact hrun
      rcases run_of_generate_eq_error hgenerate with ⟨lowerBound, hresult⟩
      rw [hresult] at hrows
      exact absurd hrows (by simp only [untried, reduceCtorEq, not_false_eq_true])

/-- How far the reported bound may exceed the reported rows. The bound is the
    number of value tuples of a choice of positions, and on any choice there are
    no more tuples than rows and infeasible obligations together. So without
    exclusions the rows are as many as the bound says. -/
theorem bound_le_rows_add_infeasible (hg : model.generator settings = .ok g) {n : Nat}
    (hrows : (model.run settings).rows = some n) :
    (∀ positions ∈ trackedSubsets g.space g.order g.submodels,
      tupleCount g.space positions ≤ n + ((obligationsOn g.space positions).countP
        fun o => ¬ g.space.Feasible model.exclusions o)) ∧
    ∃ bound, (model.run settings).lowerBound = some bound ∧
      (∃ positions ∈ trackedSubsets g.space g.order g.submodels,
        bound = min (tupleCount g.space positions) (2 ^ 64 - 1)) ∧
      (model.exclusions = [] → bound ≤ n) := by
  rcases exists_run_of_rows hg hrows with ⟨array, statistics, hrun, hlength⟩
  have haccepted := accepted_of_generator hg
  rcases Generator.run_eq_ok_iff.1 hrun with ⟨hcheck, rfl, _⟩
  rcases Run.complete_spec haccepted hcheck model.seed with ⟨hsound, hzero⟩
  have hn : (Run.complete g model.seed).rows.length = n := hlength
  have hchoice (positions : List Nat)
      (h : positions ∈ trackedSubsets g.space g.order g.submodels) : g.space.Choice positions :=
    choice_of_mem_trackedSubsets haccepted.wellPosed.submodels_ok h
  have hfewer : ∀ positions ∈ trackedSubsets g.space g.order g.submodels,
      tupleCount g.space positions ≤ n + ((obligationsOn g.space positions).countP
        fun o => ¬ g.space.Feasible model.exclusions o) := by
    intro positions hpositions
    have hle := countP_feasible_le_length (hchoice positions hpositions)
      (fun row hrow => Space.length_of_admits (hsound.allowed row hrow).1)
      fun o ho hfeasible =>
        (hsound.metBy_iff hzero (List.mem_flatMap.2 ⟨positions, hpositions, ho⟩)).2 <|
          (Space.feasible_ofLists_iff haccepted.exclusions).2 hfeasible
    have hsum := countP_feasible_add g.space model.exclusions (hchoice positions hpositions).ne_nil
    omega
  refine ⟨hfewer, ?_⟩
  rcases run_of_run_eq_ok hg hrun with ⟨widest, hwidest, hresult⟩
  refine ⟨min (tupleCount g.space widest) (wordLimit - 1), by rw [hresult],
    ⟨widest, hwidest, rfl⟩, fun hnone => ?_⟩
  -- Where nothing is excluded, all obligations on the widest choice are feasible.
  have hinfeasible : ((obligationsOn g.space widest).countP
      fun o => ¬ g.space.Feasible model.exclusions o) = 0 := by
    rw [List.countP_eq_zero, hnone]
    intro o ho
    have hspace := haccepted.inSpace (List.mem_flatMap.2 ⟨widest, hwidest, ho⟩)
    simp only [Space.feasible_nil hspace, not_true_eq_false, decide_false, Bool.false_eq_true,
      not_false_eq_true]
  have hle := hfewer widest hwidest
  omega

/-- Two parameters with two values each, of which the first ones do not go
    together. -/
def corner : Model where
  name := "corner"
  valueCounts := [2, 2]
  exclusions := [[⟨0, 0⟩, ⟨1, 0⟩]]

/-- The request of the corner. -/
def cornerRequest : Generator where
  space := .uniform 1 1
  order := 2
  exclusions := .ofMembers 2 [⟨[⟨0, 0⟩, ⟨1, 0⟩]⟩]
  seedRows := []
  submodels := []
  settings := .standard

/-- The array of the corner. -/
def cornerArray : CoveringArray where
  valueCounts := [2, 2]
  order := 2
  seed := 0
  submodels := []
  rows := [[0, 1], [1, 1], [1, 0]]

theorem generator_corner : corner.generator .standard = .ok cornerRequest := by cbv

theorem run_cornerRequest : cornerRequest.run 0 = .ok (cornerArray,
    { obligationsTotal := 4, obligationsExcluded := 1, rows := 3, candidatesScored := 120 }) := by
  decide +kernel

theorem run_corner :
    (corner.run .standard).rows = some 3 ∧ (corner.run .standard).lowerBound = some 4 := by
  have hbound : rowLowerBoundWith cornerRequest.space cornerRequest.order
      cornerRequest.submodels = .ok 4 := by cbv
  have hreport : cornerArray.check (some cornerRequest.exclusions) = .ok ⟨3, 2, 4, 3, 1⟩ := by
    decide +kernel
  have hrun : cornerRequest.run corner.seed = .ok _ := run_cornerRequest
  unfold run attempt
  rw [generator_corner]
  simp only [orInvalid, Except.mapError, hbound, hrun, hreport]
  exact ⟨rfl, rfl⟩

/-- One obligation of the corner is infeasible, and there is one row less than
    tuples. -/
theorem bound_le_rows_add_infeasible_corner :
    4 ≤ 3 + ((obligationsOn cornerRequest.space [0, 1]).countP
      fun o => ¬ cornerRequest.space.Feasible corner.exclusions o) :=
  (bound_le_rows_add_infeasible generator_corner run_corner.1).1 [0, 1]
    (List.mem_append_left _ (by decide))

/-- Three rows cover the corner, and the bound is four. -/
theorem rows_lt_bound_corner : ∃ rows bound, (corner.run .standard).rows = some rows ∧
    (corner.run .standard).lowerBound = some bound ∧ rows < bound :=
  ⟨3, 4, run_corner.1, run_corner.2, by decide⟩

end Model

end Covering
