import Covering.Proofs.Matrix
import Mathlib.Algebra.Ring.Nat
import Mathlib.Data.List.Induction

/-!
# The totals of the matrix

The report counts scenarios twice: all of them by their verdicts, and those of each
order in a bucket of its own. The counts agree. Every scenario has one verdict and goes
to one bucket, so both ways of counting share all scenarios out, with none left over and
none counted twice.

Buckets are made as scenarios come. What there is to know of them is told by the bucket
that is kept for an order, where an order that has not occurred has an empty one. As
long as the buckets are in ascending order, a scenario changes the bucket of its own
order and no other (`bucketOf_addTo`).

A bucket has four fields that are sums, of scenarios, of passed ones, of rows and of
bounds. They differ in what a scenario adds to them, if it adds anything, and all of
them stop at the largest word. `Sums` says so once for all four. A sum that stops is
what the full sum would be, cut at the largest word, whatever the order of its parts
is. Only where the sums of all buckets are added up does it matter that none of them
has stopped. The counts of scenarios never do, since the results are held in memory.

## Main definitions

* `ScenarioResult.measure?`: The rows and the bound that a result adds to its order.
* `capWord`: A sum that stops at the largest word.
* `Bucket.total`, `Bucket.Sums`: Sums over scenarios, and the fields that hold them.
* `Bucket.tally`, `Bucket.bucketOf`: The buckets of scenarios, and that of one order.
* `OrderRow.SumsUp`: What a row of the report says of the results of its order.

## Theorems

* `Bucket.exists_add_eq`: What a scenario adds to a bucket.
* `Bucket.Sums.add_capWord`: A sum with one more scenario.
* `Bucket.mem_orders_addTo`, `Bucket.ascending_addTo`, `Bucket.bucketOf_addTo`: The
  buckets with one more scenario.
* `Bucket.Sums.of_mem_tally`: What a bucket sums up.
* `Bucket.Sums.sum_tally`: What all buckets sum up together.
* `matrixOf_totals`: The totals of a report.
-/

namespace Covering

/-- The rows and the bound of a result that has both, unless the bound is zero. -/
def ScenarioResult.measure? (result : ScenarioResult) : Option (Nat × Nat) :=
  match result.rows, result.lowerBound with
  | some rows, some bound => if 0 < bound then some (rows, bound) else none
  | _, _ => none

/-- The rows and the bound of a scenario with a ratio. -/
def ScenarioRow.measure? (row : ScenarioRow) : Option (Nat × Nat) :=
  match row.rows, row.lowerBound, row.ratio with
  | some rows, some bound, some _ => some (rows, bound)
  | _, _, _ => none

/-- There is a ratio where it can be taken. -/
theorem ScenarioRow.measure?_ofResult (campaign : String) (result : ScenarioResult) :
    (ofResult campaign result).measure? = result.measure? := by
  rw [ScenarioResult.measure?]
  cases hrows : result.rows with
  | none => simp only [measure?, ofResult, hrows]
  | some rows =>
      cases hbound : result.lowerBound with
      | none => simp only [measure?, ofResult, hrows, hbound]
      | some bound =>
          simp only [measure?, ofResult, hrows, hbound]
          by_cases hpos : 0 < bound
          · rw [if_pos hpos, if_pos hpos]
          · rw [if_neg hpos, if_neg hpos]

/-- A sum of words that stops at the largest one. -/
def capWord (n : Nat) : Nat := min n (wordLimit - 1)

theorem capWord_of_lt {n : Nat} (h : n < wordLimit) : capWord n = n :=
  Nat.min_eq_left (Nat.le_sub_one_of_lt h)

/-- Where a sum stops does not depend on its steps. -/
theorem addWords_capWord (m n : Nat) : Bucket.addWords (capWord m) n = capWord (m + n) := by
  simp only [Bucket.addWords, capWord]
  omega

namespace Bucket

variable {bucket : Bucket} {row : ScenarioRow} {buckets : List Bucket} {rs : List ScenarioRow}
  {field : Bucket → Nat} {part? : ScenarioRow → Option Nat}

section Add

/-- What a scenario adds to a bucket. -/
theorem exists_add_eq (bucket : Bucket) (row : ScenarioRow) :
    ∃ ratioSum ratios, bucket.add row =
      { order := bucket.order
        scenarios := addWords bucket.scenarios 1
        passed := if row.passed then addWords bucket.passed 1 else bucket.passed
        rows := row.measure?.elim bucket.rows (addWords bucket.rows ·.1)
        bound := row.measure?.elim bucket.bound (addWords bucket.bound ·.2)
        ratioSum, ratios } := by
  unfold add ScenarioRow.measure?
  -- A scenario that lacks one of the three adds to the counts only.
  cases row.rows <;> cases row.lowerBound <;> cases row.ratio <;> exact ⟨_, _, rfl⟩

theorem order_add (bucket : Bucket) (row : ScenarioRow) :
    (bucket.add row).order = bucket.order := by
  rcases exists_add_eq bucket row with ⟨_, _, hadd⟩
  rw [hadd]

/-- The sum over the scenarios that have a part in it. -/
def total (part? : ScenarioRow → Option Nat) (rs : List ScenarioRow) : Nat :=
  (rs.filterMap part?).sum

theorem total_concat (part? : ScenarioRow → Option Nat) (rs : List ScenarioRow)
    (row : ScenarioRow) : total part? (rs ++ [row]) = total part? rs + (part? row).getD 0 := by
  rw [total, total, List.filterMap_append, List.sum_append, List.filterMap_cons,
    List.filterMap_nil]
  cases part? row with
  | none => rfl
  | some n => rw [List.sum_singleton, Option.getD_some]

/-- Scenarios of one kind, to be counted. -/
def tick (p : ScenarioRow → Bool) (row : ScenarioRow) : Option Nat :=
  if p row then some 1 else none

theorem total_tick (p : ScenarioRow → Bool) (rs : List ScenarioRow) :
    total (tick p) rs = rs.countP p := by
  induction rs using List.reverseRecOn with
  | nil => rfl
  | append_singleton rs row ih =>
      rw [total_concat, ih, List.countP_append, List.countP_singleton, tick]
      split <;> rfl

/-- A field of buckets sums up the parts of scenarios, as far as there is room. -/
structure Sums (field : Bucket → Nat) (part? : ScenarioRow → Option Nat) : Prop where
  empty : ∀ order, field { order } = 0
  add : ∀ bucket row,
    field (bucket.add row) = (part? row).elim (field bucket) (addWords (field bucket))

theorem sums_scenarios : Sums (·.scenarios) (tick fun _ => true) where
  empty _ := rfl
  add bucket row := by
    rcases exists_add_eq bucket row with ⟨_, _, hadd⟩
    rw [hadd]
    rfl

theorem sums_passed : Sums (·.passed) (tick (·.passed)) where
  empty _ := rfl
  add bucket row := by
    rcases exists_add_eq bucket row with ⟨_, _, hadd⟩
    rw [hadd, tick]
    by_cases hpassed : row.passed = true
    · rw [if_pos hpassed, if_pos hpassed, Option.elim_some]
    · rw [if_neg hpassed, if_neg hpassed, Option.elim_none]

theorem sums_rows : Sums (·.rows) (·.measure?.map Prod.fst) where
  empty _ := rfl
  add bucket row := by
    rcases exists_add_eq bucket row with ⟨_, _, hadd⟩
    rw [hadd]
    cases row.measure? <;> rfl

theorem sums_bound : Sums (·.bound) (·.measure?.map Prod.snd) where
  empty _ := rfl
  add bucket row := by
    rcases exists_add_eq bucket row with ⟨_, _, hadd⟩
    rw [hadd]
    cases row.measure? <;> rfl

/-- With one more part a sum is what the full one would be, cut at the largest word. -/
theorem Sums.add_capWord (hsums : Sums field part?) {n : Nat} (h : field bucket = capWord n)
    (row : ScenarioRow) : field (bucket.add row) = capWord (n + (part? row).getD 0) := by
  rw [hsums.add, h]
  cases part? row with
  | none => rfl
  | some k => exact addWords_capWord n k

end Add

section AddTo

/-- The bucket that is kept for an order, empty if there is none. -/
def bucketOf (buckets : List Bucket) (order : Nat) : Bucket :=
  (buckets.find? (·.order = order)).getD { order }

theorem bucketOf_cons (bucket : Bucket) (buckets : List Bucket) (order : Nat) :
    bucketOf (bucket :: buckets) order =
      if bucket.order = order then bucket else bucketOf buckets order := by
  rw [bucketOf, List.find?_cons]
  by_cases h : bucket.order = order
  · rw [if_pos h, decide_eq_true h]
    rfl
  · rw [if_neg h, decide_eq_false h]
    rfl

/-- A scenario of an order without a bucket finds an empty one. -/
theorem bucketOf_eq_of_forall_ne {order : Nat} (h : ∀ b ∈ buckets, b.order ≠ order) :
    bucketOf buckets order = { order } := by
  rw [bucketOf, List.find?_eq_none.2 fun b hb => by rw [decide_eq_true_eq]; exact h b hb]
  rfl

theorem bucketOf_eq_of_mem (hasc : buckets.Pairwise (·.order < ·.order))
    (h : bucket ∈ buckets) : bucketOf buckets bucket.order = bucket := by
  induction buckets with
  | nil => exact absurd h List.not_mem_nil
  | cons first rest ih =>
      rw [bucketOf_cons]
      rcases List.mem_cons.1 h with rfl | hrest
      · rw [if_pos rfl]
      · rw [if_neg (Nat.ne_of_lt (List.rel_of_pairwise_cons hasc hrest)),
          ih hasc.of_cons hrest]

/-- Orders get a bucket with their first scenario. -/
theorem mem_orders_addTo {order : Nat} :
    order ∈ (addTo row buckets).map (·.order) ↔
      order = row.order ∨ order ∈ buckets.map (·.order) := by
  induction buckets with
  | nil => simp only [addTo, List.map_cons, List.map_nil, List.mem_singleton, order_add,
      List.not_mem_nil, or_false]
  | cons bucket rest ih =>
      rw [addTo]
      split
      · rw [List.map_cons, List.mem_cons, order_add]
      · split
        · rename_i heq
          rw [List.map_cons, List.map_cons, List.mem_cons, List.mem_cons, order_add, heq,
            or_self_left]
        · rw [List.map_cons, List.map_cons, List.mem_cons, List.mem_cons, ih, or_left_comm]

theorem ascending_addTo (hasc : buckets.Pairwise (·.order < ·.order)) (row : ScenarioRow) :
    (addTo row buckets).Pairwise (·.order < ·.order) := by
  induction buckets with
  | nil => exact List.pairwise_singleton ..
  | cons bucket rest ih =>
      rcases List.pairwise_cons.1 hasc with ⟨hfirst, hrest⟩
      rw [addTo]
      split
      · rename_i hlt
        refine List.pairwise_cons.2 ⟨List.forall_mem_cons.2 ⟨?_, fun b hb => ?_⟩, hasc⟩
        · rwa [order_add]
        · rw [order_add]
          exact Nat.lt_trans hlt (hfirst b hb)
      · split
        · refine List.pairwise_cons.2 ⟨fun b hb => ?_, hrest⟩
          rw [order_add]
          exact hfirst b hb
        · refine List.pairwise_cons.2 ⟨fun b hb => ?_, ih hrest⟩
          -- What comes behind has the order of the scenario or was there before.
          rcases mem_orders_addTo.1 (List.mem_map_of_mem hb) with heq | hmem
          · omega
          · rcases List.mem_map.1 hmem with ⟨old, hold, heq⟩
            exact heq ▸ hfirst old hold

/-- A scenario goes to the bucket of its order and leaves the others as they are. -/
theorem bucketOf_addTo (hasc : buckets.Pairwise (·.order < ·.order)) (row : ScenarioRow)
    (order : Nat) :
    bucketOf (addTo row buckets) order =
      if row.order = order then (bucketOf buckets order).add row else bucketOf buckets order := by
  induction buckets with
  | nil =>
      rw [addTo, bucketOf_cons, order_add]
      split
      · rename_i heq
        rw [← heq]
        rfl
      · rfl
  | cons bucket rest ih =>
      rcases List.pairwise_cons.1 hasc with ⟨hfirst, hrest⟩
      rw [addTo]
      split
      · -- The order of the scenario is less than all others, so it has no bucket yet.
        rename_i hlt
        rw [bucketOf_cons, order_add]
        split
        · rename_i heq
          subst heq
          rw [bucketOf_eq_of_forall_ne]
          exact List.forall_mem_cons.2 ⟨Nat.ne_of_gt hlt,
            fun b hb => Nat.ne_of_gt (Nat.lt_trans hlt (hfirst b hb))⟩
        · rfl
      · split
        · rename_i heq
          rw [bucketOf_cons, bucketOf_cons, order_add, heq]
          split <;> rfl
        · rename_i hne
          rw [bucketOf_cons, bucketOf_cons, ih hrest]
          split
          · rename_i heq
            rw [if_neg (heq ▸ hne)]
          · rfl

/-- Over all buckets, a sum grows by the part of the scenario as long as there is room
    for all of it. -/
theorem Sums.sum_addTo (hsums : Sums field part?)
    (hroom : (buckets.map field).sum + (part? row).getD 0 < wordLimit) :
    ((addTo row buckets).map field).sum = (buckets.map field).sum + (part? row).getD 0 := by
  have hadd {bucket : Bucket} (h : field bucket + (part? row).getD 0 < wordLimit) :
      field (bucket.add row) = field bucket + (part? row).getD 0 := by
    have hself := (capWord_of_lt (Nat.lt_of_add_right_lt h)).symm
    rw [hsums.add_capWord hself, capWord_of_lt h]
  have hnew (h : (part? row).getD 0 < wordLimit) :
      field (Bucket.add { order := row.order } row) = (part? row).getD 0 := by
    have hempty := hsums.empty row.order
    rw [hadd (by rwa [hempty, Nat.zero_add]), hempty, Nat.zero_add]
  -- No bucket has more than all of them together, so each of them has room too.
  induction buckets with
  | nil =>
      rw [List.map_nil, List.sum_nil, Nat.zero_add] at hroom ⊢
      rw [addTo, List.map_singleton, List.sum_singleton, hnew hroom]
  | cons bucket rest ih =>
      rw [List.map_cons, List.sum_cons] at hroom ⊢
      rw [addTo]
      split
      · rw [List.map_cons, List.sum_cons, List.map_cons, List.sum_cons, hnew (by omega),
          Nat.add_comm]
      · split
        · rw [List.map_cons, List.sum_cons, hadd (by omega), Nat.add_right_comm]
        · rw [List.map_cons, List.sum_cons, ih (by omega), Nat.add_assoc]

end AddTo

section Tally

/-- The buckets of scenarios. -/
def tally (rs : List ScenarioRow) : List Bucket :=
  rs.foldl (fun buckets row => addTo row buckets) []

theorem tally_concat (rs : List ScenarioRow) (row : ScenarioRow) :
    tally (rs ++ [row]) = addTo row (tally rs) := List.foldl_concat ..

theorem ascending_tally (rs : List ScenarioRow) : (tally rs).Pairwise (·.order < ·.order) := by
  induction rs using List.reverseRecOn with
  | nil => exact .nil
  | append_singleton rs row ih =>
      rw [tally_concat]
      exact ascending_addTo ih row

/-- The orders with a bucket are those that occur. -/
theorem mem_orders_tally {order : Nat} :
    order ∈ (tally rs).map (·.order) ↔ order ∈ rs.map (·.order) := by
  induction rs using List.reverseRecOn with
  | nil => rfl
  | append_singleton rs row ih =>
      rw [tally_concat, mem_orders_addTo, ih, List.map_append, List.mem_append,
        List.map_singleton, List.mem_singleton, or_comm]

/-- The bucket of an order sums up the scenarios of the order. -/
theorem Sums.bucketOf_tally (hsums : Sums field part?) (rs : List ScenarioRow) (order : Nat) :
    field (bucketOf (tally rs) order) = capWord (total part? (rs.filter (·.order = order))) := by
  induction rs using List.reverseRecOn with
  | nil => exact hsums.empty order
  | append_singleton rs row ih =>
      rw [tally_concat, bucketOf_addTo (ascending_tally rs), List.filter_append,
        List.filter_singleton]
      by_cases horder : row.order = order
      · rw [if_pos horder, decide_eq_true horder, cond_true, total_concat]
        exact hsums.add_capWord ih row
      · rw [if_neg horder, decide_eq_false horder, cond_false, List.append_nil, ih]

theorem Sums.of_mem_tally (hsums : Sums field part?) (h : bucket ∈ tally rs) :
    field bucket = capWord (total part? (rs.filter (·.order = bucket.order))) := by
  have hfield := hsums.bucketOf_tally rs bucket.order
  rwa [bucketOf_eq_of_mem (ascending_tally rs) h] at hfield

/-- All buckets together sum up all scenarios. -/
theorem Sums.sum_tally (hsums : Sums field part?) (hroom : total part? rs < wordLimit) :
    ((tally rs).map field).sum = total part? rs := by
  induction rs using List.reverseRecOn with
  | nil => rfl
  | append_singleton rs row ih =>
      rw [total_concat] at hroom ⊢
      have hsum := ih (Nat.lt_of_add_right_lt hroom)
      rw [tally_concat, hsums.sum_addTo (hsum ▸ hroom), hsum]

/-- Scenarios that are counted have room, as there are fewer of them than words. -/
theorem Sums.sum_tally_tick {p : ScenarioRow → Bool} (hsums : Sums field (tick p))
    (h : rs.length < wordLimit) : ((tally rs).map field).sum = rs.countP p := by
  have hroom : total (tick p) rs < wordLimit := by
    rw [total_tick]
    exact Nat.lt_of_le_of_lt List.countP_le_length h
  rw [hsums.sum_tally hroom, total_tick]

end Tally

end Bucket

/-- The row sums up the results of an order. -/
structure OrderRow.SumsUp (row : OrderRow) (results : List ScenarioResult) : Prop where
  scenarios : row.scenarios = results.length
  passed : row.passed = results.countP (·.passed)
  totalRows : row.totalRows = capWord (results.filterMap (·.measure?.map Prod.fst)).sum
  totalLowerBound :
    row.totalLowerBound = capWord (results.filterMap (·.measure?.map Prod.snd)).sum

section Report

variable {rs : List ScenarioRow} {results : List ScenarioResult} {campaign : String}

/-- What is summed up of the rows of a report is summed up of the results. -/
theorem total_measure (hperm : rs.Perm (results.map (ScenarioRow.ofResult campaign)))
    (f : Nat × Nat → Nat) :
    Bucket.total (·.measure?.map f) rs = (results.filterMap (·.measure?.map f)).sum := by
  rw [Bucket.total, (hperm.filterMap _).sum_nat, List.filterMap_map]
  refine congrArg List.sum (List.filterMap_congr fun result _ => ?_)
  rw [Function.comp_apply, ScenarioRow.measure?_ofResult]

theorem countP_passed (hperm : rs.Perm (results.map (ScenarioRow.ofResult campaign))) :
    rs.countP (·.passed) = results.countP (·.passed) := by
  rw [hperm.countP_eq, List.countP_map]
  rfl

/-- The bucket of an order makes a row that sums up its results. -/
theorem sumsUp_of_mem_tally {bucket : Bucket} (h : bucket ∈ Bucket.tally rs)
    (hperm : rs.Perm (results.map (ScenarioRow.ofResult campaign)))
    (hlength : results.length < wordLimit) :
    bucket.toRow.SumsUp (results.filter (·.order = bucket.order)) := by
  have horder : (rs.filter (·.order = bucket.order)).Perm
      ((results.filter (·.order = bucket.order)).map (ScenarioRow.ofResult campaign)) := by
    have hfilter := hperm.filter (·.order = bucket.order)
    rwa [List.filter_map] at hfilter
  have hroom : (results.filter (·.order = bucket.order)).length < wordLimit :=
    Nat.lt_of_le_of_lt (List.length_filter_le ..) hlength
  refine ⟨(Bucket.sums_scenarios.of_mem_tally h).trans ?_,
    (Bucket.sums_passed.of_mem_tally h).trans ?_, (Bucket.sums_rows.of_mem_tally h).trans ?_,
    (Bucket.sums_bound.of_mem_tally h).trans ?_⟩
  · rw [Bucket.total_tick, List.countP_true, horder.length_eq, List.length_map,
      capWord_of_lt hroom]
  · rw [Bucket.total_tick, countP_passed horder]
    exact capWord_of_lt (Nat.lt_of_le_of_lt List.countP_le_length hroom)
  · rw [total_measure horder]
  · rw [total_measure horder]

/-- Every scenario has one of the verdicts. -/
theorem countP_verdict (rs : List ScenarioRow) :
    rs.countP (·.verdict == .pass) + rs.countP (·.verdict == .fail) +
      rs.countP (·.verdict == .error) = rs.length := by
  induction rs with
  | nil => rfl
  | cons row rs ih =>
      simp only [List.countP_cons, List.length_cons]
      cases row.verdict <;> simp only [beq_iff_eq, reduceCtorEq, if_true, if_false] <;> omega

end Report

/-- The totals of a report share its scenarios out. There is one scenario for each
    result, and each is counted under one verdict. There is one row for each order that
    occurs, in ascending order, and it sums up the results of its order: the number of
    them and of those that passed, and the rows and the bounds of those that have both,
    where a sum stops at the largest word. Over all orders the scenarios are as many as
    in the summary, and so are those that passed. All have passed exactly when each of the
    results has. -/
theorem matrixOf_totals (settings : Settings) (campaign : String) {results : List ScenarioResult}
    (h : results.length < wordLimit) :
    let report := matrixOf results settings campaign
    report.scenarios.Perm (results.map (ScenarioRow.ofResult campaign)) ∧
    (report.summary.passed + report.summary.failed + report.summary.errors =
        report.summary.totalScenarios ∧ report.summary.totalScenarios = results.length) ∧
    ((report.orders.map (·.order)).Pairwise (· < ·) ∧
      ∀ order, order ∈ report.orders.map (·.order) ↔ order ∈ results.map (·.order)) ∧
    ((report.orders.map (·.scenarios)).sum = report.summary.totalScenarios ∧
      (report.orders.map (·.passed)).sum = report.summary.passed) ∧
    (∀ row ∈ report.orders, row.SumsUp (results.filter (·.order = row.order))) ∧
    (report.allPassed = true ↔ ∀ result ∈ results, result.verdict = .pass) := by
  intro report
  -- Everything is added up over the sorted rows, and their order makes no difference.
  have hperm := perm_scenarios results settings campaign
  have hcount : report.scenarios.length = results.length := by
    rw [hperm.length_eq, List.length_map]
  have hroom : report.scenarios.length < wordLimit := hcount ▸ h
  have horders : report.orders = (Bucket.tally report.scenarios).map Bucket.toRow := rfl
  refine ⟨hperm, ⟨countP_verdict report.scenarios, hcount⟩, ⟨?_, fun order => ?_⟩, ⟨?_, ?_⟩,
    fun row hrow => ?_, allPassed_iff results settings campaign⟩
  · rw [horders, List.map_map, List.pairwise_map]
    exact Bucket.ascending_tally report.scenarios
  · have hkeys := hperm.map (·.order)
    rw [List.map_map] at hkeys
    rw [horders, List.map_map]
    exact Bucket.mem_orders_tally.trans hkeys.mem_iff
  · rw [horders, List.map_map]
    exact (Bucket.sums_scenarios.sum_tally_tick hroom).trans (congrFun List.countP_true _)
  · rw [horders, List.map_map]
    exact Bucket.sums_passed.sum_tally_tick hroom
  · rw [horders] at hrow
    rcases List.mem_map.1 hrow with ⟨bucket, hbucket, rfl⟩
    exact sumsUp_of_mem_tally hbucket hperm h

section Sample

/-- Two results of one order, whose rows together have no room in a word, and one of
    another order. -/
def resultsOfOrders : List ScenarioResult :=
  [resultOfSeed 0 18446744073709551615, resultOfSeed 1 12,
    { resultOfSeed 2 9 with order := 1, verdict := .fail }]

end Sample

/-- The rows stop at the largest word, and the bounds are summed up. -/
theorem matrixOf_totals_capped :
    resultsOfOrders.length < wordLimit ∧
      ∃ row ∈ (matrixOf resultsOfOrders {} "c").orders, row.order = 2 ∧ row.scenarios = 2 ∧
        row.passed = 2 ∧ row.totalRows = 18446744073709551615 ∧ row.totalLowerBound = 20 := by
  have hlength : resultsOfOrders.length < wordLimit := by decide
  have htotals := matrixOf_totals {} "c" hlength
  rcases List.mem_map.1 ((htotals.2.2.1.2 2).2 (by decide)) with ⟨row, hrow, horder⟩
  have hsums := htotals.2.2.2.2.1 row hrow
  rw [horder] at hsums
  exact ⟨hlength, row, hrow, horder, hsums.scenarios, hsums.passed, hsums.totalRows,
    hsums.totalLowerBound⟩

end Covering
