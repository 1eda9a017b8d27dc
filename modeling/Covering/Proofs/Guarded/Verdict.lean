import Covering.Proofs.Count
import Covering.Proofs.Guarded.Completion
import Covering.Proofs.Verdict

/-!
# Checking arrays from anywhere

An array that was read and not generated may hold anything: counts that make no
space, an order that is too large, submodels in disorder, rows of any shape. The
exclusions it is checked under may be those of a space of another width. Checking
such an array always ends with a report or an error, and never with an access
that is out of range.

It is safe because each stage relies only on what an earlier one has checked.
Counts that pass make a space; an order and submodels that pass choose positions
of that space (`choice_of_mem_trackedSubsets`); rows that pass have its width.
Only then are rows and counts read at these positions. Searches for completions
rely on the width of the partial row alone. The one number that could grow too
large is the count of obligations, and it is assumed to be a word.

The stages come one after the other, so the first fault decides. `Judged` writes
the stages down, one for each way the check can end.

## Main definitions

* `Guarded.tally`, `Guarded.checkCoverage`, `Guarded.check`: The check with a guard
  at each access.
* `Judged`: How a check ends.

## Theorems

* `trackedSubsets_eq_some`: Listing choices of positions meets no fault.
* `tally_eq_some`: Nor does counting obligations of rows with the right width.
* `checkCoverage_eq_some`: Nor does the whole check.
* `judged_check`: The first fault decides.
* `check_never_faults`: Arrays from anywhere can be checked.
-/

namespace Covering

namespace Guarded

/-- The choices of positions that a submodel asks for, by their places in it. -/
def subsetsOf (s : Submodel) : Option (List (List Nat)) :=
  (subsets s.positions.length s.order).mapM fun places => places.mapM (s.positions[·]?)

/-- The choices of positions to be covered. -/
def trackedSubsets (space : Space) (order : Nat) (submodels : List Submodel) :
    Option (List (List Nat)) := do
  let raised ← (submodels.filter (order < ·.order)).mapM subsetsOf
  return subsets space.width order ++ (raised.flatten.mergeSort isLE).eraseReps

/-- The first value out of range, from the given position on. -/
def valueFault (space : Space) : Nat → Row → Option (Option RowFault)
  | _, [] => some none
  | position, value :: row => do
    let count ← space.counts[position]?
    if value < count then valueFault space (position + 1) row
    else pure (some (.outOfRange value position count))

/-- The first fault of a row. -/
def rowFault (space : Space) (row : Row) : Option (Option RowFault) :=
  if row.length = space.width then valueFault space 0 row
  else some (some (.wrongWidth row.length space.width))

/-- The first faulty row. -/
def rowError (space : Space) (set : ExclusionSet) : List (Row × Nat) → Option (Option CoverError)
  | [] => some none
  | (row, i) :: rest => do
    match ← rowFault space row with
    | some fault => pure (some (.malformedRow i fault))
    | none =>
      match set.violation? row with
      | some e => pure (some (.excludedRow i e.bindings))
      | none => rowError space set rest

/-- Counts one obligation, as long as the number of all is a word. -/
def add (space : Space) (set : ExclusionSet) (seen : List (List Nat)) (positions : List Nat)
    (tally : Tally) (values : List Nat) : Option Tally :=
  if tally.total + 1 < wordLimit then
    if seen.contains values then some { tally with covered := tally.covered + 1 }
    else do
      let o ← obligation positions values
      if set.isEmpty then pure { tally with missing := o :: tally.missing }
      else if ← feasible set space o then pure { tally with missing := o :: tally.missing }
      else pure { tally with excluded := tally.excluded + 1 }
  else none

/-- Counts all obligations on the given positions. -/
def addSubset (space : Space) (set : ExclusionSet) (rows : List Row) (tally : Tally)
    (positions : List Nat) : Option Tally := do
  let seen ← rows.mapM fun row => positions.mapM (row[·]?)
  let radices ← positions.mapM (space.counts[·]?)
  (tuples radices).foldlM (add space set seen positions) tally

/-- Every obligation, sorted into covered, excluded and missing. -/
def tally (space : Space) (order : Nat) (set : ExclusionSet) (submodels : List Submodel)
    (rows : List Row) : Option Tally := do
  (← trackedSubsets space order submodels).foldlM (addSubset space set rows) {}

/-- The verdict on rows. -/
def checkCoverage (rows : List Row) (space : Space) (order : Nat) (set : ExclusionSet)
    (submodels : List Submodel) : Option (Except CoverError Report) :=
  match orInvalid (space.checkOrder order), orInvalid (submodels.forM (·.check space)) with
  | .error e, _ => some (.error e)
  | _, .error e => some (.error e)
  | .ok _, .ok _ => do
    match ← rowError space set rows.zipIdx with
    | some e => return .error e
    | none =>
      let counts ← tally space order set submodels rows
      if counts.missing.isEmpty then
        return .ok { rows := rows.length
                     order
                     obligationsTotal := counts.total
                     obligationsCovered := counts.covered
                     obligationsExcluded := counts.excluded }
      else
        let reported := counts.missing.reverse.take reportedGaps
        return .error (.coverageGap counts.missing.length reported)

/-- The verdict on an array. -/
def check (array : CoveringArray) (exclusions : Option ExclusionSet) :
    Option (Except CoverError Report) :=
  match orInvalid (Space.ofCounts array.valueCounts) with
  | .error e => some (.error e)
  | .ok space =>
    checkCoverage array.rows space array.order (exclusions.getD (.empty space)) array.submodels

section Choices

/-- Places in a list are read without fault, whatever the list is. -/
theorem subsetsOf_eq_some (s : Submodel) : subsetsOf s = some s.subsets := by
  have hplaces : ∀ places ∈ subsets s.positions.length s.order,
      places.mapM (s.positions[·]?) = some (places.map (s.positions.getD · 0)) := by
    intro places hmem
    refine mapM_getElem?_eq_some 0 fun i hi => ?_
    exact List.mem_range.1 ((mem_subsets_iff.1 hmem).2.1.subset hi)
  have hself : (List.range s.positions.length).map (s.positions.getD · 0) = s.positions := by
    refine List.ext_getElem (by rw [List.length_map, List.length_range]) fun i hi hi' => ?_
    rw [List.getElem_map, List.getElem_range, List.getD_eq_getElem?_getD,
      List.getElem?_eq_getElem hi', Option.getD_some]
  rw [subsetsOf, mapM_eq_some hplaces, Submodel.subsets, subsets]
  split
  · rfl
  · rw [← choose_map, hself]

theorem trackedSubsets_eq_some (space : Space) (order : Nat) (submodels : List Submodel) :
    trackedSubsets space order submodels =
      some (Covering.trackedSubsets space order submodels) := by
  rw [trackedSubsets, mapM_eq_some fun s _ => subsetsOf_eq_some s]
  simp only [Option.bind_eq_bind, Option.bind_some, Option.pure_def, Covering.trackedSubsets,
    extraSubsets, List.flatMap_def]

end Choices

section Rows

variable {space : Space} {set : ExclusionSet} {rows : List Row}

theorem valueFault_eq_some {position : Nat} {row : Row}
    (h : position + row.length = space.width) :
    valueFault space position row =
      some (Space.valueFault? position row (space.counts.drop position)) := by
  induction row generalizing position with
  | nil => rfl
  | cons value row ih =>
      rw [List.length_cons] at h
      have hlt : position < space.counts.length := by
        unfold Space.width at h
        omega
      rw [valueFault, List.getElem?_eq_getElem hlt, List.drop_eq_getElem_cons hlt,
        Space.valueFault?]
      simp only [Option.bind_eq_bind, Option.bind_some]
      split
      · exact ih (by omega)
      · rfl

theorem rowFault_eq_some (space : Space) (row : Row) :
    rowFault space row = some (space.rowFault? row) := by
  unfold rowFault Space.rowFault?
  split
  · rename_i hlen
    rw [valueFault_eq_some (by rw [Nat.zero_add, hlen]), List.drop_zero]
  · rfl

/-- Looking for a faulty row meets no fault of its own. -/
theorem rowError_eq_some (space : Space) (set : ExclusionSet) (entries : List (Row × Nat)) :
    rowError space set entries = some (entries.findSome? (rowError? space set)) := by
  induction entries with
  | nil => rfl
  | cons entry entries ih =>
      rcases entry with ⟨row, i⟩
      rw [rowError, rowFault_eq_some, List.findSome?_cons, rowError?]
      simp only [Option.bind_eq_bind, Option.bind_some]
      cases space.rowFault? row with
      | some fault => rfl
      | none =>
          cases set.violation? row with
          | some e => rfl
          | none => exact ih

end Rows

section Counting

variable {space : Space} {set : ExclusionSet} {rows : List Row} {positions : List Nat}

/-- Counting one obligation on a choice of positions. -/
theorem add_eq_some (hset : set.Indexed) (hpositions : space.Choice positions)
    {values : List Nat} (hvalues : values ∈ product (positions.map space.count)) {tally : Tally}
    (hroom : tally.total + 1 < wordLimit) (seen : List (List Nat)) :
    add space set seen positions tally values =
      some (tally.add space set seen ⟨positions, values⟩) := by
  have hlen : positions.length = values.length := by
    rw [length_of_mem_product hvalues, List.length_map]
  have hspace := Obligation.inSpace_of_choice hpositions hvalues
  have hobligation := obligation_eq_some hlen hpositions.ascending
  have hfeasible := feasible_eq_some (o := ⟨positions, values⟩) hset hlen hspace.position_lt
  unfold add Tally.add
  rw [if_pos hroom]
  simp only [hobligation, hfeasible, Option.bind_eq_bind, Option.bind_some]
  -- Seen, or not looked at without exclusions, or feasible, or not.
  cases seen.contains values with
  | true => rfl
  | false =>
      cases set.isEmpty with
      | true => rfl
      | false => cases set.feasible space ⟨positions, values⟩ <;> rfl

/-- Counting the obligations on a choice of positions. -/
theorem addSubset_eq_some (hset : set.Indexed) (hpositions : space.Choice positions)
    (hrows : ∀ row ∈ rows, row.length = space.width) {tally : Tally}
    (hroom : tally.total + (obligationsOn space positions).length < wordLimit) :
    addSubset space set rows tally positions =
      some (tally.addSubset space set rows positions) := by
  have hproject : ∀ row ∈ rows,
      positions.mapM (row[·]?) = some (positions.map fun p => row.getD p 0) := by
    intro row hrow
    refine mapM_getElem?_eq_some 0 fun p hp => ?_
    rw [hrows row hrow]
    exact hpositions.lt_width p hp
  unfold addSubset
  rw [mapM_eq_some hproject, mapM_counts_eq_some hpositions.lt_width, Tally.addSubset,
    obligationsOn, List.foldl_map]
  rw [obligationsOn, List.length_map] at hroom
  simp only [Option.bind_eq_bind, Option.bind_some]
  refine foldlM_eq_some (fun rest tally => tally.total + rest.length < wordLimit ∧
    ∀ values ∈ rest, values ∈ product (positions.map space.count)) (fun values rest tally h => ?_)
    ⟨hroom, fun values hvalues => hpositions.tuples ▸ hvalues⟩
  rcases h with ⟨hrest, hmem⟩
  rw [List.forall_mem_cons] at hmem
  rw [List.length_cons] at hrest
  refine ⟨add_eq_some hset hpositions hmem.1 (by omega) _, ?_, hmem.2⟩
  rw [Tally.total_add]
  omega

/-- Counting all obligations of rows with the width of the space. -/
theorem tally_eq_some {order : Nat} {submodels : List Submodel} (hset : set.Indexed)
    (hposed : space.WellPosed order submodels) (hrows : ∀ row ∈ rows, row.length = space.width)
    (hcount : (trackedObligations space order submodels).length < wordLimit) :
    tally space order set submodels rows =
      some (Covering.tally space order set submodels rows) := by
  unfold tally
  rw [trackedSubsets_eq_some]
  -- The obligations counted and those still to come are all there are.
  refine foldlM_eq_some (fun rest tally =>
    tally.total + (rest.flatMap (obligationsOn space)).length < wordLimit ∧
      ∀ positions ∈ rest, space.Choice positions) (fun positions rest tally h => ?_)
    ⟨by rwa [show Tally.total {} = 0 from rfl, Nat.zero_add], fun positions h =>
      choice_of_mem_trackedSubsets hposed.submodels_ok h⟩
  rcases h with ⟨hrest, hchoice⟩
  rw [List.forall_mem_cons] at hchoice
  rw [List.flatMap_cons, List.length_append] at hrest
  refine ⟨addSubset_eq_some hset hchoice.1 hrows (by omega), ?_, hchoice.2⟩
  rw [Tally.total_addSubset]
  omega

end Counting

section Check

variable {space : Space} {set : ExclusionSet} {order : Nat} {submodels : List Submodel}

/-- The check of rows meets no fault. -/
theorem checkCoverage_eq_some (rows : List Row) (hset : set.Indexed)
    (hcount : space.WellPosed order submodels →
      (trackedObligations space order submodels).length < wordLimit) :
    checkCoverage rows space order set submodels =
      some (Covering.checkCoverage rows space order set submodels) := by
  unfold checkCoverage
  cases horder : space.checkOrder order with
  | error fault =>
      rw [Covering.checkCoverage, horder]
      rfl
  | ok _ =>
      cases hsub : submodels.forM (·.check space) with
      | error fault =>
          rw [Covering.checkCoverage, horder, hsub]
          rfl
      | ok _ =>
          rcases Space.checkOrder_eq_ok_iff.1 horder with ⟨hpos, hle⟩
          have hposed : space.WellPosed order submodels := ⟨hpos, hle, forM_eq_ok_iff.1 hsub⟩
          rw [checkCoverage_eq hposed]
          simp only [orInvalid, Except.mapError, rowError_eq_some, Option.bind_eq_bind,
            Option.bind_some, Option.pure_def]
          cases hfault : rows.zipIdx.findSome? (rowError? space set) with
          | some e => rfl
          | none =>
              -- The rows have passed, so they have the width of the space.
              have hrows : ∀ row ∈ rows, row.length = space.width := fun row hrow =>
                Space.length_of_admits (findSome?_rowError?_eq_none_iff.1 hfault row hrow).1
              simp only [tally_eq_some hset hposed hrows (hcount hposed), Option.bind_some]
              split <;> rfl

end Check

end Guarded

/-- How the check of an array ends. The counts come first, then the order, the
    submodels one after the other, and the rows one after the other, each for its
    shape before its exclusions. What is missing is only looked for when all of
    these are in order. -/
inductive Judged (array : CoveringArray) (exclusions : Option ExclusionSet) :
    Except CoverError Report → Prop where
  | counts {fault : InputFault} (h : Space.ofCounts array.valueCounts = .error fault) :
      Judged array exclusions (.error (.invalidInput fault))
  | order {space : Space} {fault : InputFault}
      (hspace : Space.ofCounts array.valueCounts = .ok space)
      (h : space.checkOrder array.order = .error fault) :
      Judged array exclusions (.error (.invalidInput fault))
  | submodel {space : Space} {before after : List Submodel} {s : Submodel} {fault : InputFault}
      (hspace : Space.ofCounts array.valueCounts = .ok space)
      (horder : space.checkOrder array.order = .ok ())
      (hsplit : array.submodels = before ++ s :: after)
      (hbefore : ∀ earlier ∈ before, earlier.check space = .ok ())
      (h : s.check space = .error fault) :
      Judged array exclusions (.error (.invalidInput fault))
  | malformed {space : Space} {i : Nat} {row : Row} {fault : RowFault}
      (hspace : Space.ofCounts array.valueCounts = .ok space)
      (hposed : space.WellPosed array.order array.submodels)
      (hbefore : ∀ earlier ∈ array.rows.take i,
        space.Allows (exclusions.getD (.empty space)).lists earlier)
      (hrow : array.rows[i]? = some row)
      (h : space.rowFault? row = some fault) :
      Judged array exclusions (.error (.malformedRow i fault))
  | excluded {space : Space} {i : Nat} {row : Row} {e : Exclusion}
      (hspace : Space.ofCounts array.valueCounts = .ok space)
      (hposed : space.WellPosed array.order array.submodels)
      (hbefore : ∀ earlier ∈ array.rows.take i,
        space.Allows (exclusions.getD (.empty space)).lists earlier)
      (hrow : array.rows[i]? = some row) (hadmits : space.admits row = true)
      (h : (exclusions.getD (.empty space)).violation? row = some e) :
      Judged array exclusions (.error (.excludedRow i e.bindings))
  | gap {space : Space} {missing : List Obligation}
      (hspace : Space.ofCounts array.valueCounts = .ok space)
      (hposed : space.WellPosed array.order array.submodels)
      (hrows : ∀ row ∈ array.rows,
        space.Allows (exclusions.getD (.empty space)).lists row)
      (hmissing : missing = space.missing (exclusions.getD (.empty space)).lists array.rows
        (trackedObligations space array.order array.submodels))
      (h : missing ≠ []) :
      Judged array exclusions (.error (.coverageGap missing.length (missing.take 16)))
  | covers {space : Space}
      (hspace : Space.ofCounts array.valueCounts = .ok space)
      (hposed : space.WellPosed array.order array.submodels)
      (hrows : ∀ row ∈ array.rows,
        space.Allows (exclusions.getD (.empty space)).lists row)
      (h : space.missing (exclusions.getD (.empty space)).lists array.rows
        (trackedObligations space array.order array.submodels) = []) :
      Judged array exclusions (.ok (fullReport space (exclusions.getD (.empty space)).lists
        array.rows array.order array.submodels))

/-- Checks made in turn pass, or one of them fails after those before it have
    passed. -/
theorem forM_cases {α ε : Type} (f : α → Except ε Unit) (as : List α) :
    as.forM f = .ok () ∨ ∃ before a after e, as = before ++ a :: after ∧
      (∀ b ∈ before, f b = .ok ()) ∧ f a = .error e ∧ as.forM f = .error e := by
  induction as with
  | nil => exact .inl rfl
  | cons a as ih =>
      have hcons : (a :: as).forM f = f a >>= fun _ => as.forM f := rfl
      rw [hcons]
      cases ha : f a with
      | error e => exact .inr ⟨[], a, as, e, rfl, fun _ h => absurd h List.not_mem_nil, ha, rfl⟩
      | ok _ =>
          -- The first check has passed, so the fault is that of a later one.
          rcases ih with hok | ⟨before, b, after, e, rfl, hbefore, hb, hfault⟩
          · exact .inl hok
          · refine .inr ⟨a :: before, b, after, e, rfl, ?_, hb, hfault⟩
            rw [List.forall_mem_cons]
            exact ⟨ha, hbefore⟩

/-- A list without answers, or the first member with one. -/
theorem findSome?_zipIdx_cases {α β : Type} (f : α × Nat → Option β) (as : List α) (n : Nat) :
    (as.zipIdx n).findSome? f = none ∨ ∃ i a b, as[i]? = some a ∧ f (a, n + i) = some b ∧
      (as.zipIdx n).findSome? f = some b ∧
        ((as.take i).zipIdx n).findSome? f = none := by
  induction as generalizing n with
  | nil => exact .inl rfl
  | cons a as ih =>
      rw [List.zipIdx_cons, List.findSome?_cons]
      cases ha : f (a, n) with
      | some b => exact .inr ⟨0, a, b, rfl, ha, rfl, rfl⟩
      | none =>
          rcases ih (n + 1) with hnone | ⟨i, c, b, hi, hb, hfind, hbefore⟩
          · exact .inl hnone
          · refine .inr ⟨i + 1, c, b, hi, ?_, hfind, ?_⟩
            · rw [← hb, Nat.add_right_comm, Nat.add_assoc]
            · rw [List.take_succ_cons, List.zipIdx_cons, List.findSome?_cons, ha, hbefore]

section Judged

variable {array : CoveringArray} {exclusions : Option ExclusionSet} {space : Space}

/-- A faulty row decides by its shape or by its exclusions. -/
theorem judged_row (hspace : Space.ofCounts array.valueCounts = .ok space)
    (hposed : space.WellPosed array.order array.submodels) {i : Nat} {row : Row} {e : CoverError}
    (hbefore : ∀ earlier ∈ array.rows.take i,
      space.Allows (exclusions.getD (.empty space)).lists earlier)
    (hrow : array.rows[i]? = some row)
    (he : rowError? space (exclusions.getD (.empty space)) (row, i) = some e) :
    Judged array exclusions (.error e) := by
  cases hadmits : space.admits row with
  | false =>
      rcases rowError?_of_not_admits i hadmits with ⟨fault, hfault, herror⟩
      obtain rfl := Option.some.inj (herror.symm.trans he)
      exact .malformed hspace hposed hbefore hrow hfault
  | true =>
      have hcontains : ¬ row.Avoids (exclusions.getD (.empty space)).lists := by
        intro havoids
        rw [rowError?_eq_none_iff.2 ⟨hadmits, havoids⟩] at he
        exact absurd he (by simp only [reduceCtorEq, not_false_eq_true])
      rcases rowError?_of_not_avoids i hadmits hcontains with ⟨f, hf, herror⟩
      obtain rfl := Option.some.inj (herror.symm.trans he)
      exact .excluded hspace hposed hbefore hrow hadmits hf

/-- Where everything but the rows is in order, the first faulty row decides, or
    what is missing if there is none. -/
theorem judged_rows (hspace : Space.ofCounts array.valueCounts = .ok space)
    (hposed : space.WellPosed array.order array.submodels)
    (hset : ExclusionSet.Indexed (exclusions.getD (.empty space))) :
    Judged array exclusions (checkCoverage array.rows space array.order
      (exclusions.getD (.empty space)) array.submodels) := by
  rcases findSome?_zipIdx_cases (rowError? space (exclusions.getD (.empty space)))
    array.rows 0 with hnone | ⟨i, row, e, hrow, he, hfind, hbefore⟩
  · have hrows := findSome?_rowError?_eq_none_iff.1 hnone
    rw [checkCoverage_of_allows hset hposed hrows]
    simp only
    split
    · rename_i hmissing
      exact .covers hspace hposed hrows hmissing
    · rename_i hmissing
      exact .gap hspace hposed hrows rfl hmissing
  · rw [checkCoverage_eq hposed, hfind]
    rw [Nat.zero_add] at he
    exact judged_row hspace hposed (findSome?_rowError?_eq_none_iff.1 hbefore) hrow he

/-- The first fault decides how the check of an array ends. -/
theorem judged_check
    (hset : ∀ space, ExclusionSet.Indexed (exclusions.getD (.empty space))) :
    Judged array exclusions (array.check exclusions) := by
  unfold CoveringArray.check
  cases hspace : Space.ofCounts array.valueCounts with
  | error fault => exact .counts hspace
  | ok space =>
      change Judged array exclusions (checkCoverage array.rows space array.order
        (exclusions.getD (.empty space)) array.submodels)
      cases horder : space.checkOrder array.order with
      | error fault =>
          rw [checkCoverage, horder]
          exact .order hspace horder
      | ok _ =>
          rcases forM_cases (·.check space) array.submodels with
            hsub | ⟨before, s, after, fault, hsplit, hbefore, hs, hsub⟩
          · rcases Space.checkOrder_eq_ok_iff.1 horder with ⟨hpos, hle⟩
            exact judged_rows hspace ⟨hpos, hle, forM_eq_ok_iff.1 hsub⟩ (hset space)
          · rw [checkCoverage, horder, hsub]
            exact .submodel hspace horder hsplit hbefore hs

/-- Arrays from anywhere can be checked, under exclusions that were built for
    any space. As long as the obligations can be counted in a word, the check meets
    no fault: every access is in range, and it ends with what the check without
    guards says, which is a report or an error. And the fault that it names is the
    first one, in the order of counts, order, submodels, rows and gaps. -/
theorem check_never_faults
    (hset : ∀ set, exclusions = some set → ∃ space raw, ExclusionSet.ofLists space raw = .ok set)
    (hcount : ∀ space, Space.ofCounts array.valueCounts = .ok space →
      space.WellPosed array.order array.submodels →
        (trackedObligations space array.order array.submodels).length < 2 ^ 64) :
    ∃ result, Guarded.check array exclusions = some result ∧
      array.check exclusions = result ∧ Judged array exclusions result := by
  have hindexed : ∀ space, ExclusionSet.Indexed (exclusions.getD (.empty space)) := by
    intro space
    cases hexclusions : exclusions with
    | none => exact ExclusionSet.indexed_ofLists (ExclusionSet.ofLists_nil space)
    | some set =>
        rcases hset set hexclusions with ⟨_, _, hset⟩
        exact ExclusionSet.indexed_ofLists hset
  refine ⟨array.check exclusions, ?_, rfl, judged_check hindexed⟩
  unfold Guarded.check CoveringArray.check
  cases hspace : Space.ofCounts array.valueCounts with
  | error fault => rfl
  | ok space =>
      exact Guarded.checkCoverage_eq_some array.rows (hindexed space) (hcount space hspace)

/-- Rows for two parameters. -/
def stray : CoveringArray where
  valueCounts := [2, 2]
  order := 2
  seed := 0
  submodels := []
  rows := [[0, 1], [1, 0]]

/-- Exclusions for three parameters, one of them beyond the rows. -/
def wider : ExclusionSet := .ofMembers 3 [⟨[⟨2, 0⟩]⟩, ⟨[⟨0, 0⟩, ⟨1, 0⟩]⟩]

/-- Rows are checked under exclusions of a wider space, and lack one pair of
    values. -/
theorem check_never_faults_stray :
    stray.check (some wider) = .error (.coverageGap 1 [⟨[0, 1], [1, 1]⟩]) ∧
      ∃ result, Guarded.check stray (some wider) = some result ∧
        stray.check (some wider) = result ∧ Judged stray (some wider) result := by
  have hset : ExclusionSet.ofLists (.uniform 2 1) [[⟨1, 0⟩, ⟨0, 0⟩], [⟨2, 0⟩]] = .ok wider := by cbv
  refine ⟨by decide +kernel, check_never_faults (fun set h => ?_) fun space h _ => ?_⟩
  · exact ⟨_, _, Option.some.inj h ▸ hset⟩
  · obtain rfl : Space.uniform 1 1 = space := Except.ok.inj h
    decide +kernel

end Judged

end Covering
