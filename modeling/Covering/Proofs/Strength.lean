import Covering.Proofs.Verdict

/-!
# Weaker requirements

Rows that cover at some order cover at every lower one, and a group of
parameters that is covered at some order is covered, with all groups inside it,
at every lower one. With exclusions in force this is not a matter of counting
combinations, because a smaller combination is asked for only if it is feasible,
and the larger ones that contain it may not be.

What settles it is that feasibility is witnessed by a whole row. A row that
makes a small combination feasible makes a combination on every larger choice of
positions feasible as well, namely the one it has there itself. That one is
asked for, so some given row has it, and this row has the small combination too
(`metBy_of_sublist`).

The rest is about choices of positions alone. `RequiredBy` says that each choice
that one request tracks lies within a choice that another one tracks, and
`requiredBy_of_covers` finds the larger choice: among those of the model when the
order of the model allows, and otherwise within the group that contains it.

## Main definitions

* `Submodel.CoveredBy`: A group that is covered when a request is.
* `Space.RequiredBy`: Each choice of one request lies within one of another.

## Theorems

* `exists_sublist_between`: A choice extends to every length up to that of the
  list it is from.
* `metBy_of_sublist`: A feasible obligation is met where larger ones are.
* `requiredBy_of_covers`: What is asked for at a lower order lies within what
  is asked for at a higher one.
* `extraSubsets_insert`: A group of no higher order than the model adds nothing.
* `checkCoverage_weaken`: Coverage is closed under weaker requirements.
-/

namespace Covering

section Choices

/-- A list between two others, of any length between theirs. -/
theorem exists_sublist_between {α : Type} {xs ys : List α} (h : xs.Sublist ys) :
    ∀ k, xs.length ≤ k → k ≤ ys.length →
      ∃ zs, xs.Sublist zs ∧ zs.Sublist ys ∧ zs.length = k := by
  induction h with
  | slnil =>
      intro k _ hk
      exact ⟨[], List.Sublist.refl [], List.Sublist.refl [], (Nat.le_zero.1 hk).symm⟩
  | @cons xs ys y hsub ih =>
      intro k hlow hhigh
      by_cases hk : k ≤ ys.length
      · rcases ih k hlow hk with ⟨zs, hxz, hzy, hlen⟩
        exact ⟨zs, hxz, hzy.cons y, hlen⟩
      · -- Only the whole list is long enough.
        refine ⟨y :: ys, hsub.cons y, List.Sublist.refl _, ?_⟩
        rw [List.length_cons] at hhigh ⊢
        omega
  | @cons_cons xs ys y hsub ih =>
      intro k hlow hhigh
      rw [List.length_cons] at hlow hhigh
      rcases ih (k - 1) (by omega) (by omega) with ⟨zs, hxz, hzy, hlen⟩
      refine ⟨y :: zs, hxz.cons_cons y, hzy.cons_cons y, ?_⟩
      rw [List.length_cons, hlen]
      omega

end Choices

section Rows

variable {space : Space} {lists : List (List Binding)} {rows : List Row}

/-- The obligation on a choice of positions that a row of the space meets. -/
theorem valuesAt_mem_obligationsOn {row : Row} {positions : List Nat}
    (hpos : space.Choice positions) (hrow : space.admits row = true) :
    (⟨positions, row.valuesAt positions⟩ : Obligation) ∈ obligationsOn space positions :=
  (mem_obligationsOn_iff hpos).2 ⟨rfl, valuesAt_mem_product hrow hpos.lt_width⟩

/-- A row of the space satisfies an obligation that has its values. -/
theorem satisfiedBy_iff_valuesAt {row : Row} {positions : List Nat}
    (hpos : space.Choice positions) (hrow : space.admits row = true) {o : Obligation}
    (ho : o ∈ obligationsOn space positions) :
    o.satisfiedBy row = true ↔ row.valuesAt positions = o.values := by
  rcases (mem_obligationsOn_iff hpos).1 ho with ⟨rfl, hvalues⟩
  refine Obligation.satisfiedBy_iff ?_ fun p hp => ?_
  · rw [length_of_mem_product hvalues, List.length_map]
  · rw [Space.length_of_admits hrow]
    exact hpos.lt_width p hp

/-- Rows that agree on some positions agree on a part of them. -/
theorem Row.valuesAt_eq_of_subset {row other : Row} {positions rest : List Nat}
    (hsub : rest ⊆ positions) (h : row.valuesAt positions = other.valuesAt positions) :
    row.valuesAt rest = other.valuesAt rest :=
  List.map_congr_left fun p hp => List.map_inj_left.1 h p (hsub hp)

/-- Where every feasible obligation on some positions is met, so is every
    feasible obligation on a part of them. -/
theorem metBy_of_sublist (hrows : ∀ row ∈ rows, space.Allows lists row)
    {positions rest : List Nat} (hpos : space.Choice positions) (hrest : space.Choice rest)
    (hsub : rest ⊆ positions)
    (hmet : ∀ o ∈ obligationsOn space positions, space.Feasible lists o → o.MetBy rows)
    {o : Obligation} (ho : o ∈ obligationsOn space rest) (hfeasible : space.Feasible lists o) :
    o.MetBy rows := by
  rcases hfeasible with ⟨row, hadmits, havoids, hsat⟩
  -- The row that makes the obligation feasible has a larger one, feasible as well.
  have hlarge := valuesAt_mem_obligationsOn hpos hadmits
  have hlargeSat := (satisfiedBy_iff_valuesAt hpos hadmits hlarge).2 rfl
  rcases hmet _ hlarge ⟨row, hadmits, havoids, hlargeSat⟩ with ⟨found, hfound, hfoundSat⟩
  have hfoundAdmits := (hrows found hfound).1
  have hagree := (satisfiedBy_iff_valuesAt hpos hfoundAdmits hlarge).1 hfoundSat
  -- The row found agrees with it on the larger choice, and so on the smaller one.
  refine ⟨found, hfound, (satisfiedBy_iff_valuesAt hrest hfoundAdmits ho).2 ?_⟩
  rw [Row.valuesAt_eq_of_subset hsub hagree]
  exact (satisfiedBy_iff_valuesAt hrest hadmits ho).1 hsat

end Rows

/-- The group is covered when a request for the given order and groups is: its
    own order is no higher, or it lies within a group of no lower order. -/
def Submodel.CoveredBy (s : Submodel) (order : Nat) (submodels : List Submodel) : Prop :=
  s.order ≤ order ∨ ∃ m ∈ submodels, s.positions ⊆ m.positions ∧ s.order ≤ m.order

instance (s : Submodel) (order : Nat) (submodels : List Submodel) :
    Decidable (s.CoveredBy order submodels) :=
  inferInstanceAs (Decidable (s.order ≤ order ∨
    ∃ m ∈ submodels, s.positions ⊆ m.positions ∧ s.order ≤ m.order))

namespace Space

variable {space : Space} {order lower : Nat} {submodels weaker : List Submodel}

/-- Each choice of the list lies within one that the request tracks. -/
def RequiredBy (space : Space) (choices : List (List Nat)) (order : Nat)
    (submodels : List Submodel) : Prop :=
  ∀ rest ∈ choices, ∃ positions ∈ trackedSubsets space order submodels, rest ⊆ positions

/-- A choice of no more positions than the order lies within one of the
    model's. -/
theorem exists_mem_trackedSubsets (h : space.WellPosed order submodels) {rest : List Nat}
    (hrest : space.Choice rest) (hle : rest.length ≤ order) :
    ∃ positions ∈ trackedSubsets space order submodels, rest ⊆ positions := by
  have hwidth : order ≤ (List.range space.width).length := by
    rw [List.length_range]
    exact h.order_le
  have hrange := sublist_range_iff.2 ⟨hrest.ascending, hrest.lt_width⟩
  rcases exists_sublist_between hrange order hle hwidth with
    ⟨positions, hsub, hrange, hlen⟩
  have hmem : positions ∈ subsets space.width order :=
    mem_subsets_iff.2 ⟨h.order_pos, hrange, hlen⟩
  exact ⟨positions, List.mem_append_left _ hmem, hsub.subset⟩

/-- A choice within a group, of no more positions than the order of the group,
    lies within a tracked one. -/
theorem exists_mem_trackedSubsets_of_mem (h : space.WellPosed order submodels) {m : Submodel}
    (hm : m ∈ submodels) {rest : List Nat} (hrest : space.Choice rest)
    (hsub : rest ⊆ m.positions) (hle : rest.length ≤ m.order) :
    ∃ positions ∈ trackedSubsets space order submodels, rest ⊆ positions := by
  by_cases horder : m.order ≤ order
  · exact exists_mem_trackedSubsets h hrest (Nat.le_trans hle horder)
  · -- The group raises the order, and the choice extends within it.
    rcases Submodel.check_eq_ok_iff.1 (h.submodels_ok m hm) with ⟨hgroup, _, hlen⟩
    have hpart := sublist_of_ascending hrest.ascending hgroup.ascending hsub
    rcases exists_sublist_between hpart m.order hle hlen with ⟨positions, hlow, hhigh, hsize⟩
    have hmem : positions ∈ extraSubsets order submodels :=
      mem_extraSubsets_iff.2 ⟨m, hm, Nat.lt_of_not_le horder, hhigh, hsize⟩
    exact ⟨positions, List.mem_append_right _ hmem, hlow.subset⟩

/-- What is asked for at a lower order, with covered groups, lies within what is
    asked for. -/
theorem requiredBy_of_covers (h : space.WellPosed order submodels) (hlower : lower ≤ order)
    (hweaker : ∀ s ∈ weaker, s.check space = .ok () ∧ s.CoveredBy order submodels) :
    space.RequiredBy (trackedSubsets space lower weaker) order submodels := by
  intro rest hrest
  have hchoice : space.Choice rest :=
    choice_of_mem_trackedSubsets (fun s hs => (hweaker s hs).1) hrest
  rcases List.mem_append.1 hrest with hmodel | hextra
  · have hlen := (mem_subsets_iff.1 hmodel).2.2
    exact exists_mem_trackedSubsets h hchoice (by omega)
  · rcases mem_extraSubsets_iff.1 hextra with ⟨s, hs, _, hsub, hlen⟩
    rcases (hweaker s hs).2 with horder | ⟨m, hm, hgroup, horder⟩
    · exact exists_mem_trackedSubsets h hchoice (by omega)
    · exact exists_mem_trackedSubsets_of_mem h hm hchoice
        (fun p hp => hgroup (hsub.subset hp)) (by omega)

/-- Rows that miss nothing of a request miss nothing of what lies within it. -/
theorem missing_eq_nil_of_requiredBy {lists : List (List Binding)} {rows : List Row}
    (h : space.WellPosed order submodels) (hok : ∀ s ∈ weaker, s.check space = .ok ())
    (hrows : ∀ row ∈ rows, space.Allows lists row)
    (hrequired : space.RequiredBy (trackedSubsets space lower weaker) order submodels)
    (hmissing : space.missing lists rows (trackedObligations space order submodels) = []) :
    space.missing lists rows (trackedObligations space lower weaker) = [] := by
  rw [missing_eq_nil_iff] at hmissing ⊢
  intro o ho hfeasible
  rcases List.mem_flatMap.1 ho with ⟨rest, hrest, hon⟩
  rcases hrequired rest hrest with ⟨positions, hpositions, hsub⟩
  have hpos := choice_of_mem_trackedSubsets h.submodels_ok hpositions
  have hpart := choice_of_mem_trackedSubsets hok hrest
  refine metBy_of_sublist hrows hpos hpart hsub (fun large hlarge => ?_) hon hfeasible
  exact hmissing large (List.mem_flatMap.2 ⟨positions, hpositions, hlarge⟩)

end Space

section Insertion

variable {space : Space} {order : Nat} {s : Submodel}

/-- A group of no higher order than the model adds no choices. -/
theorem extraSubsets_insert (before after : List Submodel) (h : s.order ≤ order) :
    extraSubsets order (before ++ s :: after) = extraSubsets order (before ++ after) := by
  have hraised : ¬ order < s.order := by omega
  simp only [extraSubsets, List.filter_append, List.filter_cons, hraised, decide_false,
    Bool.false_eq_true, if_false]

/-- A group that passes its check does not change what the check of all groups
    says. -/
theorem forM_check_insert (before after : List Submodel) (h : s.check space = .ok ()) :
    (before ++ s :: after).forM (·.check space) = (before ++ after).forM (·.check space) := by
  induction before with
  | nil =>
      have hcons : (s :: after).forM (·.check space) =
          s.check space >>= fun _ => after.forM (·.check space) := rfl
      rw [List.nil_append, List.nil_append, hcons, h]
      rfl
  | cons b before ih =>
      have hcons (rest : List Submodel) : (b :: rest).forM (·.check space) =
          b.check space >>= fun _ => rest.forM (·.check space) := rfl
      rw [List.cons_append, List.cons_append, hcons, hcons, ih]

end Insertion

/-- Coverage is closed under weaker requirements, for exclusions that were built
    from combinations on this space or on any other. Rows that pass for an order
    and groups of parameters pass for every lower order with every list of groups
    each of which has an order no higher than the model's, or lies within one of
    the given groups and has no higher order than it. And a group of no higher
    order than the model's, wherever it stands in the list, does not change the
    verdict at all. -/
theorem checkCoverage_weaken {other : Space} {raw : List (List Binding)} {set : ExclusionSet}
    (hset : ExclusionSet.ofLists other raw = .ok set) (space : Space) (rows : List Row)
    (order : Nat) (submodels : List Submodel) :
    ((∃ report, checkCoverage rows space order set submodels = .ok report) →
      ∀ (lower : Nat) (weaker : List Submodel), 1 ≤ lower → lower ≤ order →
        (∀ s ∈ weaker, s.check space = .ok () ∧ s.CoveredBy order submodels) →
        ∃ report, checkCoverage rows space lower set weaker = .ok report) ∧
    ∀ (before after : List Submodel) (s : Submodel), s.check space = .ok () → s.order ≤ order →
      checkCoverage rows space order set (before ++ s :: after) =
        checkCoverage rows space order set (before ++ after) := by
  have hindexed := ExclusionSet.indexed_ofLists hset
  constructor
  · rintro ⟨report, hok⟩ lower weaker hpos hlower hweaker
    rcases (checkCoverage_eq_ok_iff hindexed).1 hok with ⟨hposed, hrows, hmissing, _⟩
    have hweakerOk : ∀ s ∈ weaker, s.check space = .ok () := fun s hs => (hweaker s hs).1
    have hlowerPosed : space.WellPosed lower weaker :=
      ⟨hpos, Nat.le_trans hlower hposed.order_le, hweakerOk⟩
    have hrequired := Space.requiredBy_of_covers hposed hlower hweaker
    have hnothing :=
      Space.missing_eq_nil_of_requiredBy hposed hweakerOk hrows hrequired hmissing
    exact ⟨_, (checkCoverage_eq_ok_iff hindexed).2 ⟨hlowerPosed, hrows, hnothing, rfl⟩⟩
  · intro before after s hs horder
    have htally : tally space order set (before ++ s :: after) rows =
        tally space order set (before ++ after) rows := by
      rw [tally, tally, trackedSubsets, trackedSubsets, extraSubsets_insert before after horder]
    rw [checkCoverage, checkCoverage, forM_check_insert before after hs, htally]

/-- Two rows cover the square with one edge excluded, group and all. They cover
    it at order one as well, with a group for each way in which one can be
    covered. -/
theorem checkCoverage_weaken_square :
    ExclusionSet.ofLists square [[⟨1, 0⟩]] = .ok edge ∧
      (∃ report, checkCoverage [[0, 1], [1, 1]] square 1 edge [⟨[0, 1], 2⟩] = .ok report) ∧
      (∃ report, checkCoverage [[0, 1], [1, 1]] square 1 edge [⟨[1], 1⟩, ⟨[0, 1], 2⟩] =
        .ok report) ∧
      checkCoverage [[0, 1], [1, 1]] square 1 edge [⟨[1], 1⟩, ⟨[0, 1], 2⟩] =
        checkCoverage [[0, 1], [1, 1]] square 1 edge [⟨[0, 1], 2⟩] := by
  have hset : ExclusionSet.ofLists square [[⟨1, 0⟩]] = .ok edge := by decide +kernel
  have hok : ∃ report,
      checkCoverage [[0, 1], [1, 1]] square 1 edge [⟨[0, 1], 2⟩] = .ok report :=
    ⟨⟨2, 1, 8, 5, 3⟩, by decide +kernel⟩
  rcases checkCoverage_weaken hset square [[0, 1], [1, 1]] 1 [⟨[0, 1], 2⟩] with
    ⟨hlower, hinsert⟩
  exact ⟨hset, hok, hlower hok 1 [⟨[1], 1⟩, ⟨[0, 1], 2⟩] (by decide) (by decide) (by decide),
    hinsert [] [⟨[0, 1], 2⟩] ⟨[1], 1⟩ (by decide) (by decide)⟩

end Covering
