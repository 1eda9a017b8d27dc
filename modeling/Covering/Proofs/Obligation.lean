import Covering.Proofs.Enumeration
import Covering.Proofs.Exclusion

/-!
# Obligations in a space

When a row satisfies an obligation, which obligations can be satisfied at all,
and which obligations there are.

An obligation pairs positions with values, and a row satisfies it when its
values at those positions are the values given. This is what lets a table find
the obligation of a row by arithmetic on the row's values.

Two things can keep an obligation out of every row: it contains an excluded
combination (`Blocked`), or every row that contains it contains some excluded
combination (not `Feasible`). The first is seen at once; the second takes a
search. Both are stated over plain lists of combinations, and `Feasible` can be
decided by going through all rows, which is what makes small cases computable.

## Main definitions

* `Obligation.InSpace`: An obligation binds distinct positions to values of
  the space.
* `Obligation.Blocked`: It contains an excluded combination.
* `Space.Feasible`: Some row of the space without excluded combination
  contains it.
* `trackedObligations`: All obligations that a request is about.

## Theorems

* `satisfiedBy_iff`: A row satisfies an obligation that has its values.
* `extendedBy_toPartial_iff`: The same, through partial rows.
* `not_feasible_of_blocked`: What is blocked is not feasible.
* `feasible_nil`: Without exclusions everything is.
* `blocksObligation_iff`: What a set of exclusions blocks.
* `mem_trackedObligations_iff`: Which obligations are tracked.
* `inSpace_of_mem_tracked`: Tracked obligations lie in the space.
* `nodup_flatMap_obligationsOn`: Different choices have different obligations.
-/

namespace Covering

namespace Obligation

/-- The obligation binds distinct positions of the space, each to one of its
    values. -/
structure InSpace (space : Space) (o : Obligation) : Prop where
  distinct : (o.bindings.map (·.position)).Nodup
  position_lt : ∀ b ∈ o.bindings, b.position < space.width
  value_lt : ∀ b ∈ o.bindings, b.value < space.count b.position

/-- The obligation contains one of the combinations. -/
def Blocked (o : Obligation) (lists : List (List Binding)) : Prop :=
  ∃ list ∈ lists, ∀ b ∈ list, b ∈ o.bindings

instance (o : Obligation) (lists : List (List Binding)) : Decidable (o.Blocked lists) :=
  inferInstanceAs (Decidable (∃ list ∈ lists, ∀ b ∈ list, b ∈ o.bindings))

/-- A row satisfies an obligation that has its values at the positions. -/
theorem satisfiedBy_iff {positions values : List Nat} {row : Row}
    (hlen : values.length = positions.length) (hlt : ∀ p ∈ positions, p < row.length) :
    satisfiedBy ⟨positions, values⟩ row = true ↔ row.valuesAt positions = values := by
  rw [satisfiedBy, Row.agrees_iff, bindings]
  induction positions generalizing values with
  | nil =>
      rw [List.length_eq_zero_iff.1 hlen]
      exact ⟨fun _ => rfl, fun _ b hb => absurd hb List.not_mem_nil⟩
  | cons p rest ih =>
      cases values with
      | nil => exact absurd hlen (Nat.succ_ne_zero _).symm
      | cons v values =>
          rw [List.length_cons, List.length_cons, Nat.add_right_cancel_iff] at hlen
          rw [List.zipWith_cons_cons, List.forall_mem_cons,
            ih hlen fun q hq => hlt q (List.mem_cons_of_mem p hq), Row.valuesAt, Row.valuesAt,
            List.map_cons, List.cons.injEq,
            Row.getElem?_eq_getD (hlt p List.mem_cons_self), Option.some.injEq]

/-- The positions that are bound are those that have a value. -/
theorem map_position_bindings {positions values : List Nat}
    (hlen : values.length = positions.length) :
    (bindings ⟨positions, values⟩).map (·.position) = positions := by
  rw [bindings, List.map_zipWith]
  induction positions generalizing values with
  | nil => rw [List.zipWith_nil_left]
  | cons p rest ih =>
      cases values with
      | nil => exact absurd hlen (Nat.succ_ne_zero _).symm
      | cons v values =>
          rw [List.length_cons, List.length_cons, Nat.add_right_cancel_iff] at hlen
          rw [List.zipWith_cons_cons, ih hlen]

/-- Each value of a tuple below the counts is one of its parameter. -/
theorem value_lt_of_mem_product {space : Space} {positions values : List Nat}
    (h : values ∈ product (positions.map space.count)) :
    ∀ b ∈ bindings ⟨positions, values⟩, b.value < space.count b.position := by
  rw [bindings]
  induction positions generalizing values with
  | nil =>
      intro b hb
      rw [List.zipWith_nil_left] at hb
      exact absurd hb List.not_mem_nil
  | cons p rest ih =>
      cases values with
      | nil => exact absurd (length_of_mem_product h) (Nat.succ_ne_zero _).symm
      | cons v values =>
          rw [List.map_cons, mem_product_cons] at h
          rw [List.zipWith_cons_cons, List.forall_mem_cons]
          exact ⟨h.1, ih h.2⟩

theorem inSpace_of_choice {space : Space} {positions values : List Nat}
    (hpos : space.Choice positions) (hval : values ∈ product (positions.map space.count)) :
    InSpace space ⟨positions, values⟩ := by
  have hlen : values.length = positions.length := by
    rw [length_of_mem_product hval, List.length_map]
  refine ⟨?_, fun b hb => hpos.lt_width _ ?_, value_lt_of_mem_product hval⟩
  · rw [map_position_bindings hlen]
    exact hpos.ascending.imp Nat.ne_of_lt
  · rw [← map_position_bindings hlen]
    exact List.mem_map.2 ⟨b, hb, rfl⟩

/-- Binding a list of distinct positions one after the other sets each of them
    to its value and leaves the others alone. -/
theorem at?_foldl_bind {bindings : List Binding} {work : Partial}
    (hdistinct : (bindings.map (·.position)).Nodup)
    (hlt : ∀ b ∈ bindings, b.position < work.length) {p v : Nat} :
    (bindings.foldl Partial.bind work).at? p = some v ↔
      ⟨p, v⟩ ∈ bindings ∨ (∀ b ∈ bindings, b.position ≠ p) ∧ work.at? p = some v := by
  induction bindings generalizing work with
  | nil =>
      rw [List.foldl_nil]
      exact ⟨fun h => .inr ⟨fun _ hb => absurd hb List.not_mem_nil, h⟩,
        fun h => (h.resolve_left List.not_mem_nil).2⟩
  | cons b rest ih =>
      rw [List.map_cons, List.nodup_cons] at hdistinct
      rw [List.forall_mem_cons] at hlt
      rw [List.foldl_cons, ih hdistinct.2 (by rw [Partial.length_bind]; exact hlt.2),
        Partial.at?_bind hlt.1, List.mem_cons, List.forall_mem_cons]
      have hb : (b.position = p ∧ some b.value = some v) ↔ (⟨p, v⟩ : Binding) = b := by
        rw [Option.some.injEq, Binding.mk.injEq]
        exact ⟨fun h => ⟨h.1.symm, h.2.symm⟩, fun h => ⟨h.1.symm, h.2.symm⟩⟩
      -- No later binding is at the same position.
      have hfresh : b.position = p → ∀ c ∈ rest, c.position ≠ p := fun hp c hc hcp =>
        hdistinct.1 (List.mem_map.2 ⟨c, hc, hcp.trans hp.symm⟩)
      rw [← hb]
      by_cases hp : b.position = p
      · rw [if_pos hp]
        constructor
        · exact fun h => h.elim (fun h => .inl (.inr h)) fun h => .inl (.inl ⟨hp, h.2⟩)
        · rintro ((h | h) | h)
          · exact .inr ⟨hfresh hp, h.2⟩
          · exact .inl h
          · exact absurd hp h.1.1
      · rw [if_neg hp]
        simp only [hp, false_and, false_or, ne_eq, not_false_eq_true, true_and]

section Space

variable {space : Space} {o : Obligation}

/-- The partial row of an obligation binds what the obligation binds. -/
theorem at?_toPartial {width : Nat} (hdistinct : (o.bindings.map (·.position)).Nodup)
    (hlt : ∀ b ∈ o.bindings, b.position < width) {p v : Nat} :
    (o.toPartial width).at? p = some v ↔ ⟨p, v⟩ ∈ o.bindings := by
  rw [toPartial, Partial.ofBindings, at?_foldl_bind hdistinct
    (by rw [List.length_replicate]; exact hlt)]
  refine ⟨fun h => h.resolve_right fun hrest => ?_, .inl⟩
  -- The partial row that binding starts from is free everywhere.
  have hfree := hrest.2
  rw [Partial.at?, List.getElem?_replicate] at hfree
  split at hfree <;>
    exact absurd hfree (by simp only [Option.join_some, Option.join_none, reduceCtorEq,
      not_false_eq_true])

@[simp] theorem length_toPartial (o : Obligation) (width : Nat) :
    (o.toPartial width).length = width := Partial.length_ofBindings ..

/-- The partial row of an obligation extends to the rows that satisfy it. -/
theorem extendedBy_toPartial_iff (ho : o.InSpace space) {row : Row} :
    (o.toPartial space.width).ExtendedBy row ↔
      row.length = space.width ∧ o.satisfiedBy row = true := by
  rw [Partial.ExtendedBy, length_toPartial, satisfiedBy, Row.agrees_iff]
  refine and_congr_right fun _ =>
    ⟨fun h b hb => h _ _ ((at?_toPartial ho.distinct ho.position_lt).2 hb),
      fun h p v hpv => h _ ((at?_toPartial ho.distinct ho.position_lt).1 hpv)⟩

theorem admitsPartial_toPartial (ho : o.InSpace space) :
    space.AdmitsPartial (o.toPartial space.width) :=
  ⟨length_toPartial .., fun p v h =>
    ho.value_lt ⟨p, v⟩ ((at?_toPartial ho.distinct ho.position_lt).1 h)⟩

/-- The value an obligation binds a position to is found by looking for the
    position, since no other binding has it. -/
theorem valueAt?_eq_some_iff (hdistinct : (o.bindings.map (·.position)).Nodup) {b : Binding} :
    o.valueAt? b.position = some b.value ↔ b ∈ o.bindings := by
  rw [valueAt?, Option.map_eq_some_iff]
  constructor
  · rintro ⟨c, hfind, hvalue⟩
    have hpos := List.find?_some hfind
    rw [beq_iff_eq] at hpos
    have hcb : c = b := by
      rcases c with ⟨cp, cv⟩
      rcases b with ⟨bp, bv⟩
      rw [Binding.mk.injEq]
      exact ⟨hpos, hvalue⟩
    exact hcb ▸ List.mem_of_find?_eq_some hfind
  · intro hb
    obtain ⟨c, hc⟩ : ∃ c, o.bindings.find? (·.position == b.position) = some c := by
      rw [← Option.isSome_iff_exists, List.find?_isSome]
      exact ⟨b, hb, beq_self_eq_true _⟩
    refine ⟨c, hc, ?_⟩
    have hpos := List.find?_some hc
    rw [beq_iff_eq] at hpos
    -- Positions are distinct, so the binding found is the one at hand.
    rw [List.inj_on_of_nodup_map hdistinct (List.mem_of_find?_eq_some hc) hb hpos]

/-- What a set of exclusions blocks. -/
theorem blocksObligation_iff (hdistinct : (o.bindings.map (·.position)).Nodup)
    {set : ExclusionSet} : set.blocksObligation o = true ↔ o.Blocked set.lists := by
  simp only [ExclusionSet.blocksObligation, Exclusion.matchesObligation, List.any_eq_true,
    List.all_eq_true, beq_iff_eq, valueAt?_eq_some_iff hdistinct, Blocked, ExclusionSet.lists,
    List.mem_map, exists_exists_and_eq_and]

end Space

/-- The normal form of exclusions blocks the same obligations. -/
theorem blocked_ofLists_iff {space : Space} {raw : List (List Binding)} {set : ExclusionSet}
    (h : ExclusionSet.ofLists space raw = .ok set) {o : Obligation} :
    o.Blocked set.lists ↔ o.Blocked raw := ExclusionSet.exists_lists_iff h

end Obligation

namespace Space

/-- Some row of the space contains the obligation and none of the
    combinations. -/
def Feasible (space : Space) (lists : List (List Binding)) (o : Obligation) : Prop :=
  ∃ row : Row, space.admits row = true ∧ row.Avoids lists ∧ o.satisfiedBy row = true

instance (space : Space) (lists : List (List Binding)) (o : Obligation) :
    Decidable (space.Feasible lists o) :=
  decidable_of_iff
    (∃ row ∈ product space.counts, Row.Avoids row lists ∧ o.satisfiedBy row = true)
    (exists_congr fun _ => and_congr_left fun _ => mem_product_counts_iff)

/-- What is blocked is not feasible. -/
theorem not_feasible_of_blocked {space : Space} {lists : List (List Binding)} {o : Obligation}
    (h : o.Blocked lists) : ¬ space.Feasible lists o := by
  rintro ⟨row, _, havoids, hsat⟩
  rcases h with ⟨list, hlist, hsub⟩
  refine Bool.eq_false_iff.1 (havoids list hlist) (Row.agrees_iff.2 fun b hb => ?_)
  exact Row.agrees_iff.1 hsat b (hsub b hb)

/-- Without exclusions every obligation of the space is feasible. -/
theorem feasible_nil {space : Space} {o : Obligation} (ho : o.InSpace space) :
    space.Feasible [] o := by
  rcases exists_admits_of_admitsPartial (Obligation.admitsPartial_toPartial ho) with
    ⟨row, hrow, hext⟩
  exact ⟨row, hrow, fun _ h => absurd h List.not_mem_nil,
    ((Obligation.extendedBy_toPartial_iff ho).1 hext).2⟩

theorem feasible_ofLists_iff {space other : Space} {raw : List (List Binding)}
    {set : ExclusionSet} (h : ExclusionSet.ofLists other raw = .ok set) {o : Obligation} :
    space.Feasible set.lists o ↔ space.Feasible raw o := by
  simp only [Feasible, ExclusionSet.avoids_ofLists_iff h]

end Space

/-- Every obligation that a request is about, in order: those on the model's
    choices of positions, then those on the choices that submodels add. -/
def trackedObligations (space : Space) (order : Nat) (submodels : List Submodel) :
    List Obligation :=
  (trackedSubsets space order submodels).flatMap (obligationsOn space)

theorem mem_obligationsOn_iff {space : Space} {positions : List Nat}
    (hpos : space.Choice positions) {o : Obligation} :
    o ∈ obligationsOn space positions ↔
      o.positions = positions ∧ o.values ∈ product (positions.map space.count) := by
  rw [obligationsOn, hpos.tuples, List.mem_map]
  constructor
  · rintro ⟨values, hvalues, rfl⟩
    exact ⟨rfl, hvalues⟩
  · rintro ⟨rfl, hvalues⟩
    exact ⟨o.values, hvalues, rfl⟩

theorem positions_of_mem_obligationsOn {space : Space} {positions : List Nat} {o : Obligation}
    (h : o ∈ obligationsOn space positions) : o.positions = positions := by
  rcases List.mem_map.1 h with ⟨_, _, rfl⟩
  rfl

/-- Obligations on different choices of positions are different, and so are those
    on one of them. -/
theorem nodup_flatMap_obligationsOn {space : Space} {choices : List (List Nat)}
    (hne : ∀ positions ∈ choices, positions ≠ []) (h : choices.Nodup) :
    (choices.flatMap (obligationsOn space)).Nodup := by
  rw [List.nodup_flatMap]
  refine ⟨fun positions hmem => ?_, h.imp fun hdiffer o hoa hob => ?_⟩
  · rw [obligationsOn, tuples_of_ne_nil fun hmap => hne positions hmem (List.map_eq_nil_iff.1 hmap)]
    exact (nodup_product _).map fun _ _ heq => (Obligation.mk.inj heq).2
  · exact hdiffer ((positions_of_mem_obligationsOn hoa).symm.trans
      (positions_of_mem_obligationsOn hob))

section Tracked

variable {space : Space} {order : Nat} {submodels : List Submodel}

/-- Which obligations are tracked: those on a tracked choice of positions with
    one value of each parameter. -/
theorem mem_trackedObligations_iff (hsub : ∀ s ∈ submodels, s.check space = .ok ())
    {o : Obligation} :
    o ∈ trackedObligations space order submodels ↔
      o.positions ∈ trackedSubsets space order submodels ∧
        o.values ∈ product (o.positions.map space.count) := by
  rw [trackedObligations, List.mem_flatMap]
  constructor
  · rintro ⟨positions, hmem, ho⟩
    rcases (mem_obligationsOn_iff (choice_of_mem_trackedSubsets hsub hmem)).1 ho with ⟨rfl, hvalues⟩
    exact ⟨hmem, hvalues⟩
  · rintro ⟨hmem, hvalues⟩
    exact ⟨o.positions, hmem,
      (mem_obligationsOn_iff (choice_of_mem_trackedSubsets hsub hmem)).2 ⟨rfl, hvalues⟩⟩

theorem inSpace_of_mem_tracked (hsub : ∀ s ∈ submodels, s.check space = .ok ())
    {o : Obligation} (h : o ∈ trackedObligations space order submodels) : o.InSpace space := by
  rcases (mem_trackedObligations_iff hsub).1 h with ⟨hmem, hvalues⟩
  exact Obligation.inSpace_of_choice (choice_of_mem_trackedSubsets hsub hmem) hvalues

/-- No obligation is tracked twice. -/
theorem nodup_trackedObligations (hsub : ∀ s ∈ submodels, s.check space = .ok ()) :
    (trackedObligations space order submodels).Nodup :=
  nodup_flatMap_obligationsOn (fun _ h => (choice_of_mem_trackedSubsets hsub h).ne_nil)
    (nodup_trackedSubsets space order submodels)

end Tracked

end Covering
