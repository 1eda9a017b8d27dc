import Covering.Proofs.Assignment
import Covering.Submodel
import Mathlib.Algebra.BigOperators.Ring.List
import Mathlib.Algebra.Ring.Nat
import Mathlib.Data.List.Nodup
import Mathlib.Data.List.Sort

/-!
# What is enumerated

Which lists the enumerations of positions and values consist of. Value tuples
are the tuples below their radices, so the tuples of all parameters are the
rows of the space. Choices of positions ascend and stay inside the space: those
of the model because they are sublists of a range, those that a submodel adds
because its own positions ascend, which its check looks after.

## Main definitions

* `Row.valuesAt`: The values of a row at given positions.
* `Space.Choice`: A choice of positions of the space.

## Theorems

* `sumOf_eq_sum`, `productOf_eq_prod`: Sums and products are the library's.
* `sumOf_map_mul`: A common factor of the terms of a sum.
* `checkOrder_eq_ok_iff`: The orders of a space.
* `map_getD_range`, `valuesAt_range`: A row's values at all positions are the row.
* `mem_product_iff`: A tuple lies below its radices.
* `mem_product_counts_iff`: The rows of a space are its full tuples.
* `sublist_iff_of_ascending`, `sublist_range_iff`: Parts of an ascending list, and
  of a range, are ascending lists of its members.
* `valuesAt_mem_product`: A row of the space has an enumerated tuple at each
  choice of positions.
* `mem_eraseReps_iff`, `pairwise_eraseReps`: Dropping repetitions keeps the
  members, and of a list in order keeps each once.
* `choose_succ_cons`, `choose_map`: Choices from a longer list, and from another.
* `nodup_choose`, `nodup_product`: Nothing is enumerated twice.
* `mem_extraSubsets_iff`, `pairwise_extraSubsets`: What submodels add, in order.
* `not_mem_subsets_of_mem_extraSubsets`: It is apart from the model's choices.
* `nodup_trackedSubsets`: Tracked choices are all different.
* `map_count_subsets`: The counts on the model's choices of positions.
* `ne_nil_of_mem_trackedSubsets`: The empty choice is not tracked.
* `choice_of_mem_trackedSubsets`: Tracked choices are choices of the space.
-/

namespace Covering

theorem sumOf_eq_sum (ns : List Nat) : sumOf ns = ns.sum := by
  induction ns with
  | nil => rfl
  | cons n ns ih => rw [sumOf, ih, List.sum_cons]

/-- A common factor of the terms is one of their sum. -/
theorem sumOf_map_mul {α : Type} (f : α → Nat) (n : Nat) (as : List α) :
    sumOf (as.map fun a => n * f a) = n * sumOf (as.map f) := by
  rw [sumOf_eq_sum, sumOf_eq_sum, List.sum_map_mul_left]

theorem productOf_eq_prod (ns : List Nat) : productOf ns = ns.prod := by
  induction ns with
  | nil => rfl
  | cons n ns ih => rw [productOf, ih, List.prod_cons]

theorem Space.checkOrder_eq_ok_iff {space : Space} {order : Nat} :
    space.checkOrder order = .ok () ↔ 1 ≤ order ∧ order ≤ space.width := by
  rw [checkOrder]
  split
  · exact ⟨fun h => absurd h (by simp only [reduceCtorEq, not_false_eq_true]), fun h => by omega⟩
  · split
    · exact ⟨fun h => absurd h (by simp only [reduceCtorEq, not_false_eq_true]),
        fun h => by omega⟩
    · exact ⟨fun _ => by omega, fun _ => rfl⟩

/-- Looking all indices of a list up in order gives the list. -/
theorem map_getD_range (ns : List Nat) :
    ((List.range ns.length).map fun i => ns.getD i 0) = ns := by
  refine List.ext_getElem (by rw [List.length_map, List.length_range]) fun i hi hi' => ?_
  rw [List.getElem_map, List.getElem_range, List.getD_eq_getElem _ _ hi']

/-- The values of a row at the given positions. -/
def Row.valuesAt (row : Row) (positions : List Nat) : List Nat :=
  positions.map fun p => row.getD p 0

/-- The values of a row at all positions are the row. -/
theorem Row.valuesAt_range (row : Row) : row.valuesAt (List.range row.length) = row :=
  map_getD_range row

theorem mem_product_iff {rs vs : List Nat} :
    vs ∈ product rs ↔ vs.length = rs.length ∧ ∀ i, i < rs.length → vs.getD i 0 < rs.getD i 0 := by
  induction rs generalizing vs with
  | nil =>
      rw [product, List.mem_singleton, List.length_nil, List.length_eq_zero_iff]
      exact ⟨fun h => ⟨h, fun i hi => absurd hi (Nat.not_lt_zero i)⟩, fun h => h.1⟩
  | cons r rs ih =>
      cases vs with
      | nil =>
          refine ⟨fun h => ?_, fun h => absurd h.1 (Nat.succ_ne_zero _).symm⟩
          exact absurd (length_of_mem_product h) (Nat.succ_ne_zero _).symm
      | cons v vs =>
          rw [mem_product_cons, ih, List.length_cons, List.length_cons, Nat.add_right_cancel_iff]
          constructor
          · rintro ⟨hv, hlen, hvs⟩
            refine ⟨hlen, fun i hi => ?_⟩
            cases i with
            | zero => exact hv
            | succ i => exact hvs i (Nat.lt_of_succ_lt_succ hi)
          · rintro ⟨hlen, hall⟩
            exact ⟨hall 0 (Nat.succ_pos _), hlen,
              fun i hi => hall (i + 1) (Nat.succ_lt_succ hi)⟩

/-- The rows of a space are its full tuples. -/
theorem mem_product_counts_iff {space : Space} {row : Row} :
    row ∈ product space.counts ↔ space.admits row = true := by
  rw [mem_product_iff, Space.admits_iff]
  rfl

theorem tuples_of_ne_nil {rs : List Nat} (h : rs ≠ []) : tuples rs = product rs := by
  rw [tuples, if_neg (by rw [List.isEmpty_iff]; exact h)]

/-- A choice of positions of the space: some, in ascending order. -/
structure Space.Choice (space : Space) (positions : List Nat) : Prop where
  ne_nil : positions ≠ []
  ascending : positions.Pairwise (· < ·)
  lt_width : ∀ p ∈ positions, p < space.width

/-- Of two ascending lists, one whose members are all in the other is a part of
    it. -/
theorem sublist_of_ascending {xs ys : List Nat} (hx : xs.Pairwise (· < ·))
    (hy : ys.Pairwise (· < ·)) (h : xs ⊆ ys) : xs.Sublist ys :=
  List.sublist_of_subperm_of_pairwise
    (List.subperm_of_subset (hx.imp Nat.ne_of_lt) h) hx hy

/-- The parts of an ascending list are the ascending lists of some of its
    members. -/
theorem sublist_iff_of_ascending {xs ys : List Nat} (hy : ys.Pairwise (· < ·)) :
    xs.Sublist ys ↔ xs.Pairwise (· < ·) ∧ ∀ x ∈ xs, x ∈ ys :=
  ⟨fun h => ⟨hy.sublist h, fun _ hx => h.subset hx⟩, fun h => sublist_of_ascending h.1 hy h.2⟩

/-- The parts of a range are the ascending lists of numbers in it. -/
theorem sublist_range_iff {n : Nat} {positions : List Nat} :
    positions.Sublist (List.range n) ↔ positions.Pairwise (· < ·) ∧ ∀ p ∈ positions, p < n := by
  rw [sublist_iff_of_ascending List.pairwise_lt_range]
  simp only [List.mem_range]

theorem Space.Choice.tuples {space : Space} {positions : List Nat} (h : space.Choice positions) :
    Covering.tuples (positions.map space.count) = product (positions.map space.count) :=
  tuples_of_ne_nil fun hmap => h.ne_nil (List.map_eq_nil_iff.1 hmap)

/-- A row of the space has an enumerated tuple at each choice of positions. -/
theorem valuesAt_mem_product {space : Space} {row : Row} {positions : List Nat}
    (hrow : space.admits row = true) (hlt : ∀ p ∈ positions, p < space.width) :
    row.valuesAt positions ∈ product (positions.map space.count) := by
  induction positions with
  | nil => exact List.mem_singleton.2 rfl
  | cons p rest ih =>
      refine mem_product_cons.2 ⟨?_, ih fun q hq => hlt q (List.mem_cons_of_mem p hq)⟩
      exact Space.getD_lt_of_admits hrow (hlt p List.mem_cons_self)

theorem eraseRepsBy_loop_eq {α : Type} [BEq α] (a : α) (as acc : List α) :
    List.eraseRepsBy.loop (· == ·) a as acc =
      acc.reverse ++ List.eraseRepsBy.loop (· == ·) a as [] := by
  induction as generalizing a acc with
  | nil => simp only [List.eraseRepsBy.loop, List.reverse_cons, List.reverse_nil, List.nil_append]
  | cons b rest ih =>
      rw [List.eraseRepsBy.loop, List.eraseRepsBy.loop]
      split
      · exact ih a acc
      · rw [ih b (a :: acc), ih b [a]]
        simp only [List.reverse_cons, List.reverse_nil, List.nil_append, List.append_assoc]

/-- Dropping repetitions, by what comes next. -/
theorem eraseReps_cons_cons {α : Type} [BEq α] [LawfulBEq α] (a b : α) (as : List α) :
    (a :: b :: as).eraseReps =
      if a == b then (b :: as).eraseReps else a :: (b :: as).eraseReps := by
  rw [List.eraseReps, List.eraseRepsBy, List.eraseRepsBy.loop, List.eraseReps, List.eraseRepsBy]
  split
  · rename_i heq
    rw [if_pos heq, eq_of_beq heq]
  · rename_i hne
    rw [eraseRepsBy_loop_eq, hne]
    rfl

/-- Dropping repetitions keeps the members. -/
theorem mem_eraseReps_iff {α : Type} [BEq α] [LawfulBEq α] {x : α} {as : List α} :
    x ∈ as.eraseReps ↔ x ∈ as := by
  induction as with
  | nil => rfl
  | cons a rest ih =>
      cases rest with
      | nil => rfl
      | cons b rest =>
          rw [eraseReps_cons_cons, List.mem_cons, ← ih]
          split
          · rename_i heq
            rw [eq_of_beq heq, ih, List.mem_cons, or_self_left]
          · rw [List.mem_cons]

/-- Of a list in order, what is left without repetitions is in order and has
    each member once. -/
theorem pairwise_eraseReps {α : Type} [BEq α] [LawfulBEq α] {r : α → α → Prop} {as : List α}
    (h : as.Pairwise r) (hanti : ∀ a b, r a b → r b a → a = b) :
    as.eraseReps.Pairwise fun a b => r a b ∧ a ≠ b := by
  induction as with
  | nil => exact List.Pairwise.nil
  | cons a rest ih =>
      have hrest := ih h.tail
      cases rest with
      | nil => exact List.pairwise_singleton ..
      | cons b rest =>
          rw [eraseReps_cons_cons]
          split
          · exact hrest
          · rename_i hne
            rw [Bool.not_eq_true, beq_eq_false_iff_ne] at hne
            rw [List.pairwise_cons] at h
            refine List.pairwise_cons.2 ⟨fun c hc => ?_, hrest⟩
            rw [mem_eraseReps_iff] at hc
            refine ⟨h.1 c hc, ?_⟩
            rintro rfl
            -- A repetition of the first would have to come right after it.
            rcases List.mem_cons.1 hc with heq | hmem
            · exact hne heq
            · exact hne (hanti a b (h.1 b List.mem_cons_self) ((List.pairwise_cons.1 h.2).1 a hmem))

theorem choose_eq_nil {α : Type} {k : Nat} {xs : List α} (h : xs.length < k) :
    choose k xs = [] := by
  refine List.eq_nil_iff_forall_not_mem.2 fun ys hys => ?_
  rcases mem_choose_iff.1 hys with ⟨hsub, hlen⟩
  have hle := hsub.length_le
  omega

/-- The choices from a list, whether or not there are enough members left. -/
theorem choose_succ_cons {α : Type} (k : Nat) (x : α) (xs : List α) :
    choose (k + 1) (x :: xs) = (choose k xs).map (x :: ·) ++ choose (k + 1) xs := by
  rw [choose]
  split
  · rename_i hlt
    rw [choose_eq_nil hlt, choose_eq_nil (Nat.lt_succ_of_lt hlt)]
    rfl
  · rfl

theorem choose_map {α β : Type} (f : α → β) (k : Nat) (xs : List α) :
    choose k (xs.map f) = (choose k xs).map (List.map f) := by
  induction xs generalizing k with
  | nil => cases k <;> rfl
  | cons x xs ih =>
      cases k with
      | zero => rfl
      | succ k =>
          rw [List.map_cons, choose_succ_cons, choose_succ_cons, ih, ih, List.map_append,
            List.map_map, List.map_map]
          rfl

/-- Choices from a list without repetitions are all different. -/
theorem nodup_choose {α : Type} {k : Nat} {xs : List α} (h : xs.Nodup) : (choose k xs).Nodup := by
  induction xs generalizing k with
  | nil => cases k with
    | zero => exact List.nodup_singleton _
    | succ k => exact List.nodup_nil
  | cons x xs ih => cases k with
    | zero => exact List.nodup_singleton _
    | succ k =>
        rw [List.nodup_cons] at h
        rw [choose]
        split
        · exact List.nodup_nil
        · -- Choices with the first element are not among those without it.
          refine List.nodup_append.2 ⟨(ih h.2).map fun _ _ heq => (List.cons.inj heq).2, ih h.2,
            fun ys hys zs hzs => ?_⟩
          rcases List.mem_map.1 hys with ⟨ys, _, rfl⟩
          rintro rfl
          exact h.1 ((mem_choose_iff.1 hzs).1.subset List.mem_cons_self)

theorem nodup_product (rs : List Nat) : (product rs).Nodup := by
  induction rs with
  | nil => exact List.nodup_singleton _
  | cons r rs ih =>
      rw [product, List.nodup_flatMap]
      -- Tuples with different first values differ.
      refine ⟨fun v _ => ih.map fun _ _ heq => (List.cons.inj heq).2,
        List.nodup_range.imp fun hne vs hv hw => ?_⟩
      rcases List.mem_map.1 hv with ⟨us, _, rfl⟩
      rcases List.mem_map.1 hw with ⟨ws, _, heq⟩
      exact hne (List.cons.inj heq).1.symm

namespace Submodel

theorem descent?_eq_none_iff {positions : List Nat} :
    descent? positions = none ↔ positions.Pairwise (· < ·) := by
  induction positions with
  | nil => simp only [descent?, List.Pairwise.nil]
  | cons a rest ih =>
      cases rest with
      | nil => simp only [descent?, List.pairwise_singleton]
      | cons b rest =>
          rw [descent?, List.pairwise_cons]
          split
          · rename_i hab
            -- One step up is enough, since the rest ascends from there.
            rw [ih, iff_and_self]
            intro hrest p hp
            rcases List.mem_cons.1 hp with rfl | hp
            · exact hab
            · exact Nat.lt_trans hab ((List.pairwise_cons.1 hrest).1 p hp)
          · rename_i hab
            exact ⟨fun h => absurd h (by simp only [reduceCtorEq, not_false_eq_true]),
              fun h => absurd (h.1 b List.mem_cons_self) hab⟩

/-- What the check of a submodel looks after. -/
theorem check_eq_ok_iff {submodel : Submodel} {space : Space} :
    submodel.check space = .ok () ↔
      space.Choice submodel.positions ∧ 0 < submodel.order ∧
        submodel.order ≤ submodel.positions.length := by
  have hcheck : submodel.check space = .ok () ↔ submodel.fault? space = none := by
    rw [check]
    cases submodel.fault? space <;> simp only [reduceCtorEq]
  rw [hcheck, fault?]
  split
  · rename_i hempty
    exact ⟨fun h => absurd h (by simp only [reduceCtorEq, not_false_eq_true]),
      fun h => absurd (List.isEmpty_iff.1 hempty) h.1.ne_nil⟩
  · rename_i hempty
    rw [List.isEmpty_iff] at hempty
    split
    · rename_i hdescent
      refine ⟨fun h => absurd h (by simp only [reduceCtorEq, not_false_eq_true]), fun h => ?_⟩
      rw [descent?_eq_none_iff.2 h.1.ascending] at hdescent
      exact absurd hdescent (by simp only [reduceCtorEq, not_false_eq_true])
    · rename_i hdescent
      split
      · rename_i p hfind
        refine ⟨fun h => absurd h (by simp only [reduceCtorEq, not_false_eq_true]), fun h => ?_⟩
        have hle := List.find?_some hfind
        have hlt := h.1.lt_width p (List.mem_of_find?_eq_some hfind)
        simp only [decide_eq_true_eq] at hle
        omega
      · rename_i hfind
        simp only [List.find?_eq_none, decide_eq_true_eq, Nat.not_le] at hfind
        split
        · refine ⟨fun h => absurd h (by simp only [reduceCtorEq, not_false_eq_true]), fun h => ?_⟩
          omega
        · rename_i horder
          refine ⟨fun _ => ⟨⟨hempty, descent?_eq_none_iff.1 hdescent, hfind⟩, ?_⟩, fun _ => rfl⟩
          omega

theorem mem_subsets_iff {submodel : Submodel} {positions : List Nat} :
    positions ∈ submodel.subsets ↔
      0 < submodel.order ∧ positions.Sublist submodel.positions ∧
        positions.length = submodel.order := by
  rw [subsets]
  split
  · rename_i hzero
    exact ⟨fun h => absurd h List.not_mem_nil, fun h => by omega⟩
  · rename_i hpos
    rw [mem_choose_iff]
    exact ⟨fun h => ⟨Nat.pos_of_ne_zero hpos, h⟩, fun h => h.2⟩

end Submodel

/-- What submodels add: the choices from a group whose order exceeds the
    model's. -/
theorem mem_extraSubsets_iff {order : Nat} {submodels : List Submodel} {positions : List Nat} :
    positions ∈ extraSubsets order submodels ↔
      ∃ s ∈ submodels, order < s.order ∧ positions.Sublist s.positions ∧
        positions.length = s.order := by
  simp only [extraSubsets, mem_eraseReps_iff, List.mem_mergeSort, List.mem_flatMap,
    List.mem_filter, decide_eq_true_eq, Submodel.mem_subsets_iff]
  constructor
  · rintro ⟨s, ⟨hs, horder⟩, _, hsub⟩
    exact ⟨s, hs, horder, hsub⟩
  · rintro ⟨s, hs, horder, hsub⟩
    exact ⟨s, ⟨hs, horder⟩, Nat.lt_of_le_of_lt (Nat.zero_le _) horder, hsub⟩

theorem mem_subsets_iff {n k : Nat} {positions : List Nat} :
    positions ∈ subsets n k ↔ 0 < k ∧ positions.Sublist (List.range n) ∧ positions.length = k := by
  rw [subsets]
  split
  · rename_i hzero
    exact ⟨fun h => absurd h List.not_mem_nil, fun h => by omega⟩
  · rename_i hpos
    rw [mem_choose_iff]
    exact ⟨fun h => ⟨Nat.pos_of_ne_zero hpos, h⟩, fun h => h.2⟩

/-- A choice of some of the positions of a choice is one itself. -/
theorem Space.Choice.sublist {space : Space} {positions rest : List Nat}
    (h : space.Choice positions) (hsub : rest.Sublist positions) (hne : rest ≠ []) :
    space.Choice rest :=
  ⟨hne, h.ascending.sublist hsub, fun p hp => h.lt_width p (hsub.subset hp)⟩

/-- The choices that submodels add come in order, each once. -/
theorem pairwise_extraSubsets (order : Nat) (submodels : List Submodel) :
    (extraSubsets order submodels).Pairwise fun a b => compare a b = .lt := by
  refine (pairwise_eraseReps (pairwise_mergeSort _) fun a b hab hba => ?_).imp fun hab => ?_
  · exact Std.LawfulEqCmp.eq_of_compare (Std.OrientedCmp.isLE_antisymm hab hba)
  · rcases Ordering.isLE_iff_eq_lt_or_eq_eq.1 hab.1 with hlt | heq
    · exact hlt
    · exact absurd (Std.LawfulEqCmp.eq_of_compare heq) hab.2

/-- What submodels add is longer than any of the model's choices. -/
theorem not_mem_subsets_of_mem_extraSubsets {order : Nat} {submodels : List Submodel}
    {positions : List Nat} (h : positions ∈ extraSubsets order submodels) (n : Nat) :
    positions ∉ subsets n order := by
  intro hmem
  -- Its length would have to be the order and exceed it.
  rcases mem_extraSubsets_iff.1 h with ⟨s, _, horder, _, hlen⟩
  rcases mem_subsets_iff.1 hmem with ⟨_, _, hlen'⟩
  omega

/-- The tracked choices are all different: those that submodels add are not among
    those of the model. -/
theorem nodup_trackedSubsets (space : Space) (order : Nat) (submodels : List Submodel) :
    (trackedSubsets space order submodels).Nodup := by
  refine List.nodup_append.2 ⟨?_, ?_, fun a ha b hb => ?_⟩
  · rw [subsets]
    split
    · exact List.nodup_nil
    · exact nodup_choose List.nodup_range
  · refine (pairwise_extraSubsets order submodels).imp fun {a b} hlt heq => ?_
    rw [heq, Std.ReflOrd.compare_self] at hlt
    exact absurd hlt (by decide)
  · rintro rfl
    exact not_mem_subsets_of_mem_extraSubsets hb space.width ha

/-- The counts of the positions of a space, in order, are its counts. -/
theorem Space.map_count_range (space : Space) :
    (List.range space.width).map space.count = space.counts := map_getD_range space.counts

/-- The counts on the model's choices of positions are the choices of as many
    counts. -/
theorem map_count_subsets (space : Space) {order : Nat} (h : 1 ≤ order) :
    (subsets space.width order).map (List.map space.count) = choose order space.counts := by
  rw [subsets, if_neg (by omega), ← choose_map, space.map_count_range]

theorem ne_nil_of_mem_subsets {n k : Nat} {positions : List Nat} (h : positions ∈ subsets n k) :
    positions ≠ [] := by
  rcases mem_subsets_iff.1 h with ⟨hpos, _, hlen⟩
  rw [← hlen] at hpos
  exact List.ne_nil_of_length_pos hpos

/-- No tracked choice is empty, whatever the submodels are. -/
theorem ne_nil_of_mem_trackedSubsets {space : Space} {order : Nat} {submodels : List Submodel}
    {positions : List Nat} (h : positions ∈ trackedSubsets space order submodels) :
    positions ≠ [] := by
  rcases List.mem_append.1 h with h | h
  · exact ne_nil_of_mem_subsets h
  · rcases mem_extraSubsets_iff.1 h with ⟨s, _, horder, _, hlen⟩
    -- The order that a submodel raises is zero or more.
    have hpos : 0 < positions.length := by omega
    exact List.ne_nil_of_length_pos hpos

/-- The model's choices are choices of the space. -/
theorem choice_of_mem_subsets {space : Space} {order : Nat} {positions : List Nat}
    (h : positions ∈ subsets space.width order) : space.Choice positions := by
  rcases sublist_range_iff.1 (mem_subsets_iff.1 h).2.1 with ⟨hascending, hlt⟩
  exact ⟨ne_nil_of_mem_subsets h, hascending, hlt⟩

/-- Tracked choices are choices of the space. -/
theorem choice_of_mem_trackedSubsets {space : Space} {order : Nat} {submodels : List Submodel}
    (hsub : ∀ s ∈ submodels, s.check space = .ok ()) {positions : List Nat}
    (h : positions ∈ trackedSubsets space order submodels) : space.Choice positions := by
  have hne := ne_nil_of_mem_trackedSubsets h
  rcases List.mem_append.1 h with h | h
  · exact choice_of_mem_subsets h
  · rcases mem_extraSubsets_iff.1 h with ⟨s, hs, _, hsublist, _⟩
    exact (Submodel.check_eq_ok_iff.1 (hsub s hs)).1.sublist hsublist hne

end Covering
