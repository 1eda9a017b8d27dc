import Covering.Proofs.Enumeration
import Covering.Proofs.Exclusion
import Mathlib.Data.List.Pairwise
import Mathlib.Data.List.Sort

/-!
# Normal forms are canonical

Constraints can be written in many ways that ask for the same. Exclusions may
come in any order, more than once, or beside others that they contain; groups
of parameters may overlap, lie within one another, or have too low an order to
matter. What is computed from them does not depend on the way they are written,
not even in its order.

For exclusions this rests on three facts about the list that is kept. It comes
in a strict order (`pairwise_normalize`), none of its members lies within
another (`eq_of_subset`), and every combination given contains one of them. The
members are then exactly the least combinations given, and a list in strict
order is determined by its members. The choices that groups add are a list in
strict order as well, so for them the last step alone is needed.

## Main definitions

* `EachContains`: Each combination of one list contains one of another.
* `Exclusion.Ascends`: The bindings of an exclusion ascend by position.
* `Exclusion.Before`: The order in which a normal form comes.

## Theorems

* `eq_of_ordered`: A list in strict order is determined by its members.
* `Exclusion.eq_of_mem_iff`: An exclusion is determined by its bindings.
* `pairwise_normalize`: A normal form comes in strict order.
* `eq_of_subset`: No member of a normal form lies within another.
* `normalize_congr`: Exclusions that contain one another have one normal form.
* `ofLists_congr`: The same for combinations as they were given.
* `extraSubsets_congr`: Groups with the same choices add the same.
* `ofPositions_perm`: The order in which positions are given does not matter.
-/

namespace Covering

/-- A list in strict order is determined by its members. -/
theorem eq_of_ordered {α : Type} {r : α → α → Prop} (hr : ∀ a b, r a b → ¬ r b a)
    {as bs : List α} (has : as.Pairwise r) (hbs : bs.Pairwise r) (h : ∀ a, a ∈ as ↔ a ∈ bs) :
    as = bs := by
  have : Std.Antisymm r := ⟨fun a b hab hba => absurd hba (hr a b hab)⟩
  have : Std.Irrefl r := ⟨fun a haa => hr a a haa haa⟩
  exact has.eq_of_mem_iff hbs h

/-- Each combination of one list contains one of another. -/
def EachContains (lists others : List (List Binding)) : Prop :=
  ∀ list ∈ lists, ∃ other ∈ others, other ⊆ list

instance (lists others : List (List Binding)) : Decidable (EachContains lists others) :=
  inferInstanceAs (Decidable (∀ list ∈ lists, ∃ other ∈ others, ∀ b ∈ other, b ∈ list))

/-- A binding that comes no later than another has no later position. -/
theorem position_le_of_isLE {a b : Binding} (h : isLE a b = true) : a.position ≤ b.position := by
  by_contra hlt
  have hgt : compare a.position b.position = .gt := Nat.compare_eq_gt.2 (Nat.lt_of_not_le hlt)
  have hcompare : compare a b = .gt := by
    change (compare a.position b.position).then (compare a.value b.value) = .gt
    rw [hgt]
    rfl
  rw [isLE, hcompare] at h
  exact absurd h (by decide)

/-- Bindings in order that bind no position twice ascend by position. -/
theorem ascending_of_repeatedPosition? {bindings : List Binding}
    (hsorted : bindings.Pairwise (isLE · ·)) (h : repeatedPosition? bindings = none) :
    bindings.Pairwise fun a b => a.position < b.position := by
  induction bindings with
  | nil => exact List.Pairwise.nil
  | cons a rest ih =>
      cases rest with
      | nil => exact List.pairwise_singleton ..
      | cons b rest =>
          rw [repeatedPosition?] at h
          split at h
          · exact absurd h (by simp only [reduceCtorEq, not_false_eq_true])
          · rename_i hne
            have hrest := ih hsorted.tail h
            have hle := position_le_of_isLE ((List.pairwise_cons.1 hsorted).1 b List.mem_cons_self)
            have hlt : a.position < b.position := by omega
            -- What comes later has a still later position.
            refine List.pairwise_cons.2 ⟨fun c hc => ?_, hrest⟩
            rcases List.mem_cons.1 hc with rfl | hc
            · exact hlt
            · have hbc := (List.pairwise_cons.1 hrest).1 c hc
              omega

namespace Exclusion

instance : Std.TransOrd Exclusion :=
  inferInstanceAs (Std.TransCmp (compareOn fun e : Exclusion => e.bindings))

instance : Std.LawfulEqOrd Exclusion where
  eq_of_compare {a b} h := by
    have hbindings : compare a.bindings b.bindings = .eq := h
    have heq := Std.LawfulEqCmp.eq_of_compare hbindings
    cases a
    cases b
    rw [Exclusion.mk.injEq]
    exact heq

/-- The bindings of the exclusion ascend by position. -/
def Ascends (e : Exclusion) : Prop := e.bindings.Pairwise fun a b => a.position < b.position

theorem ascends_ofBindings {space : Space} {list : List Binding} {e : Exclusion}
    (h : ofBindings space list = .ok e) : e.Ascends := by
  have hsort := (ofBindings_eq_ok h).1
  rw [ofBindings] at h
  split at h
  · exact absurd h (by simp only [reduceCtorEq, not_false_eq_true])
  · simp only at h
    split at h
    · exact absurd h (by simp only [reduceCtorEq, not_false_eq_true])
    · rename_i hrepeated
      rw [Ascends, hsort]
      exact ascending_of_repeatedPosition? (pairwise_sortBindings list) hrepeated

theorem Ascends.nodup {e : Exclusion} (h : e.Ascends) : e.bindings.Nodup := by
  refine h.imp fun {a b} hlt heq => ?_
  rw [heq] at hlt
  exact Nat.lt_irrefl _ hlt

/-- An exclusion is determined by its bindings, in whatever order. -/
theorem eq_of_mem_iff {e other : Exclusion} (he : e.Ascends) (hother : other.Ascends)
    (h : ∀ b, b ∈ e.bindings ↔ b ∈ other.bindings) : e = other := by
  have hbindings : e.bindings = other.bindings :=
    eq_of_ordered (fun a b hab hba => Nat.lt_asymm hab hba) he hother h
  cases e
  cases other
  rw [Exclusion.mk.injEq]
  exact hbindings

/-- The shorter of two exclusions comes first in a normal form. -/
theorem length_le_of_precedes {e other : Exclusion} (h : e.precedes other = true) :
    e.bindings.length ≤ other.bindings.length := by
  by_contra hlt
  have hgt : compare e.bindings.length other.bindings.length = .gt :=
    Nat.compare_eq_gt.2 (Nat.lt_of_not_le hlt)
  have hcompare : compareLex (compareOn (·.bindings.length)) compare e other = .gt := by
    change (compare e.bindings.length other.bindings.length).then (compare e other) = .gt
    rw [hgt]
    rfl
  rw [precedes, hcompare] at h
  exact absurd h (by decide)

theorem precedes_antisymm {e other : Exclusion} (h : e.precedes other = true)
    (h' : other.precedes e = true) : e = other := by
  have heq : compareLex (compareOn (·.bindings.length)) compare e other = .eq :=
    Std.OrientedCmp.isLE_antisymm h h'
  rw [compareLex_eq_eq] at heq
  exact Std.LawfulEqCmp.eq_of_compare heq.2

/-- Sorting for a normal form puts exclusions in its order. -/
theorem pairwise_mergeSort_precedes (exclusions : List Exclusion) :
    (exclusions.mergeSort precedes).Pairwise (precedes · ·) :=
  pairwise_mergeSort_isLE (compareLex (compareOn fun e : Exclusion => e.bindings.length) compare)
    exclusions

theorem subsumes_iff {e other : Exclusion} (he : e.Ascends) :
    e.subsumes other = true ↔ e.bindings ⊆ other.bindings := by
  refine ⟨subsumes_subset, fun h => ?_⟩
  have hle := (List.subperm_of_subset he.nodup h).length_le
  simp only [subsumes, Bool.and_eq_true, decide_eq_true_eq, List.all_eq_true,
    List.contains_eq_mem]
  exact ⟨hle, fun b hb => h hb⟩

theorem subsumes_self (e : Exclusion) : e.subsumes e = true := by
  simp only [subsumes, Bool.and_eq_true, decide_eq_true_eq, List.all_eq_true,
    List.contains_eq_mem]
  exact ⟨Nat.le_refl _, fun _ hb => hb⟩

/-- One exclusion comes before another in a normal form: it precedes it, and the
    other does not contain it. -/
def Before (e other : Exclusion) : Prop := e.precedes other = true ∧ e.subsumes other = false

theorem Before.asymm (e other : Exclusion) (h : e.Before other) : ¬ other.Before e := by
  intro h'
  have heq := precedes_antisymm h.1 h'.1
  rw [heq, Before, subsumes_self] at h
  exact absurd h.2 (by decide)

/-- Whatever comes before another in a normal form does not lie within it. -/
theorem not_subset_of_before {e other : Exclusion} (he : e.Ascends) (h : e.Before other) :
    ¬ e.bindings ⊆ other.bindings := by
  intro hsub
  rw [Before, (subsumes_iff he).2 hsub] at h
  exact absurd h.2 (by decide)

end Exclusion

namespace ExclusionSet

open Exclusion

section Kept

variable {kept exclusions others : List Exclusion} {e other : Exclusion}

/-- What is kept stays in order, as long as what is still to come comes later. -/
theorem pairwise_keepMinimal (hkept : kept.Pairwise Before)
    (hsorted : exclusions.Pairwise (precedes · ·))
    (hlater : ∀ k ∈ kept, ∀ e ∈ exclusions, k.precedes e = true) :
    (keepMinimal kept exclusions).Pairwise Before := by
  induction exclusions generalizing kept with
  | nil => exact hkept
  | cons a rest ih =>
      have hrest : ∀ k ∈ kept, ∀ e ∈ rest, k.precedes e = true := by
        intro k hk e he
        exact hlater k hk e (List.mem_cons_of_mem a he)
      rw [keepMinimal]
      split
      · exact ih hkept hsorted.tail hrest
      · rename_i hany
        rw [Bool.not_eq_true, List.any_eq_false] at hany
        refine ih (List.pairwise_append.2 ⟨hkept, List.pairwise_singleton .., ?_⟩) hsorted.tail ?_
        · -- The next one is kept because nothing before it lies within it.
          intro k hk b hb
          rw [List.mem_singleton.1 hb]
          exact ⟨hlater k hk a List.mem_cons_self, Bool.eq_false_iff.2 (hany k hk)⟩
        · intro k hk e he
          rcases List.mem_append.1 hk with hk | hk
          · exact hrest k hk e he
          · rw [List.mem_singleton.1 hk]
            exact (List.pairwise_cons.1 hsorted).1 e he

/-- A normal form comes in strict order. -/
theorem pairwise_normalize (exclusions : List Exclusion) :
    (normalize exclusions).Pairwise Before :=
  pairwise_keepMinimal List.Pairwise.nil (pairwise_mergeSort_precedes exclusions)
    fun _ hk => absurd hk List.not_mem_nil

/-- Of two different members of a normal form, one comes before the other. -/
theorem before_or_before (he : e ∈ normalize exclusions) (hother : other ∈ normalize exclusions)
    (hne : e ≠ other) : e.Before other ∨ other.Before e := by
  have hpairwise : (normalize exclusions).Pairwise fun a b => a.Before b ∨ b.Before a :=
    (pairwise_normalize exclusions).imp Or.inl
  have : Std.Symm fun a b : Exclusion => a.Before b ∨ b.Before a := ⟨fun _ _ h => h.symm⟩
  exact hpairwise.forall he hother hne

/-- No member of a normal form lies within another. -/
theorem eq_of_subset (hascends : ∀ e ∈ exclusions, e.Ascends) (he : e ∈ normalize exclusions)
    (hother : other ∈ normalize exclusions) (hsub : e.bindings ⊆ other.bindings) : e = other := by
  by_contra hne
  have heAscends := hascends e (mem_of_mem_normalize he)
  have hotherAscends := hascends other (mem_of_mem_normalize hother)
  rcases before_or_before he hother hne with hbefore | hbefore
  · exact not_subset_of_before heAscends hbefore hsub
  · -- Both have the same length then, and so the same bindings.
    have hperm : e.bindings.Perm other.bindings :=
      (List.subperm_of_subset heAscends.nodup hsub).perm_of_length_le
        (length_le_of_precedes hbefore.1)
    exact hne (Exclusion.eq_of_mem_iff heAscends hotherAscends fun b => hperm.mem_iff)

/-- What is kept of one list is kept of another that contains the same. -/
theorem mem_normalize_of_mem (hascends : ∀ e ∈ exclusions, e.Ascends)
    (hascends' : ∀ e ∈ others, e.Ascends)
    (h : ∀ e ∈ exclusions, ∃ k ∈ others, k.bindings ⊆ e.bindings)
    (h' : ∀ e ∈ others, ∃ k ∈ exclusions, k.bindings ⊆ e.bindings)
    (he : e ∈ normalize exclusions) : e ∈ normalize others := by
  -- It contains one kept of the other list, which contains one kept of its own.
  rcases h e (mem_of_mem_normalize he) with ⟨a, ha, hae⟩
  rcases exists_mem_normalize ha with ⟨b, hb, hba⟩
  rcases h' b (mem_of_mem_normalize hb) with ⟨c, hc, hcb⟩
  rcases exists_mem_normalize hc with ⟨d, hd, hdc⟩
  have hbe : b.bindings ⊆ e.bindings := fun x hx => hae (hba hx)
  have hdb : d.bindings ⊆ b.bindings := fun x hx => hcb (hdc hx)
  -- The last is the first, so all of them have the same bindings.
  have hde : d = e := eq_of_subset hascends hd he fun x hx => hbe (hdb hx)
  rw [hde] at hdb
  have heb : e = b := Exclusion.eq_of_mem_iff (hascends e (mem_of_mem_normalize he))
    (hascends' b (mem_of_mem_normalize hb)) fun x => ⟨fun hx => hdb hx, fun hx => hbe hx⟩
  rw [heb]
  exact hb

/-- Exclusions that contain one another have one normal form. -/
theorem normalize_congr (hascends : ∀ e ∈ exclusions, e.Ascends)
    (hascends' : ∀ e ∈ others, e.Ascends)
    (h : ∀ e ∈ exclusions, ∃ k ∈ others, k.bindings ⊆ e.bindings)
    (h' : ∀ e ∈ others, ∃ k ∈ exclusions, k.bindings ⊆ e.bindings) :
    normalize exclusions = normalize others :=
  eq_of_ordered Before.asymm (pairwise_normalize exclusions) (pairwise_normalize others)
    fun _ => ⟨mem_normalize_of_mem hascends hascends' h h',
      mem_normalize_of_mem hascends' hascends h' h⟩

end Kept

section Lists

variable {space : Space} {raw raw' : List (List Binding)} {set set' : ExclusionSet}

/-- Accepted exclusions contain one another as the combinations given do. -/
theorem exists_subset_of_eachContains {exclusions others : List Exclusion}
    (hraw : raw.mapM (Exclusion.ofBindings space) = .ok exclusions)
    (hraw' : raw'.mapM (Exclusion.ofBindings space) = .ok others) (h : EachContains raw raw') :
    ∀ e ∈ exclusions, ∃ k ∈ others, k.bindings ⊆ e.bindings := by
  intro e he
  rcases (mem_of_mapM_ok hraw).1 e he with ⟨list, hlist, hok⟩
  rcases h list hlist with ⟨small, hsmall, hsub⟩
  rcases (mem_of_mapM_ok hraw').2 small hsmall with ⟨k, hk, hkok⟩
  refine ⟨k, hk, fun b hb => ?_⟩
  rw [(Exclusion.ofBindings_eq_ok hkok).1, mem_sortBindings] at hb
  rw [(Exclusion.ofBindings_eq_ok hok).1, mem_sortBindings]
  exact hsub hb

theorem ascends_of_mapM {exclusions : List Exclusion}
    (hraw : raw.mapM (Exclusion.ofBindings space) = .ok exclusions) :
    ∀ e ∈ exclusions, e.Ascends := by
  intro e he
  rcases (mem_of_mapM_ok hraw).1 e he with ⟨list, _, hok⟩
  exact Exclusion.ascends_ofBindings hok

/-- Combinations that contain one another make the same set of exclusions. -/
theorem ofLists_congr (h : ofLists space raw = .ok set) (h' : ofLists space raw' = .ok set')
    (hraw : EachContains raw raw') (hraw' : EachContains raw' raw) : set = set' := by
  rcases exists_of_ofLists h with ⟨exclusions, hmap, rfl⟩
  rcases exists_of_ofLists h' with ⟨others, hmap', rfl⟩
  rw [normalize_congr (ascends_of_mapM hmap) (ascends_of_mapM hmap')
    (exists_subset_of_eachContains hmap hmap' hraw)
    (exists_subset_of_eachContains hmap' hmap hraw')]

end Lists

end ExclusionSet

/-- The choices that groups add are those of some group that are longer than the
    order of the model. -/
theorem mem_extraSubsets_iff_exists_subsets {order : Nat} {submodels : List Submodel}
    {positions : List Nat} :
    positions ∈ extraSubsets order submodels ↔
      order < positions.length ∧ ∃ s ∈ submodels, positions ∈ s.subsets := by
  rw [mem_extraSubsets_iff]
  constructor
  · rintro ⟨s, hs, horder, hsub, hlen⟩
    have hpos : 0 < s.order := by omega
    exact ⟨by omega, s, hs, Submodel.mem_subsets_iff.2 ⟨hpos, hsub, hlen⟩⟩
  · rintro ⟨horder, s, hs, hmem⟩
    rcases Submodel.mem_subsets_iff.1 hmem with ⟨_, hsub, hlen⟩
    exact ⟨s, hs, by omega, hsub, hlen⟩

/-- Groups with the same choices longer than the order of the model add the
    same. -/
theorem extraSubsets_congr {order : Nat} {submodels others : List Submodel}
    (h : ∀ positions : List Nat, order < positions.length →
      ((∃ s ∈ submodels, positions ∈ s.subsets) ↔ ∃ s ∈ others, positions ∈ s.subsets)) :
    extraSubsets order submodels = extraSubsets order others := by
  refine eq_of_ordered (fun a b hab hba => ?_) (pairwise_extraSubsets order submodels)
    (pairwise_extraSubsets order others) fun positions => ?_
  · rw [@Std.OrientedCmp.eq_swap (List Nat) compare _ a, hba] at hab
    exact absurd hab (by decide)
  · rw [mem_extraSubsets_iff_exists_subsets, mem_extraSubsets_iff_exists_subsets]
    exact and_congr_right (h positions)

/-- The order in which the positions of a group are given does not matter. -/
theorem Submodel.ofPositions_perm (space : Space) (order : Nat) {positions positions' : List Nat}
    (h : positions.Perm positions') :
    ofPositions space positions order = ofPositions space positions' order := by
  have hsorted (ps : List Nat) : (ps.mergeSort fun a b => decide (a ≤ b)).Pairwise (· ≤ ·) := by
    have htrans : ∀ a b c : Nat, decide (a ≤ b) = true → decide (b ≤ c) = true →
        decide (a ≤ c) = true := by
      intro a b c hab hbc
      rw [decide_eq_true_eq] at hab hbc ⊢
      exact Nat.le_trans hab hbc
    have htotal : ∀ a b : Nat, (decide (a ≤ b) || decide (b ≤ a)) = true := by
      intro a b
      rw [Bool.or_eq_true, decide_eq_true_eq, decide_eq_true_eq]
      exact Nat.le_total a b
    exact (List.pairwise_mergeSort htrans htotal ps).imp fun hab => of_decide_eq_true hab
  have hperm := ((List.mergeSort_perm positions fun a b => decide (a ≤ b)).trans h).trans
    (List.mergeSort_perm positions' fun a b => decide (a ≤ b)).symm
  have heq : (positions.mergeSort fun a b => decide (a ≤ b)) =
      positions'.mergeSort fun a b => decide (a ≤ b) :=
    hperm.eq_of_pairwise' (hsorted positions) (hsorted positions')
  rw [ofPositions, ofPositions, heq]

end Covering
