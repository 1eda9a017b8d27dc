import Covering.Proofs.NormalForm
import Covering.Proofs.Obligation
import Mathlib.Data.List.Permutation

/-!
# What a normal form blocks

Combinations to avoid are not kept as they were given. They are sorted, and
what contains another of them is dropped. Nothing is lost by it: whatever a row,
a partial row or an obligation says of the parameters, it contains one of the
combinations given if and only if the set blocks it.

Of several members that a row contains, the one that is reported is the least
in the order of the set. The scan stops at the first match, and the members
come in that order, so the first match is the least (`find?_eq_some_iff_least`).

What is kept is a fixed point. A set that is built again from its own members,
with their bindings in any order, is the same set (`ofLists_eq_ok_of_members`).
Acceptance has to be shown first, and it does not depend on the order in which
a combination lists its bindings (`ofBindings_perm`). That the two sets are
equal is then the canonicity of normal forms.

## Main definitions

* `Exclusion.Less`: The strict order of a normal form, by size and bindings.

## Theorems

* `find?_eq_some_iff_least`: The first match in a strict order is the least.
* `Before.less`: A normal form comes in that order.
* `violation?_eq_some_iff`: The violation reported is the least.
* `incomparable_members`: No member lies within another.
* `ofBindings_perm`: The order of bindings does not matter.
* `ofLists_eq_ok_of_members`: A set is built again from its members.
* `ofLists_loses_nothing`: The set of given combinations, altogether.
-/

namespace Covering

/-- The first match in a list in strict order is the least of all matches. -/
theorem find?_eq_some_iff_least {α : Type} {r : α → α → Prop} (hr : ∀ a b, r a b → ¬ r b a)
    {as : List α} (has : as.Pairwise r) {P : α → Bool} {a : α} :
    as.find? P = some a ↔
      a ∈ as ∧ P a = true ∧ ∀ b ∈ as, P b = true → b = a ∨ r a b := by
  have hleast {a : α} (h : as.find? P = some a) : ∀ b ∈ as, P b = true → b = a ∨ r a b := by
    rcases List.find?_eq_some_iff_append.1 h with ⟨_, before, after, rfl, hbefore⟩
    intro b hb hmatch
    rcases List.mem_append.1 hb with hb | hb
    · -- Nothing before the first match matches.
      have hmiss := hbefore b hb
      rw [hmatch] at hmiss
      exact absurd hmiss (by decide)
    · rcases List.mem_cons.1 hb with rfl | hb
      · exact .inl rfl
      · exact .inr ((List.pairwise_cons.1 (List.pairwise_append.1 has).2.1).1 b hb)
  constructor
  · exact fun h => ⟨List.mem_of_find?_eq_some h, List.find?_some h, hleast h⟩
  · rintro ⟨ha, hmatch, hmin⟩
    rcases Option.isSome_iff_exists.1 (List.find?_isSome.2 ⟨a, ha, hmatch⟩) with ⟨b, hb⟩
    -- The match that is found cannot come before the least, nor behind it.
    rcases hmin b (List.mem_of_find?_eq_some hb) (List.find?_some hb) with rfl | hab
    · exact hb
    · rcases hleast hb a ha hmatch with rfl | hba
      · exact hb
      · exact absurd hba (hr a b hab)

/-- Sorting forgets the order in which bindings were given. -/
theorem sortBindings_perm {list list' : List Binding} (h : list.Perm list') :
    sortBindings list = sortBindings list' := by
  have : Std.Antisymm fun a b : Binding => isLE a b = true := ⟨fun _ _ hab hba =>
    Std.LawfulEqCmp.eq_of_compare (Std.OrientedCmp.isLE_antisymm hab hba)⟩
  have hperm :=
    ((List.mergeSort_perm list isLE).trans h).trans (List.mergeSort_perm list' isLE).symm
  exact hperm.eq_of_pairwise' (pairwise_sortBindings list) (pairwise_sortBindings list')

namespace Exclusion

/-- One exclusion comes strictly before another: it is shorter, or as long and
    first by its bindings. -/
def Less (e other : Exclusion) : Prop :=
  e.bindings.length < other.bindings.length ∨
    e.bindings.length = other.bindings.length ∧ compare e.bindings other.bindings = .lt

instance (e other : Exclusion) : Decidable (e.Less other) :=
  inferInstanceAs (Decidable (_ ∨ _))

theorem Less.asymm (e other : Exclusion) (h : e.Less other) : ¬ other.Less e := by
  intro h'
  rcases h with hlt | ⟨hlen, hlt⟩
  · rcases h' with hlt' | ⟨hlen', _⟩ <;> omega
  · rcases h' with hlt' | ⟨_, hlt'⟩
    · omega
    · rw [@Std.OrientedCmp.eq_swap (List Binding) compare _ e.bindings, hlt'] at hlt
      exact absurd hlt (by decide)

/-- What comes before another in a normal form is strictly before it. -/
theorem Before.less {e other : Exclusion} (h : e.Before other) : e.Less other := by
  have hle := length_le_of_precedes h.1
  rcases Nat.lt_or_eq_of_le hle with hlt | hlen
  · exact .inl hlt
  · have hprecedes : (compare e.bindings other.bindings).isLE = true := by
      have hlex : ((compare e.bindings.length other.bindings.length).then
          (compare e.bindings other.bindings)).isLE = true := h.1
      rwa [Nat.compare_eq_eq.2 hlen] at hlex
    refine .inr ⟨hlen, ?_⟩
    cases hcompare : compare e.bindings other.bindings with
    | lt => rfl
    | gt =>
        rw [hcompare] at hprecedes
        exact absurd hprecedes (by decide)
    | eq =>
        -- Equal exclusions do not come before one another.
        have hexclusions : compare e other = .eq := hcompare
        obtain rfl := Std.LawfulEqCmp.eq_of_compare hexclusions
        exact absurd h (h.asymm _ _)

/-- Whether a combination is accepted, and as what, does not depend on the order
    in which it lists its bindings. -/
theorem ofBindings_perm (space : Space) {list list' : List Binding} (h : list.Perm list') :
    ofBindings space list = ofBindings space list' := by
  rw [ofBindings, ofBindings, sortBindings_perm h, h.isEmpty_eq]

end Exclusion

namespace ExclusionSet

open Exclusion

variable {space : Space} {raw : List (List Binding)} {set : ExclusionSet}

/-- The members of a set come in strict order. -/
theorem pairwise_before (h : ofLists space raw = .ok set) : set.members.Pairwise Before := by
  rcases exists_of_ofLists h with ⟨exclusions, _, rfl⟩
  exact pairwise_normalize exclusions

/-- No member of a set lies within another. -/
theorem incomparable_members (h : ofLists space raw = .ok set) :
    set.members.Pairwise fun e other =>
      ¬ e.bindings ⊆ other.bindings ∧ ¬ other.bindings ⊆ e.bindings := by
  have hbefore := pairwise_before h
  rcases exists_of_ofLists h with ⟨exclusions, hraw, rfl⟩
  have hascends := ascends_of_mapM hraw
  refine hbefore.imp_of_mem fun {e other} he hother hbefore => ?_
  have hne : e ≠ other := by
    rintro rfl
    exact hbefore.asymm _ _ hbefore
  exact ⟨fun hsub => hne (eq_of_subset hascends he hother hsub),
    fun hsub => hne (eq_of_subset hascends hother he hsub).symm⟩

/-- The violation that is reported is the least member that the row contains. -/
theorem violation?_eq_some_iff (h : ofLists space raw = .ok set) {row : Row} {e : Exclusion} :
    set.violation? row = some e ↔ e ∈ set.members ∧ e.matchesRow row = true ∧
      ∀ other ∈ set.members, other.matchesRow row = true → other = e ∨ e.Less other :=
  find?_eq_some_iff_least Less.asymm ((pairwise_before h).imp Before.less)

/-- A set is built again from its members, in any order and with their bindings
    in any order. -/
theorem ofLists_eq_ok_of_members (h : ofLists space raw = .ok set) {lists : List (List Binding)}
    (hkept : ∀ list ∈ lists, ∃ e ∈ set.members, list.Perm e.bindings)
    (hall : ∀ e ∈ set.members, ∃ list ∈ lists, list.Perm e.bindings) :
    ofLists space lists = .ok set := by
  -- Each of the lists says what some combination given says.
  have hgiven : ∀ list ∈ lists, ∃ given ∈ raw, list.Perm given ∧
      ∃ e, Exclusion.ofBindings space given = .ok e := by
    intro list hlist
    rcases hkept list hlist with ⟨e, he, hperm⟩
    rcases exists_of_mem_members h he with ⟨given, hraw, hok⟩
    rw [(Exclusion.ofBindings_eq_ok hok).1] at hperm
    exact ⟨given, hraw, hperm.trans (List.mergeSort_perm given isLE), e, hok⟩
  have haccepted : ∀ list ∈ lists, ∃ e, Exclusion.ofBindings space list = .ok e := by
    intro list hlist
    rcases hgiven list hlist with ⟨given, _, hperm, e, hok⟩
    exact ⟨e, (ofBindings_perm space hperm).trans hok⟩
  rcases exists_mapM_eq_ok haccepted with ⟨exclusions, hmap⟩
  have hset : ofLists space lists = .ok (ofMembers space.width (normalize exclusions)) :=
    bind_eq_ok_iff.2 ⟨exclusions, hmap, rfl⟩
  rw [hset, ofLists_congr hset h]
  · intro list hlist
    rcases hgiven list hlist with ⟨given, hraw, hperm, _⟩
    exact ⟨given, hraw, hperm.symm.subset⟩
  · intro given hraw
    rcases (covers_ofLists h).2 given hraw with ⟨k, hk, hsub⟩
    rcases List.mem_map.1 hk with ⟨e, he, rfl⟩
    rcases hall e he with ⟨list, hlist, hperm⟩
    exact ⟨list, hlist, fun b hb => hsub (hperm.subset hb)⟩

/-- A normal form loses nothing. The members of a set that was built from
    combinations are pairwise incomparable and come strictly by size and then by
    bindings, and each of them is one of the combinations given, sorted. A row,
    a partial row or an obligation is blocked exactly if it makes all bindings
    of one of the combinations given, which for an obligation that binds no
    position twice is to have them among its own. The violation that a row is
    reported for is the least of the members it contains. And the set is built
    again, with its index, from any lists that say its members in any order. -/
theorem ofLists_loses_nothing (h : ofLists space raw = .ok set) :
    (set.members.Pairwise fun e other =>
      ¬ e.bindings ⊆ other.bindings ∧ ¬ other.bindings ⊆ e.bindings) ∧
    set.members.Pairwise Exclusion.Less ∧
    (∀ e ∈ set.members, ∃ list ∈ raw, e.bindings = sortBindings list) ∧
    (∀ row : Row, (set.violation? row).isSome = true ↔
      ∃ list ∈ raw, ∀ b ∈ list, row[b.position]? = some b.value) ∧
    (∀ work : Partial, set.blocksPartial work = true ↔
      ∃ list ∈ raw, ∀ b ∈ list, work.at? b.position = some b.value) ∧
    (∀ o : Obligation,
      (set.blocksObligation o = true ↔
        ∃ list ∈ raw, ∀ b ∈ list, o.valueAt? b.position = some b.value) ∧
      ((o.bindings.map (·.position)).Nodup →
        (set.blocksObligation o = true ↔ ∃ list ∈ raw, list ⊆ o.bindings))) ∧
    (∀ (row : Row) (e : Exclusion), set.violation? row = some e ↔
      e ∈ set.members ∧ e.matchesRow row = true ∧
        ∀ other ∈ set.members, other.matchesRow row = true → other = e ∨ e.Less other) ∧
    ∀ lists : List (List Binding),
      (∀ list ∈ lists, ∃ e ∈ set.members, list.Perm e.bindings) →
      (∀ e ∈ set.members, ∃ list ∈ lists, list.Perm e.bindings) →
        ofLists space lists = .ok set := by
  have hlists {P : Binding → Prop} :
      (∃ e ∈ set.members, ∀ b ∈ e.bindings, P b) ↔ ∃ list ∈ raw, ∀ b ∈ list, P b := by
    rw [← exists_lists_iff h]
    simp only [lists, List.mem_map, exists_exists_and_eq_and]
  have hpartial (work : Partial) : set.blocksPartial work = true ↔
      ∃ list ∈ raw, ∀ b ∈ list, work.at? b.position = some b.value := by
    simp only [blocksPartial_iff, matchesPartial, Partial.agrees_iff, hlists]
  refine ⟨incomparable_members h, (pairwise_before h).imp Before.less, fun e he => ?_,
    fun row => ?_, hpartial, fun o => ⟨?_, fun hdistinct => ?_⟩,
    fun row e => violation?_eq_some_iff h, fun _ => ofLists_eq_ok_of_members h⟩
  · rcases exists_of_mem_members h he with ⟨list, hlist, hok⟩
    exact ⟨list, hlist, (Exclusion.ofBindings_eq_ok hok).1⟩
  · rw [isSome_violation?, hpartial]
    simp only [Partial.at?_map_some]
  · simp only [blocksObligation, List.any_eq_true, matchesObligation, List.all_eq_true,
      beq_iff_eq, hlists]
  · rw [Obligation.blocksObligation_iff hdistinct, Obligation.blocked_ofLists_iff h]
    rfl

/-- Of four combinations two are kept: one says the same as another, and one
    contains a shorter one. A row with both members is reported for the shorter,
    and the set is built again from its members the other way round. -/
theorem ofLists_loses_nothing_respelled :
    let set := ofMembers 3 [⟨[⟨1, 0⟩]⟩, ⟨[⟨0, 0⟩, ⟨2, 1⟩]⟩]
    ofLists (.uniform 2 1)
      [[⟨2, 1⟩, ⟨0, 0⟩], [⟨0, 0⟩, ⟨1, 0⟩], [⟨0, 0⟩, ⟨2, 1⟩], [⟨1, 0⟩]] = .ok set ∧
    set.violation? [0, 0, 1] = some ⟨[⟨1, 0⟩]⟩ ∧
    (set.blocksObligation ⟨[0, 1], [1, 0]⟩ = true ↔
      ∃ list ∈ [[⟨2, 1⟩, ⟨0, 0⟩], [⟨0, 0⟩, ⟨1, 0⟩], [⟨0, 0⟩, ⟨2, 1⟩], [⟨1, 0⟩]],
        list ⊆ Obligation.bindings ⟨[0, 1], [1, 0]⟩) ∧
    ofLists (.uniform 2 1) [[⟨2, 1⟩, ⟨0, 0⟩], [⟨1, 0⟩]] = .ok set := by
  have hset : ofLists (.uniform 2 1)
      [[⟨2, 1⟩, ⟨0, 0⟩], [⟨0, 0⟩, ⟨1, 0⟩], [⟨0, 0⟩, ⟨2, 1⟩], [⟨1, 0⟩]] =
        .ok (ofMembers 3 [⟨[⟨1, 0⟩]⟩, ⟨[⟨0, 0⟩, ⟨2, 1⟩]⟩]) := by
    cbv
  rcases ofLists_loses_nothing hset with ⟨_, _, _, _, _, hobligation, hviolation, hagain⟩
  refine ⟨hset, (hviolation [0, 0, 1] ⟨[⟨1, 0⟩]⟩).2 ?_, (hobligation ⟨[0, 1], [1, 0]⟩).2 ?_,
    hagain _ ?_ ?_⟩
  all_goals decide

end ExclusionSet

end Covering
