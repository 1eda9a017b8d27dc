import Covering.Proofs.Obligation
import Mathlib.Data.List.Permutation

/-!
# The index sees what a scan sees

Filling a partial row, searching for a completion and climbing a hill all change
one position at a time, and all of them look at the exclusions of that position
only. A scan of all exclusions would find nothing more.

An exclusion says nothing about the positions that it leaves alone, so a change
at one position cannot make such an exclusion match. If none of them matched
before, those that match now bind the position, and the index lists exactly the
members that do. This is why one look at the position is enough, and why it is
not enough without the look at everything that came first: the state with the
position freed has to be known to contain no exclusion.

Each exclusion binds something, since an empty one is refused. So every match
is seen at some position, and a scan is the same as a look at each of them
(`blocksPartial_iff_exists_blocksAt`).

Obligations are matched by code of their own, which looks positions up in the
obligation instead of making a partial row of it. The two agree where no
position is bound twice.

## Theorems

* `bindings_ne_nil`: An accepted exclusion binds something.
* `blocksPartial_iff_exists_blocksAt`: A scan is a look at each position.
* `blocksObligation_eq_blocksPartial`: An obligation contains what its partial
  row contains.
* `index_agrees_with_scan`: Where a look at one position is as good as a scan.
-/

namespace Covering

namespace Obligation

/-- The positions that are bound are some of those that are listed. -/
theorem sublist_positions (o : Obligation) :
    (o.bindings.map (·.position)).Sublist o.positions := by
  rcases o with ⟨positions, values⟩
  rw [bindings]
  induction positions generalizing values with
  | nil =>
      rw [List.zipWith_nil_left]
      exact List.Sublist.refl _
  | cons p rest ih =>
      cases values with
      | nil =>
          rw [List.zipWith_nil_right]
          exact List.nil_sublist _
      | cons v values =>
          rw [List.zipWith_cons_cons, List.map_cons]
          exact (ih values).cons_cons p

end Obligation

namespace ExclusionSet

variable {space : Space} {raw : List (List Binding)} {set : ExclusionSet}

/-- An accepted exclusion binds something. -/
theorem bindings_ne_nil (h : ofLists space raw = .ok set) {e : Exclusion}
    (he : e ∈ set.members) : e.bindings ≠ [] := by
  rcases exists_of_mem_members h he with ⟨list, _, hok⟩
  rw [(Exclusion.ofBindings_eq_ok hok).1]
  intro hnil
  have hperm : (sortBindings list).Perm list := List.mergeSort_perm list isLE
  rw [hnil] at hperm
  have hempty : list = [] := hperm.symm.eq_nil
  -- A combination without bindings is refused.
  rw [hempty, Exclusion.ofBindings] at hok
  exact absurd hok (by simp only [List.isEmpty_nil, if_true, reduceCtorEq, not_false_eq_true])

/-- A scan of all members is a look at each position. -/
theorem blocksPartial_iff_exists_blocksAt (h : ofLists space raw = .ok set) {work : Partial} :
    set.blocksPartial work = true ↔ ∃ p, set.blocksAt work p = true := by
  simp only [blocksPartial_iff, blocksAt_iff (indexed_ofLists h)]
  constructor
  · rintro ⟨e, he, hmatch⟩
    rcases List.exists_mem_of_ne_nil _ (bindings_ne_nil h he) with ⟨b, hb⟩
    exact ⟨b.position, e, he, Exclusion.binds_iff.2 ⟨b, hb, rfl⟩, hmatch⟩
  · rintro ⟨_, e, he, _, hmatch⟩
    exact ⟨e, he, hmatch⟩

/-- An obligation contains the members that its partial row contains. -/
theorem blocksObligation_eq_blocksPartial (set : ExclusionSet) {o : Obligation} {width : Nat}
    (hdistinct : (o.bindings.map (·.position)).Nodup)
    (hlt : ∀ b ∈ o.bindings, b.position < width) :
    set.blocksObligation o = set.blocksPartial (o.toPartial width) := by
  rw [Bool.eq_iff_iff, blocksPartial_iff, blocksObligation, List.any_eq_true]
  refine exists_congr fun e => and_congr_right fun _ => ?_
  rw [Exclusion.matchesPartial, Partial.agrees_iff, Exclusion.matchesObligation,
    List.all_eq_true]
  refine forall₂_congr fun b _ => ?_
  rw [beq_iff_eq, Obligation.valueAt?_eq_some_iff hdistinct,
    Obligation.at?_toPartial hdistinct hlt]

/-- A look at one position is as good as a scan. For partial rows this is so
    where the partial row contains no member once the position is freed, and for
    full rows where none of the members that leave the position alone is in the
    row. A partial row contains a member exactly if the index finds one at some
    position. And an obligation whose positions ascend contains a member exactly
    if the partial row that it makes does. -/
theorem index_agrees_with_scan (h : ofLists space raw = .ok set) :
    (∀ (work : Partial) (p : Nat), set.blocksPartial (work.set p none) = false →
      set.blocksAt work p = set.blocksPartial work) ∧
    (∀ (row : Row) (p : Nat),
      (∀ e ∈ set.members, e.binds p = false → e.matchesRow row = false) →
        set.rowBlockedAt row p = (set.violation? row).isSome) ∧
    (∀ work : Partial, set.blocksPartial work = true ↔ ∃ p, set.blocksAt work p = true) ∧
    ∀ (o : Obligation) (width : Nat), o.positions.Pairwise (· < ·) →
      (∀ p ∈ o.positions, p < width) →
        set.blocksObligation o = set.blocksPartial (o.toPartial width) := by
  have hindexed := indexed_ofLists h
  refine ⟨fun work p hfreed => blocksAt_eq_blocksPartial hindexed fun e he hbinds => ?_,
    fun row p => rowBlockedAt_eq_isSome_violation? hindexed,
    fun work => blocksPartial_iff_exists_blocksAt h, fun o width hascending hlt => ?_⟩
  · -- Freeing the position makes no difference to this member.
    rw [← Exclusion.matchesPartial_set hbinds work none]
    exact blocksPartial_eq_false_iff.1 hfreed e he
  · refine blocksObligation_eq_blocksPartial set ?_ fun b hb => ?_
    · exact (hascending.imp Nat.ne_of_lt).sublist o.sublist_positions
    · exact hlt _ (o.sublist_positions.subset (List.mem_map_of_mem hb))

/-- The second position shows the member that the partial row has got there, and
    the third shows that of the full row. -/
theorem index_agrees_with_scan_corner :
    let set := ofMembers 3 [⟨[⟨0, 0⟩, ⟨1, 0⟩]⟩, ⟨[⟨1, 1⟩, ⟨2, 0⟩]⟩]
    ofLists (.uniform 2 1) [[⟨1, 1⟩, ⟨2, 0⟩], [⟨1, 0⟩, ⟨0, 0⟩]] = .ok set ∧
    set.blocksAt [some 0, some 0, none] 1 = set.blocksPartial [some 0, some 0, none] ∧
    set.rowBlockedAt [1, 1, 0] 2 = (set.violation? [1, 1, 0]).isSome ∧
    (∃ p, set.blocksAt [some 0, some 0, none] p = true) ∧
    set.blocksObligation ⟨[0, 1], [0, 0]⟩ =
      set.blocksPartial (Obligation.toPartial ⟨[0, 1], [0, 0]⟩ 2) := by
  have hset : ofLists (.uniform 2 1) [[⟨1, 1⟩, ⟨2, 0⟩], [⟨1, 0⟩, ⟨0, 0⟩]] =
      .ok (ofMembers 3 [⟨[⟨0, 0⟩, ⟨1, 0⟩]⟩, ⟨[⟨1, 1⟩, ⟨2, 0⟩]⟩]) := by
    cbv
  rcases index_agrees_with_scan hset with ⟨hpartial, hrow, hsome, hobligation⟩
  exact ⟨hset, hpartial _ 1 (by decide), hrow _ 2 (by decide), (hsome _).1 (by decide),
    hobligation _ 2 (by decide) (by decide)⟩

end ExclusionSet

end Covering
