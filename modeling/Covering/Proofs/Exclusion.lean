import Covering.Exclusion
import Covering.Proofs.Assignment
import Covering.Proofs.Checks

/-!
# What a set of exclusions forbids

A request names combinations to avoid, and a set of exclusions keeps a normal
form of them with an index by position. Both forbid the same rows and the same
obligations, and the index finds after a change at one position whatever a scan
of all members would find.

The meaning is stated over plain lists of combinations, `Row.Avoids`, so that
it can be read without knowing of normal forms. `covers_ofLists` is all that
has to be known of the normal form: each combination given contains one that
was kept, and each one kept is one that was given.

The index is trusted only as far as `Indexed` says. Nothing in that property
mentions a space, so what follows from it holds of a set that is used on
another space than the one it was built for.

## Main definitions

* `Row.Avoids`: A row contains none of the given combinations.
* `ExclusionSet.lists`: The combinations a set excludes.
* `ExclusionSet.Indexed`: The index lists the members that bind a position.

## Theorems

* `avoids_iff`: A row without violation is one that avoids the members.
* `blocksAt_eq_blocksPartial`, `rowBlockedAt_eq_isSome_violation?`: Where the
  index finds what a scan finds.
* `covers_ofLists`: The normal form keeps what was given, up to containment.
* `avoids_ofLists_iff`: The normal form forbids the same rows.
* `indexed_ofLists`: A set that was built from combinations is indexed.
* `blocksPartial_bind`: After one binding, the index sees every new match.
* `avoids_set`: The same after one value of a row was replaced.
-/

namespace Covering

/-- The row contains none of the combinations. -/
def Row.Avoids (row : Row) (lists : List (List Binding)) : Prop :=
  ∀ list ∈ lists, row.agrees list = false

instance (row : Row) (lists : List (List Binding)) : Decidable (row.Avoids lists) :=
  inferInstanceAs (Decidable (∀ list ∈ lists, row.agrees list = false))

theorem Exclusion.binds_iff {e : Exclusion} {p : Nat} :
    e.binds p = true ↔ ∃ b ∈ e.bindings, b.position = p := by
  simp only [Exclusion.binds, List.any_eq_true, beq_iff_eq]

theorem Exclusion.subsumes_subset {e other : Exclusion} (h : e.subsumes other = true) :
    e.bindings ⊆ other.bindings := by
  simp only [Exclusion.subsumes, Bool.and_eq_true, List.all_eq_true,
    List.contains_eq_mem, decide_eq_true_eq] at h
  exact h.2

theorem Exclusion.ne_position {e : Exclusion} {p : Nat} (hbinds : e.binds p = false)
    {b : Binding} (hb : b ∈ e.bindings) : p ≠ b.position :=
  fun hp => Bool.eq_false_iff.1 hbinds (Exclusion.binds_iff.2 ⟨b, hb, hp.symm⟩)

/-- Whether a partial row matches an exclusion does not hang on a position that
    the exclusion leaves alone. -/
theorem Exclusion.matchesPartial_set {e : Exclusion} {p : Nat} (hbinds : e.binds p = false)
    (work : Partial) (entry : Option Nat) :
    e.matchesPartial (work.set p entry) = e.matchesPartial work := by
  rw [Bool.eq_iff_iff, Exclusion.matchesPartial, Exclusion.matchesPartial, Partial.agrees_iff,
    Partial.agrees_iff]
  refine forall₂_congr fun b hb => ?_
  rw [Partial.at?, Partial.at?, List.getElem?_set_ne (Exclusion.ne_position hbinds hb)]

/-- A row is read as a partial row without free positions. -/
theorem Exclusion.matchesRow_eq (e : Exclusion) (row : Row) :
    e.matchesRow row = e.matchesPartial (row.map some) :=
  (Partial.agrees_map_some row e.bindings).symm

namespace ExclusionSet

/-- The combinations that a set excludes. -/
def lists (set : ExclusionSet) : List (List Binding) := set.members.map (·.bindings)

/-- The index lists, for each position, exactly the members that bind it. -/
def Indexed (set : ExclusionSet) : Prop :=
  ∀ p e, e ∈ set.touching p ↔ e ∈ set.members ∧ e.binds p = true

theorem avoids_iff_members {set : ExclusionSet} {row : Row} :
    row.Avoids set.lists ↔ ∀ e ∈ set.members, e.matchesRow row = false := by
  simp only [Row.Avoids, lists, List.forall_mem_map, Exclusion.matchesRow]

/-- A row without violation is one that avoids the members. -/
theorem avoids_iff {set : ExclusionSet} {row : Row} :
    row.Avoids set.lists ↔ set.violation? row = none := by
  rw [avoids_iff_members, violation?, List.find?_eq_none]
  simp only [Bool.not_eq_true]

theorem blocksPartial_iff {set : ExclusionSet} {work : Partial} :
    set.blocksPartial work = true ↔ ∃ e ∈ set.members, e.matchesPartial work = true := by
  rw [blocksPartial, List.any_eq_true]

theorem blocksPartial_eq_false_iff {set : ExclusionSet} {work : Partial} :
    set.blocksPartial work = false ↔ ∀ e ∈ set.members, e.matchesPartial work = false := by
  simp only [blocksPartial, List.any_eq_false, Bool.not_eq_true]

theorem isSome_violation? (set : ExclusionSet) (row : Row) :
    (set.violation? row).isSome = set.blocksPartial (row.map some) := by
  rw [Bool.eq_iff_iff, violation?, List.find?_isSome, blocksPartial_iff]
  simp only [Exclusion.matchesRow_eq]

theorem avoids_iff_blocksPartial {set : ExclusionSet} {row : Row} :
    row.Avoids set.lists ↔ set.blocksPartial (row.map some) = false := by
  rw [avoids_iff_members, blocksPartial_eq_false_iff]
  simp only [Exclusion.matchesRow_eq]

/-- What extends to a row without exclusion contains none itself. -/
theorem blocksPartial_of_extendedBy {set : ExclusionSet} {work : Partial} {row : Row}
    (hext : work.ExtendedBy row) (h : row.Avoids set.lists) : set.blocksPartial work = false := by
  refine blocksPartial_eq_false_iff.2 fun e he => Bool.eq_false_iff.2 fun hmatch => ?_
  exact Bool.eq_false_iff.1 (avoids_iff_members.1 h e he)
    (Partial.agrees_of_extendedBy hext hmatch)

/-! ### The index -/

section Index

variable {set : ExclusionSet} {work : Partial} {row : Row} {p v : Nat}

/-- What the index finds is a member that binds the position. -/
theorem blocksAt_iff (hset : set.Indexed) :
    set.blocksAt work p = true ↔
      ∃ e ∈ set.members, e.binds p = true ∧ e.matchesPartial work = true := by
  simp only [blocksAt, List.any_eq_true, hset p, and_assoc]

theorem rowBlockedAt_eq (set : ExclusionSet) (row : Row) (p : Nat) :
    set.rowBlockedAt row p = set.blocksAt (row.map some) p := by
  simp only [rowBlockedAt, blocksAt, Exclusion.matchesRow_eq]

/-- The index finds only members. -/
theorem blocksAt_of_blocksPartial (hset : set.Indexed) (h : set.blocksPartial work = false) :
    set.blocksAt work p = false := by
  refine Bool.eq_false_iff.2 fun hat => Bool.eq_false_iff.1 h ?_
  rcases (blocksAt_iff hset).1 hat with ⟨e, he, _, hmatch⟩
  exact blocksPartial_iff.2 ⟨e, he, hmatch⟩

theorem rowBlockedAt_of_avoids (hset : set.Indexed) (h : row.Avoids set.lists) :
    set.rowBlockedAt row p = false := by
  rw [rowBlockedAt_eq]
  exact blocksAt_of_blocksPartial hset (avoids_iff_blocksPartial.1 h)

/-- Where no member matches that leaves the position alone, the index at the
    position finds what a scan of all members finds. -/
theorem blocksAt_eq_blocksPartial (hset : set.Indexed)
    (h : ∀ e ∈ set.members, e.binds p = false → e.matchesPartial work = false) :
    set.blocksAt work p = set.blocksPartial work := by
  rw [Bool.eq_iff_iff, blocksAt_iff hset, blocksPartial_iff]
  refine exists_congr fun e => and_congr_right fun he => and_iff_right_of_imp fun hmatch => ?_
  rw [← Bool.not_eq_false]
  exact fun hbinds => Bool.eq_false_iff.1 (h e he hbinds) hmatch

/-- The same for full rows. -/
theorem rowBlockedAt_eq_isSome_violation? (hset : set.Indexed)
    (h : ∀ e ∈ set.members, e.binds p = false → e.matchesRow row = false) :
    set.rowBlockedAt row p = (set.violation? row).isSome := by
  rw [rowBlockedAt_eq, isSome_violation?]
  refine blocksAt_eq_blocksPartial hset fun e he hbinds => ?_
  rw [← Exclusion.matchesRow_eq, h e he hbinds]

/-- After one binding, the index sees every new match. -/
theorem blocksPartial_bind (hset : set.Indexed) (hwork : set.blocksPartial work = false)
    (hat : set.blocksAt (work.bind ⟨p, v⟩) p = false) :
    set.blocksPartial (work.bind ⟨p, v⟩) = false := by
  rw [← blocksAt_eq_blocksPartial hset fun e he hbinds => ?_, hat]
  -- Members that leave the position alone see no change.
  exact (Exclusion.matchesPartial_set hbinds work (some v)).trans
    (blocksPartial_eq_false_iff.1 hwork e he)

/-- After one value was replaced, the index sees every new match. -/
theorem avoids_set (hset : set.Indexed) (hrow : row.Avoids set.lists)
    (hat : set.rowBlockedAt (row.set p v) p = false) : Row.Avoids (row.set p v) set.lists := by
  rw [rowBlockedAt_eq, List.map_set] at hat
  rw [avoids_iff_blocksPartial, List.map_set]
  exact blocksPartial_bind hset (avoids_iff_blocksPartial.1 hrow) hat

end Index

/-! ### Normal forms -/

theorem mem_keepMinimal_of_mem_kept {kept exclusions : List Exclusion} {e : Exclusion}
    (h : e ∈ kept) : e ∈ keepMinimal kept exclusions := by
  induction exclusions generalizing kept with
  | nil => exact h
  | cons a rest ih =>
      rw [keepMinimal]
      split
      · exact ih h
      · exact ih (List.mem_append_left _ h)

/-- Whatever is not kept contains something that is. -/
theorem exists_mem_keepMinimal {kept exclusions : List Exclusion} {e : Exclusion}
    (h : e ∈ exclusions) : ∃ k ∈ keepMinimal kept exclusions, k.bindings ⊆ e.bindings := by
  induction exclusions generalizing kept with
  | nil => exact absurd h List.not_mem_nil
  | cons a rest ih =>
      rw [keepMinimal]
      -- It contains one that was kept before, or is kept itself.
      rcases List.mem_cons.1 h with rfl | hrest
      · split
        · rename_i hany
          rcases List.any_eq_true.1 hany with ⟨k, hk, hsub⟩
          exact ⟨k, mem_keepMinimal_of_mem_kept hk, Exclusion.subsumes_subset hsub⟩
        · exact ⟨e, mem_keepMinimal_of_mem_kept (List.mem_append_right _ List.mem_cons_self),
            fun _ hb => hb⟩
      · split <;> exact ih hrest

theorem exists_mem_normalize {exclusions : List Exclusion} {e : Exclusion}
    (h : e ∈ exclusions) : ∃ k ∈ normalize exclusions, k.bindings ⊆ e.bindings :=
  exists_mem_keepMinimal (List.mem_mergeSort.2 h)

end ExclusionSet

/-- An accepted exclusion is the given combination in order, and binds
    positions of the space. -/
theorem Exclusion.ofBindings_eq_ok {space : Space} {list : List Binding} {e : Exclusion}
    (h : Exclusion.ofBindings space list = .ok e) :
    e.bindings = sortBindings list ∧ ∀ b ∈ list, b.position < space.width := by
  rw [Exclusion.ofBindings] at h
  split at h
  · exact absurd h (by simp only [reduceCtorEq, not_false_eq_true])
  · simp only at h
    split at h
    · exact absurd h (by simp only [reduceCtorEq, not_false_eq_true])
    · split at h
      · exact absurd h (by simp only [reduceCtorEq, not_false_eq_true])
      · rename_i hfault
        have he := Except.ok.inj h
        refine ⟨by rw [← he], fun b hb => ?_⟩
        have hb' := List.findSome?_eq_none_iff.1 hfault b (mem_sortBindings.2 hb)
        rw [bindingFault?] at hb'
        split at hb'
        · exact absurd hb' (by simp only [reduceCtorEq, not_false_eq_true])
        · rename_i hlt
          exact Nat.lt_of_not_le hlt

namespace ExclusionSet

section Built

variable {space : Space} {raw : List (List Binding)} {set : ExclusionSet}

/-- What a set built from combinations consists of. -/
theorem exists_of_ofLists (h : ofLists space raw = .ok set) :
    ∃ exclusions, raw.mapM (Exclusion.ofBindings space) = .ok exclusions ∧
      set = ofMembers space.width (normalize exclusions) := by
  rw [ofLists] at h
  rcases bind_eq_ok_iff.1 h with ⟨exclusions, hm, h⟩
  exact ⟨exclusions, hm, (pure_eq_ok_iff.1 h).symm⟩

/-- A member of a set was given as a combination that is accepted. -/
theorem exists_of_mem_members (h : ofLists space raw = .ok set) {e : Exclusion}
    (he : e ∈ set.members) : ∃ list ∈ raw, Exclusion.ofBindings space list = .ok e := by
  rcases exists_of_ofLists h with ⟨exclusions, hraw, rfl⟩
  exact (mem_of_mapM_ok hraw).1 e (mem_of_mem_normalize he)

/-- The normal form keeps what was given, up to containment. -/
theorem covers_ofLists (h : ofLists space raw = .ok set) :
    (∀ k ∈ set.lists, ∃ list ∈ raw, ∀ b, b ∈ k ↔ b ∈ list) ∧
      ∀ list ∈ raw, ∃ k ∈ set.lists, k ⊆ list := by
  constructor
  · intro k hk
    rcases List.mem_map.1 hk with ⟨e, he, rfl⟩
    rcases exists_of_mem_members h he with ⟨list, hlist, hok⟩
    refine ⟨list, hlist, fun b => ?_⟩
    rw [(Exclusion.ofBindings_eq_ok hok).1, mem_sortBindings]
  · intro list hlist
    rcases exists_of_ofLists h with ⟨exclusions, hraw, rfl⟩
    rcases (mem_of_mapM_ok hraw).2 list hlist with ⟨e, he, hok⟩
    rcases exists_mem_normalize he with ⟨k, hk, hsub⟩
    refine ⟨k.bindings, List.mem_map.2 ⟨k, hk, rfl⟩, fun b hb => ?_⟩
    have hb' := hsub hb
    rwa [(Exclusion.ofBindings_eq_ok hok).1, mem_sortBindings] at hb'

/-- Whatever has all bindings of a combination given has all bindings of one
    that was kept, and the other way round. -/
theorem exists_lists_iff (h : ofLists space raw = .ok set) {P : Binding → Prop} :
    (∃ k ∈ set.lists, ∀ b ∈ k, P b) ↔ ∃ list ∈ raw, ∀ b ∈ list, P b := by
  rcases covers_ofLists h with ⟨hkept, hgiven⟩
  constructor
  · rintro ⟨k, hk, hall⟩
    rcases hkept k hk with ⟨list, hlist, hmem⟩
    exact ⟨list, hlist, fun b hb => hall b ((hmem b).2 hb)⟩
  · rintro ⟨list, hlist, hall⟩
    rcases hgiven list hlist with ⟨k, hk, hsub⟩
    exact ⟨k, hk, fun b hb => hall b (hsub hb)⟩

/-- The normal form forbids the same rows. -/
theorem avoids_ofLists_iff (h : ofLists space raw = .ok set) {row : Row} :
    row.Avoids set.lists ↔ row.Avoids raw := by
  have hlists (lists : List (List Binding)) : row.Avoids lists ↔
      ¬ ∃ list ∈ lists, ∀ b ∈ list, row[b.position]? = some b.value := by
    simp only [Row.Avoids, ← Row.agrees_iff, not_exists, not_and, Bool.not_eq_true]
  rw [hlists, hlists, exists_lists_iff h]

theorem mem_touching_ofMembers {width p : Nat} {members : List Exclusion} {e : Exclusion}
    (hlt : ∀ e ∈ members, ∀ b ∈ e.bindings, b.position < width) :
    e ∈ (ofMembers width members).touching p ↔ e ∈ members ∧ e.binds p = true := by
  rw [touching, ofMembers, index, List.getD_eq_getElem?_getD, List.getElem?_map]
  by_cases hp : p < width
  · rw [List.getElem?_range hp, Option.map_some, Option.getD_some, List.mem_filter]
  · rw [List.getElem?_eq_none (by rw [List.length_range]; exact Nat.le_of_not_lt hp),
      Option.map_none, Option.getD_none]
    -- Nothing is indexed beyond the width, and no member binds a position there.
    refine ⟨fun h => absurd h List.not_mem_nil, fun h => ?_⟩
    rcases Exclusion.binds_iff.1 h.2 with ⟨b, hb, rfl⟩
    exact absurd (hlt e h.1 b hb) hp

/-- A set that was built from combinations is indexed. -/
theorem indexed_ofLists (h : ofLists space raw = .ok set) : set.Indexed := by
  have hlt : ∀ e ∈ set.members, ∀ b ∈ e.bindings, b.position < space.width := by
    intro e he b hb
    rcases exists_of_mem_members h he with ⟨list, _, hok⟩
    rcases Exclusion.ofBindings_eq_ok hok with ⟨hsort, hlt⟩
    rw [hsort, mem_sortBindings] at hb
    exact hlt b hb
  rcases exists_of_ofLists h with ⟨exclusions, _, rfl⟩
  exact fun p e => mem_touching_ofMembers hlt

/-- Excluding no combination gives the set that excludes nothing. -/
theorem ofLists_nil (space : Space) : ofLists space [] = .ok (.empty space) := by
  rw [ofLists, List.mapM_nil, empty]
  simp only [pure, Except.pure, bind, Except.bind, normalize, List.mergeSort_nil, keepMinimal]

end Built

end ExclusionSet

end Covering
