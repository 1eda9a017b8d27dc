import Covering.Completion
import Covering.Proofs.Obligation
import Mathlib.Data.List.Permutation

/-!
# Completing partial rows, correctly

The search for a completion finds a row exactly where there is one.

Both directions are about rows in general, `Space.Completes`: a row to be found
has values of the space where the partial row is free, and what is bound there
may be anything. What the search finds is what it started from with the free
positions bound (`fill_filled`). Its only check is through the index, after each
binding, and that is enough because a first look at all exclusions has found
none before anything was bound.

In the other direction, a row to be found guides the search: binding the value
it has at a position leaves a partial row that it still extends, so a search
that tries all values cannot come out empty (`fill_isSome`).

For partial rows of the space, whose bound values are its own, the rows to be
found are those that the space allows. Such partial rows are also filled at
random, when candidates are drawn, and `GrownFrom` names the states on the way:
partial rows that grew out of a fixed one, a free position at a time, without
completing an exclusion. One binding leads from one of them to the next
(`GrownFrom.bind`), checked through the index alone, and the last of them is a
row with everything that is asked of it (`GrownFrom.allows`).

## Main definitions

* `Space.Completes`: A row that a partial row can become.
* `Space.Allows`: A row of the space without excluded combination.
* `Space.Completable`: A partial row that some allowed row extends.
* `Space.FilledAt`: A partial row with some more positions bound.
* `ExclusionSet.GrownFrom`: The states of filling a partial row.

## Theorems

* `exists_of_firstBelow?`: What a search finds is its first success.
* `fill_filled`: What the search ends with.
* `fill_isSome`: The search succeeds where some row can be found.
* `complete?_completes`, `complete?_isSome_of_completes`: There is a completion
  where there is a row to be found, and it is one.
* `complete?_sound`, `complete?_isSome`: The same for partial rows of the space.
* `complete?_toPartial_isSome_iff`, `not_feasible_of_complete?_eq_none`: The search
  decides feasibility.
* `fill_least`, `complete?_least`: What is found is the least of the rows to be
  found.
* `feasible_iff`: The feasibility check decides `Space.Feasible`.
-/

namespace Covering

theorem exists_of_firstFrom? {α : Type} {f : Nat → Option α} {remaining start : Nat} {a : α}
    (h : firstFrom? f remaining start = some a) :
    ∃ k, k < start + remaining ∧ f k = some a ∧ ∀ j, start ≤ j → j < k → f j = none := by
  induction remaining generalizing start with
  | zero => exact absurd h (by simp only [firstFrom?, reduceCtorEq, not_false_eq_true])
  | succ remaining ih =>
      simp only [firstFrom?] at h
      split at h
      · rename_i b hb
        exact ⟨start, by omega, hb.trans h, fun j hle hlt => absurd hlt (Nat.not_lt.2 hle)⟩
      · rename_i hnone
        rcases ih h with ⟨k, hk, hf, hbefore⟩
        refine ⟨k, by omega, hf, fun j hle hlt => ?_⟩
        -- The number that was tried first has failed, like those after it.
        rcases Nat.eq_or_lt_of_le hle with rfl | hle
        · exact hnone
        · exact hbefore j hle hlt

/-- What a search finds is its first success, and lies below its bound. -/
theorem exists_of_firstBelow? {α : Type} {f : Nat → Option α} {n : Nat} {a : α}
    (h : firstBelow? n f = some a) : ∃ k, k < n ∧ f k = some a ∧ ∀ j, j < k → f j = none := by
  rcases exists_of_firstFrom? h with ⟨k, hk, hf, hbefore⟩
  exact ⟨k, by omega, hf, fun j hj => hbefore j (Nat.zero_le j) hj⟩

namespace Space

/-- The row is one of the space and contains none of the combinations. -/
def Allows (space : Space) (lists : List (List Binding)) (row : Row) : Prop :=
  space.admits row = true ∧ row.Avoids lists

instance (space : Space) (lists : List (List Binding)) (row : Row) :
    Decidable (space.Allows lists row) :=
  inferInstanceAs (Decidable (space.admits row = true ∧ row.Avoids lists))

/-- The row is one that the partial row can become: it keeps what is bound, has
    a value of the space wherever a position is free, and contains none of the
    combinations. -/
structure Completes (space : Space) (lists : List (List Binding)) (work : Partial) (row : Row) :
    Prop where
  keeps : work.ExtendedBy row
  fits : ∀ p ∈ work.free, row.getD p 0 < space.count p
  avoids : row.Avoids lists

/-- Some allowed row extends the partial row. -/
def Completable (space : Space) (lists : List (List Binding)) (work : Partial) : Prop :=
  ∃ row, space.Allows lists row ∧ work.ExtendedBy row

theorem admitsPartial_of_completable {space : Space} {lists : List (List Binding)}
    {work : Partial} (h : space.Completable lists work) : space.AdmitsPartial work := by
  rcases h with ⟨row, ⟨hrow, _⟩, hext⟩
  have hlen : work.length = space.width := hext.1.symm.trans (length_of_admits hrow)
  refine ⟨hlen, fun p v hv => ?_⟩
  have hp : p < space.width := by
    rw [← hlen]
    exact Partial.lt_length_of_at? hv
  have hvalue := hext.2 p v hv
  -- A bound value is the row's, and the row is one of the space.
  rw [Row.getElem?_eq_getD (by rw [hext.1, hlen]; exact hp), Option.some.injEq] at hvalue
  rw [← hvalue]
  exact getD_lt_of_admits hrow hp

/-- Where the bound values are those of the space, the rows to be found are the
    allowed ones. -/
theorem completes_iff {space : Space} {lists : List (List Binding)} {work : Partial} {row : Row}
    (hwork : space.AdmitsPartial work) :
    space.Completes lists work row ↔ space.Allows lists row ∧ work.ExtendedBy row := by
  constructor
  · intro h
    have hlen : row.length = space.width := h.keeps.1.trans hwork.1
    refine ⟨⟨admits_iff.2 ⟨hlen, fun p hp => ?_⟩, h.avoids⟩, h.keeps⟩
    cases hat : work.at? p with
    | none => exact h.fits p (Partial.mem_free_iff.2 ⟨by rw [hwork.1]; exact hp, hat⟩)
    | some v =>
        have hvalue := h.keeps.2 p v hat
        rw [List.getD_eq_getElem?_getD, hvalue, Option.getD_some]
        exact hwork.2 p v hat
  · rintro ⟨⟨hrow, havoids⟩, hext⟩
    refine ⟨hext, fun p hp => getD_lt_of_admits hrow ?_, havoids⟩
    rw [← hwork.1]
    exact (Partial.mem_free_iff.1 hp).1

/-- A partial row with the given positions bound to values of the space, and
    everywhere else what it was before. -/
structure FilledAt (space : Space) (positions : List Nat) (work result : Partial) : Prop where
  length_eq : result.length = work.length
  keeps : ∀ p, p ∉ positions → result.at? p = work.at? p
  fits : ∀ p ∈ positions, ∃ v, v < space.count p ∧ result.at? p = some v

/-- Filling all free positions makes a row, which keeps what was bound. -/
theorem FilledAt.exists_toRow? {space : Space} {work result : Partial}
    (h : space.FilledAt work.free work result) :
    ∃ row, result.toRow? = some row ∧ work.ExtendedBy row ∧
      ∀ p ∈ work.free, row.getD p 0 < space.count p := by
  have hwithin : result.FreeWithin [] := by
    intro p hp
    rw [h.length_eq] at hp
    refine .inr ?_
    by_cases hfree : p ∈ work.free
    · rcases h.fits p hfree with ⟨v, _, hv⟩
      rw [hv, Option.isSome_some]
    · rw [h.keeps p hfree]
      exact (work.freeWithin_free p hp).resolve_left hfree
  rcases hwithin.exists_toRow? with ⟨row, hrow⟩
  have hvalue (p : Nat) : result.at? p = row[p]? := by
    rw [Partial.toRow?_eq_some_iff.1 hrow, Partial.at?_map_some]
  refine ⟨row, hrow, ⟨?_, fun p v hv => ?_⟩, fun p hp => ?_⟩
  · rw [← h.length_eq, Partial.toRow?_eq_some_iff.1 hrow, List.length_map]
  · -- What is bound is not among the free positions.
    rw [← hvalue, h.keeps p fun hp => ?_, hv]
    rw [(Partial.mem_free_iff.1 hp).2] at hv
    exact absurd hv (by simp only [reduceCtorEq, not_false_eq_true])
  · rcases h.fits p hp with ⟨v, hlt, hv⟩
    rw [List.getD_eq_getElem?_getD, ← hvalue, hv, Option.getD_some]
    exact hlt

/-- The feasible obligations are those that can be completed. -/
theorem completable_toPartial_iff {space : Space} {lists : List (List Binding)}
    {o : Obligation} (ho : o.InSpace space) :
    space.Completable lists (o.toPartial space.width) ↔ space.Feasible lists o := by
  constructor
  · rintro ⟨row, ⟨hrow, havoids⟩, hext⟩
    exact ⟨row, hrow, havoids, ((Obligation.extendedBy_toPartial_iff ho).1 hext).2⟩
  · rintro ⟨row, hrow, havoids, hsat⟩
    exact ⟨row, ⟨hrow, havoids⟩,
      (Obligation.extendedBy_toPartial_iff ho).2 ⟨length_of_admits hrow, hsat⟩⟩

end Space

namespace ExclusionSet

variable {set : ExclusionSet} {space : Space} {fixed work : Partial} {row : Row}

/-- A partial row of the space that grew out of `fixed`, keeping its bindings,
    and contains no exclusion. -/
structure GrownFrom (set : ExclusionSet) (space : Space) (fixed work : Partial) : Prop where
  admits : space.AdmitsPartial work
  unblocked : set.blocksPartial work = false
  keeps : ∀ p v, fixed.at? p = some v → work.at? p = some v

theorem GrownFrom.refl (hfixed : space.AdmitsPartial fixed)
    (h : set.blocksPartial fixed = false) : set.GrownFrom space fixed fixed :=
  ⟨hfixed, h, fun _ _ hv => hv⟩

/-- Binding a free position so that the index sees no exclusion. -/
theorem GrownFrom.bind (hset : set.Indexed) (h : set.GrownFrom space fixed work) {p v : Nat}
    (hp : p < space.width) (hfree : fixed.at? p = none) (hv : v < space.count p)
    (hat : set.blocksAt (work.bind ⟨p, v⟩) p = false) :
    set.GrownFrom space fixed (work.bind ⟨p, v⟩) := by
  refine ⟨Space.admitsPartial_bind h.admits hp hv, blocksPartial_bind hset h.unblocked hat,
    fun q w hq => ?_⟩
  rw [Partial.at?_bind_of_ne, h.keeps q w hq]
  -- The position bound was free at the start, so it is not one to be kept.
  rintro rfl
  rw [hfree] at hq
  exact absurd hq (by simp only [reduceCtorEq, not_false_eq_true])

/-- A state without free positions is a row of the space that extends the start
    and contains no exclusion. -/
theorem GrownFrom.allows (h : set.GrownFrom space fixed (row.map some))
    (hfixed : fixed.length = space.width) :
    space.Allows set.lists row ∧ fixed.ExtendedBy row := by
  have hrow := Space.admits_of_admitsPartial h.admits
  refine ⟨⟨hrow, avoids_iff_blocksPartial.2 h.unblocked⟩,
    (Space.length_of_admits hrow).trans hfixed.symm, fun p v hv => ?_⟩
  rw [← Partial.at?_map_some]
  exact h.keeps p v hv

/-- The search binds the positions it was given and nothing else, and completes
    no exclusion. -/
theorem fill_filled (hset : set.Indexed) {free : List Nat} {result : Partial}
    (hlt : ∀ p ∈ free, p < work.length) (hnodup : free.Nodup)
    (hwork : set.blocksPartial work = false) (h : set.fill space free work = some result) :
    space.FilledAt free work result ∧ set.blocksPartial result = false := by
  induction free generalizing work with
  | nil =>
      rw [fill, Option.some.injEq] at h
      rw [← h]
      exact ⟨⟨rfl, fun _ _ => rfl, fun p hp => absurd hp List.not_mem_nil⟩, hwork⟩
  | cons p rest ih =>
      rcases List.forall_mem_cons.1 hlt with ⟨hp, hrest⟩
      rcases List.nodup_cons.1 hnodup with ⟨hnew, hnodup⟩
      rcases exists_of_firstBelow? h with ⟨v, hv, hf, -⟩
      simp only at hf
      split at hf
      · exact absurd hf (by simp only [reduceCtorEq, not_false_eq_true])
      · rename_i hat
        -- Some value leads on from here, and it completes no exclusion.
        rw [Bool.not_eq_true] at hat
        have hlt' : ∀ q ∈ rest, q < (work.bind ⟨p, v⟩).length := by
          intro q hq
          rw [Partial.length_bind]
          exact hrest q hq
        rcases ih hlt' hnodup (blocksPartial_bind hset hwork hat) hf with ⟨hfilled, hblocks⟩
        refine ⟨⟨?_, fun q hq => ?_, ?_⟩, hblocks⟩
        · rw [hfilled.length_eq, Partial.length_bind]
        · rw [List.mem_cons, not_or] at hq
          rw [hfilled.keeps q hq.2, Partial.at?_bind_of_ne (Ne.symm hq.1)]
        · rw [List.forall_mem_cons]
          refine ⟨⟨v, hv, ?_⟩, hfilled.fits⟩
          rw [hfilled.keeps p hnew, Partial.at?_bind_self hp]

/-- The search succeeds where some row can be found: trying the values of that
    row at each position leads to it. -/
theorem fill_isSome (hset : set.Indexed) (havoids : row.Avoids set.lists) {free : List Nat}
    (hfree : ∀ p ∈ free, p < work.length ∧ row.getD p 0 < space.count p)
    (hext : work.ExtendedBy row) : (set.fill space free work).isSome = true := by
  induction free generalizing work with
  | nil => rw [fill, Option.isSome_some]
  | cons p rest ih =>
      rcases List.forall_mem_cons.1 hfree with ⟨⟨hp, hvalue⟩, hrest⟩
      have hext' := Partial.extendedBy_bind hext hp
      -- The value that the row has here is tried, and it completes no exclusion.
      have hat : set.blocksAt (work.bind ⟨p, row.getD p 0⟩) p = false :=
        blocksAt_of_blocksPartial hset (blocksPartial_of_extendedBy hext' havoids)
      have hrest' : ∀ q ∈ rest, q < (work.bind ⟨p, row.getD p 0⟩).length ∧
          row.getD q 0 < space.count q := by
        intro q hq
        rw [Partial.length_bind]
        exact hrest q hq
      have hsome := ih hrest' hext'
      unfold fill
      rw [Option.isSome_iff_ne_none]
      intro hnone
      have hnothing := firstBelow?_eq_none_iff.1 hnone _ hvalue
      simp only [hat, Bool.false_eq_true, if_false] at hnothing
      rw [hnothing, Option.isSome_none] at hsome
      exact absurd hsome (by decide)

/-- A completion comes from a search that has filled all free positions. -/
theorem complete?_eq_some_iff :
    set.complete? space work = some row ↔ work.length = space.width ∧
      set.blocksPartial work = false ∧ set.fill space work.free work = some (row.map some) := by
  rw [complete?]
  split
  · rename_i hguard
    simp only [Bool.or_eq_true, decide_eq_true_eq] at hguard
    simp only [reduceCtorEq, false_iff, not_and]
    intro hlen hblocks
    rcases hguard with hne | hblocked
    · exact absurd hlen hne
    · exact absurd hblocks (by rw [hblocked]; decide)
  · rename_i hguard
    simp only [Bool.or_eq_true, decide_eq_true_eq, not_or, Bool.not_eq_true, ne_eq,
      Decidable.not_not] at hguard
    simp only [hguard, true_and, Option.bind_eq_some_iff, Partial.toRow?_eq_some_iff,
      exists_eq_right]

/-- A completion keeps what is bound, fits the space where the partial row is
    free, and contains no exclusion. -/
theorem complete?_completes (hset : set.Indexed) (h : set.complete? space work = some row) :
    space.Completes set.lists work row := by
  rcases complete?_eq_some_iff.1 h with ⟨-, hblocks, hfill⟩
  rcases fill_filled hset (fun p hp => (Partial.mem_free_iff.1 hp).1) work.nodup_free hblocks hfill
    with ⟨hfilled, hunblocked⟩
  rcases hfilled.exists_toRow? with ⟨found, hfound, hext, hfits⟩
  obtain rfl : row = found := by
    rw [Partial.toRow?_eq_some_iff.2 rfl, Option.some.injEq] at hfound
    exact hfound
  exact ⟨hext, hfits, avoids_iff_blocksPartial.2 hunblocked⟩

/-- There is a completion where there is a row to be found. -/
theorem complete?_isSome_of_completes (hset : set.Indexed) (hlen : work.length = space.width)
    (h : space.Completes set.lists work row) : (set.complete? space work).isSome = true := by
  have hblocks := blocksPartial_of_extendedBy h.keeps h.avoids
  have hlt : ∀ p ∈ work.free, p < work.length := fun p hp => (Partial.mem_free_iff.1 hp).1
  -- The search does not give up, since the row at hand is one it could find.
  have hsome := fill_isSome hset h.avoids (fun p hp => ⟨hlt p hp, h.fits p hp⟩) h.keeps
  rcases Option.isSome_iff_exists.1 hsome with ⟨result, hfill⟩
  -- What it finds instead binds every position, and so is a row itself.
  rcases (fill_filled hset hlt work.nodup_free hblocks hfill).1.exists_toRow? with
    ⟨found, hfound, -⟩
  rw [Partial.toRow?_eq_some_iff.1 hfound] at hfill
  rw [complete?_eq_some_iff.2 ⟨hlen, hblocks, hfill⟩, Option.isSome_some]

/-- A completion is a row of the space that extends the partial row and
    contains no exclusion. -/
theorem complete?_sound (hset : set.Indexed) (hwork : space.AdmitsPartial work)
    (h : set.complete? space work = some row) :
    space.Allows set.lists row ∧ work.ExtendedBy row :=
  (Space.completes_iff hwork).1 (complete?_completes hset h)

/-- Where there is a completion at all, the partial row itself is a state of
    filling it. -/
theorem grownFrom_of_completable (h : space.Completable set.lists work) :
    set.GrownFrom space work work := by
  have hwork := Space.admitsPartial_of_completable h
  rcases h with ⟨row, ⟨_, havoids⟩, hext⟩
  exact .refl hwork (blocksPartial_of_extendedBy hext havoids)

/-- There is a completion where some row extends the partial row and contains
    no exclusion. -/
theorem complete?_isSome (hset : set.Indexed) (h : space.Completable set.lists work) :
    (set.complete? space work).isSome = true := by
  have hwork := Space.admitsPartial_of_completable h
  rcases h with ⟨row, hrow⟩
  exact complete?_isSome_of_completes hset hwork.1 ((Space.completes_iff hwork).2 hrow)

/-- The search decides whether a partial row of the space can be completed. -/
theorem complete?_isSome_iff (hset : set.Indexed) (hwork : space.AdmitsPartial work) :
    (set.complete? space work).isSome = true ↔ space.Completable set.lists work := by
  refine ⟨fun h => ?_, complete?_isSome hset⟩
  rcases Option.isSome_iff_exists.1 h with ⟨row, hrow⟩
  exact ⟨row, complete?_sound hset hwork hrow⟩

/-- The search for a row with an obligation decides its feasibility. -/
theorem complete?_toPartial_isSome_iff (hset : set.Indexed) {o : Obligation}
    (ho : o.InSpace space) :
    (set.complete? space (o.toPartial space.width)).isSome = true ↔
      space.Feasible set.lists o := by
  rw [complete?_isSome_iff hset (Obligation.admitsPartial_toPartial ho),
    Space.completable_toPartial_iff ho]

/-- An obligation whose search comes out empty is in no allowed row. -/
theorem not_feasible_of_complete?_eq_none (hset : set.Indexed) {o : Obligation}
    (ho : o.InSpace space) (h : set.complete? space (o.toPartial space.width) = none) :
    ¬ space.Feasible set.lists o := by
  rw [← complete?_toPartial_isSome_iff hset ho, h]
  decide

/-- The feasibility check decides whether some row without exclusion contains
    the obligation. -/
theorem feasible_iff (hset : set.Indexed) {o : Obligation} (ho : o.InSpace space) :
    set.feasible space o = true ↔ space.Feasible set.lists o := by
  rw [feasible, Bool.and_eq_true, Bool.not_eq_true', Bool.eq_false_iff, ne_eq,
    Obligation.blocksObligation_iff ho.distinct, complete?_toPartial_isSome_iff hset ho]
  exact ⟨fun h => h.2, fun h => ⟨fun hblocked => Space.not_feasible_of_blocked hblocked h, h⟩⟩

section Least

/-- What the search finds comes no later than any row it could find: at the
    first position where the two differ it has tried the lesser value first, and
    a lesser value that the row has would have led somewhere. -/
theorem fill_least (hset : set.Indexed) {free : List Nat} {found other : Row}
    (hlt : ∀ p ∈ free, p < work.length) (hnodup : free.Nodup)
    (hwork : set.blocksPartial work = false)
    (h : set.fill space free work = some (found.map some)) (hext : work.ExtendedBy other)
    (hfits : ∀ p ∈ free, other.getD p 0 < space.count p) (havoids : other.Avoids set.lists) :
    found.valuesAt free = other.valuesAt free ∨
      List.Lex (· < ·) (found.valuesAt free) (other.valuesAt free) := by
  induction free generalizing work with
  | nil => exact .inl rfl
  | cons p rest ih =>
      rcases List.forall_mem_cons.1 hlt with ⟨hp, hrest⟩
      rcases List.forall_mem_cons.1 hfits with ⟨hvalue, hfits'⟩
      rcases List.nodup_cons.1 hnodup with ⟨hnew, hnodup'⟩
      rcases exists_of_firstBelow? h with ⟨v, -, hf, hbefore⟩
      simp only at hf hbefore
      have hrest' (u : Nat) : ∀ q ∈ rest, q < (work.bind ⟨p, u⟩).length := by
        intro q hq
        rw [Partial.length_bind]
        exact hrest q hq
      have hext' := Partial.extendedBy_bind hext hp
      have hat : set.blocksAt (work.bind ⟨p, other.getD p 0⟩) p = false :=
        blocksAt_of_blocksPartial hset (blocksPartial_of_extendedBy hext' havoids)
      split at hf
      · exact absurd hf (by simp only [reduceCtorEq, not_false_eq_true])
      · rename_i hunblocked
        rw [Bool.not_eq_true] at hunblocked
        have hwork' := blocksPartial_bind hset hwork hunblocked
        -- The search goes on behind this position and does not come back to it.
        have hhead : found.getD p 0 = v := by
          have hkept := (fill_filled hset (hrest' v) hnodup' hwork' hf).1.keeps p hnew
          rw [Partial.at?_bind_self hp, Partial.at?_map_some] at hkept
          rw [List.getD_eq_getElem?_getD, hkept, Option.getD_some]
        rw [Row.valuesAt, Row.valuesAt, List.map_cons, List.map_cons, hhead]
        rcases Nat.lt_trichotomy v (other.getD p 0) with hless | heq | hgreater
        · exact .inr (.rel hless)
        · rw [← heq] at hext' ⊢
          rcases ih (hrest' v) hnodup' hwork' hf hext' hfits' with hsame | hlex
          · exact .inl (congrArg _ hsame)
          · exact .inr (.cons hlex)
        · -- The value of the other row was tried before, and cannot have failed.
          have hsome := fill_isSome hset havoids
            (fun q hq => ⟨hrest' (other.getD p 0) q hq, hfits' q hq⟩) hext'
          have hnone := hbefore _ hgreater
          rw [hat, if_neg Bool.false_ne_true] at hnone
          rw [hnone, Option.isSome_none] at hsome
          exact absurd hsome Bool.false_ne_true

/-- Rows that a partial row can become differ only where it is free. -/
theorem eq_of_valuesAt_free {row other : Row} (hrow : work.ExtendedBy row)
    (hother : work.ExtendedBy other) (h : row.valuesAt work.free = other.valuesAt work.free) :
    row = other := by
  have hlen : row.length = other.length := hrow.1.trans hother.1.symm
  refine List.ext_getElem? fun p => ?_
  by_cases hp : p < work.length
  · cases hat : work.at? p with
    | some v => rw [hrow.2 p v hat, hother.2 p v hat]
    | none =>
        have hvalue := List.map_inj_left.1 h p (Partial.mem_free_iff.2 ⟨hp, hat⟩)
        rw [Row.getElem?_eq_getD (hrow.1.symm ▸ hp), Row.getElem?_eq_getD (hother.1.symm ▸ hp),
          hvalue]
  · rw [List.getElem?_eq_none (by rw [hrow.1]; exact Nat.le_of_not_lt hp),
      List.getElem?_eq_none (by rw [hother.1]; exact Nat.le_of_not_lt hp)]

/-- The completion is the least row to be found, and there is none only where
    there is no such row. A row is to be found when it has what the partial row
    binds, values of the space where the partial row is free, and no exclusion;
    rows are compared by their values at the free positions, the first one that
    differs deciding. The set may have been built for another space than the one
    that is searched. -/
theorem complete?_least {built : Space} {raw : List (List Binding)}
    (hset : ofLists built raw = .ok set) (space : Space) (work : Partial) :
    (work.length ≠ space.width → set.complete? space work = none) ∧
    (work.length = space.width →
      (set.complete? space work = none ↔ ¬ ∃ row, space.Completes set.lists work row) ∧
      ∀ row, set.complete? space work = some row ↔
        space.Completes set.lists work row ∧
          ∀ other, space.Completes set.lists work other →
            other = row ∨
              List.Lex (· < ·) (row.valuesAt work.free) (other.valuesAt work.free)) := by
  have hindexed := indexed_ofLists hset
  refine ⟨fun hlen => ?_, fun hlen => ?_⟩
  · rw [Option.eq_none_iff_forall_not_mem]
    exact fun row hrow => hlen (complete?_eq_some_iff.1 hrow).1
  have hsome {row : Row} (h : space.Completes set.lists work row) :
      ∃ found, set.complete? space work = some found :=
    Option.isSome_iff_exists.1 (complete?_isSome_of_completes hindexed hlen h)
  have hleast {row other : Row} (h : set.complete? space work = some row)
      (hother : space.Completes set.lists work other) :
      other = row ∨ List.Lex (· < ·) (row.valuesAt work.free) (other.valuesAt work.free) := by
    rcases complete?_eq_some_iff.1 h with ⟨-, hblocks, hfill⟩
    refine (fill_least hindexed (fun p hp => (Partial.mem_free_iff.1 hp).1) work.nodup_free hblocks
      hfill hother.keeps hother.fits hother.avoids).imp_left fun hsame => ?_
    exact eq_of_valuesAt_free hother.keeps (complete?_completes hindexed h).keeps hsame.symm
  refine ⟨⟨?_, fun hnone => ?_⟩, fun row => ⟨fun h => ?_, ?_⟩⟩
  · rintro hnone ⟨row, hrow⟩
    rcases hsome hrow with ⟨found, hfound⟩
    rw [hnone] at hfound
    exact absurd hfound (by simp only [reduceCtorEq, not_false_eq_true])
  · rw [Option.eq_none_iff_forall_not_mem]
    exact fun row hrow => hnone ⟨row, complete?_completes hindexed hrow⟩
  · exact ⟨complete?_completes hindexed h, fun other => hleast h⟩
  · rintro ⟨hrow, hmin⟩
    rcases hsome hrow with ⟨found, hfound⟩
    -- Two rows cannot each come before the other.
    rcases hmin found (complete?_completes hindexed hfound) with rfl | hbefore
    · exact hfound
    · rcases hleast hfound hrow with rfl | hafter
      · exact hfound
      · exact absurd hbefore (List.lex_asymm Nat.lt_asymm hafter)

/-- The first position has to be taken up again when nothing fits behind its
    first value, and an exclusion of a position that is not searched is passed
    over. -/
theorem complete?_least_corner :
    ∃ set, ofLists (.uniform 2 1) [[⟨1, 1⟩, ⟨0, 0⟩], [⟨2, 0⟩], [⟨0, 0⟩, ⟨1, 0⟩]] = .ok set ∧
      set.complete? (.uniform 1 1) [none, none] = some [1, 0] ∧
      ∀ other, (Space.uniform 1 1).Completes set.lists [none, none] other →
        other = [1, 0] ∨ List.Lex (· < ·) [1, 0] (other.valuesAt [0, 1]) := by
  have hset : ofLists (.uniform 2 1) [[⟨1, 1⟩, ⟨0, 0⟩], [⟨2, 0⟩], [⟨0, 0⟩, ⟨1, 0⟩]] =
      .ok (.ofMembers 3 [⟨[⟨2, 0⟩]⟩, ⟨[⟨0, 0⟩, ⟨1, 0⟩]⟩, ⟨[⟨0, 0⟩, ⟨1, 1⟩]⟩]) := by
    cbv
  have hrow : (ofMembers 3 [⟨[⟨2, 0⟩]⟩, ⟨[⟨0, 0⟩, ⟨1, 0⟩]⟩, ⟨[⟨0, 0⟩, ⟨1, 1⟩]⟩]).complete?
      (.uniform 1 1) [none, none] = some [1, 0] := by decide
  exact ⟨_, hset, hrow,
    (((complete?_least hset (.uniform 1 1) [none, none]).2 rfl).2 [1, 0] |>.1 hrow).2⟩

end Least

end ExclusionSet

end Covering
