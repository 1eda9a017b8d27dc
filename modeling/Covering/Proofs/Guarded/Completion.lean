import Covering.Proofs.Completion
import Covering.Proofs.Guarded.Access

/-!
# Completing partial rows without fault

The search for a completion writes into a partial row, asks the space for counts
and follows the index of the exclusions. None of this is ever out of range, for
exclusions of the space itself or of any other.

The one check that the search makes is that of the width. All positions that it
binds are free positions of the partial row, so the width is all that counts and
writes depend on. The exclusions are never asked for more than they have: a
position beyond their index has no entry, and an entry is the number of a member
wherever the index is right (`ExclusionSet.Indexed`), which does not mention a
space.

## Main definitions

* `Guarded.complete?`, `Guarded.feasible`: The guarded search and the guarded
  check of an obligation.

## Theorems

* `touching_eq_some`: Entries of the index are members.
* `complete?_eq_some`: The search meets no fault.
* `blocksObligation_eq_some`, `feasible_eq_some`: Nor does the check.
-/

namespace Covering

namespace Guarded

/-- The members that bind a position, each looked up under its number. -/
def touching (set : ExclusionSet) (position : Nat) : Option (List Exclusion) :=
  (set.touching position).mapM fun e => set.members[set.members.idxOf e]?

/-- Whether the partial row contains a member that binds the position. -/
def blocksAt (set : ExclusionSet) (work : Partial) (position : Nat) : Option Bool := do
  return (← touching set position).any (·.matchesPartial work)

/-- Whether the row contains a member that binds the position. -/
def rowBlockedAt (set : ExclusionSet) (row : Row) (position : Nat) : Option Bool := do
  return (← touching set position).any (·.matchesRow row)

/-- Fills the given free positions in turn. -/
def fill (set : ExclusionSet) (space : Space) : List Nat → Partial → Option (Option Partial)
  | [], work => some (some work)
  | position :: free, work => do
    let count ← space.counts[position]?
    firstFrom? (fun value => do
      let work' ← bind? work ⟨position, value⟩
      if ← blocksAt set work' position then pure none else fill set space free work') count 0

/-- The positions that a partial row leaves free. -/
def free (work : Partial) : Option (List Nat) :=
  filter? (fun p => do return (← work[p]?).isNone) (List.range work.length)

/-- The least completion of a partial row. -/
def complete? (set : ExclusionSet) (space : Space) (work : Partial) : Option (Option Row) :=
  if work.length ≠ space.width || set.blocksPartial work then some none
  else do
    let free ← free work
    return (← fill set space free work).bind Partial.toRow?

/-- An obligation from ascending positions with a value for each. -/
def obligation (positions values : List Nat) : Option Obligation :=
  if positions.length = values.length ∧ positions.Pairwise (· < ·) then some ⟨positions, values⟩
  else none

/-- The value bound at a position, found by the place of the position. -/
def valueAt? (o : Obligation) (position : Nat) : Option (Option Nat) :=
  match o.positions.findIdx? (· == position) with
  | none => some none
  | some i => do return some (← o.values[i]?)

/-- Whether the obligation contains a member. -/
def blocksObligation (set : ExclusionSet) (o : Obligation) : Option Bool :=
  set.members.anyM fun e => e.bindings.allM fun b => do
    return (← valueAt? o b.position) == some b.value

/-- The partial row of an obligation. -/
def toPartial (o : Obligation) (width : Nat) : Option Partial :=
  o.bindings.foldlM bind? (List.replicate width none)

/-- Whether the obligation is in some row of the space without exclusion. -/
def feasible (set : ExclusionSet) (space : Space) (o : Obligation) : Option Bool := do
  if ← blocksObligation set o then pure false
  else
    let work ← toPartial o space.width
    return (← complete? set space work).isSome

section Search

variable {set : ExclusionSet} {space : Space} {work : Partial}

/-- Entries of the index are members. -/
theorem touching_eq_some (hset : set.Indexed) (p : Nat) :
    touching set p = some (set.touching p) := by
  have hlook : ∀ e ∈ set.touching p, set.members[set.members.idxOf e]? = some (id e) := by
    intro e he
    have hlt := List.idxOf_lt_length_of_mem ((hset p e).1 he).1
    rw [List.getElem?_eq_getElem hlt, List.getElem_idxOf hlt, id]
  rw [touching, mapM_eq_some hlook, List.map_id]

theorem blocksAt_eq_some (hset : set.Indexed) (work : Partial) (p : Nat) :
    blocksAt set work p = some (set.blocksAt work p) := by
  rw [blocksAt, touching_eq_some hset]
  rfl

theorem rowBlockedAt_eq_some (hset : set.Indexed) (row : Row) (p : Nat) :
    rowBlockedAt set row p = some (set.rowBlockedAt row p) := by
  rw [rowBlockedAt, touching_eq_some hset]
  rfl

/-- Filling positions of the space meets no fault. -/
theorem fill_eq_some (hset : set.Indexed) {free : List Nat} (hlen : work.length = space.width)
    (hfree : ∀ p ∈ free, p < space.width) :
    fill set space free work = some (set.fill space free work) := by
  induction free generalizing work with
  | nil => rfl
  | cons p free ih =>
      rw [List.forall_mem_cons] at hfree
      have hlt : p < work.length := by
        rw [hlen]
        exact hfree.1
      unfold fill ExclusionSet.fill firstBelow?
      rw [counts_getElem?_eq_some hfree.1]
      refine firstFrom?_eq_some fun value _ => ?_
      rw [bind?_eq_some (b := ⟨p, value⟩) hlt]
      simp only [Option.bind_eq_bind, Option.bind_some, blocksAt_eq_some hset]
      -- The rest is filled only where the value completes no exclusion.
      cases set.blocksAt (work.bind ⟨p, value⟩) p with
      | true => rfl
      | false => exact ih (by rw [Partial.length_bind, hlen]) hfree.2

theorem free_eq_some (work : Partial) : free work = some work.free := by
  refine filter?_eq_some fun p hp => ?_
  have hlt : p < work.length := List.mem_range.1 hp
  rw [Partial.at?, List.getElem?_eq_getElem hlt]
  rfl

/-- The search for a completion meets no fault, whatever the partial row is. -/
theorem complete?_eq_some (hset : set.Indexed) (space : Space) (work : Partial) :
    complete? set space work = some (set.complete? space work) := by
  unfold complete? ExclusionSet.complete?
  split
  · rfl
  · rename_i hguard
    simp only [Bool.or_eq_true, decide_eq_true_eq, not_or, ne_eq, Decidable.not_not] at hguard
    have hfree : ∀ p ∈ work.free, p < space.width := fun p hp => by
      rw [← hguard.1]
      exact (Partial.mem_free_iff.1 hp).1
    rw [free_eq_some, Option.bind_eq_bind, Option.bind_some, fill_eq_some hset hguard.1 hfree]
    rfl

end Search

section Obligations

variable {set : ExclusionSet} {space : Space} {o : Obligation}

theorem obligation_eq_some {positions values : List Nat} (hlen : positions.length = values.length)
    (hascending : positions.Pairwise (· < ·)) :
    obligation positions values = some ⟨positions, values⟩ := if_pos ⟨hlen, hascending⟩

/-- Looking for a position among bindings is looking for its place. -/
theorem find?_zipWith (position : Nat) : ∀ {positions values : List Nat},
    positions.length = values.length →
      ((List.zipWith Binding.mk positions values).find? (·.position == position)).map (·.value) =
        (positions.findIdx? (· == position)).bind (values[·]?) := by
  intro positions
  induction positions with
  | nil => exact fun _ => rfl
  | cons p positions ih =>
      intro values hlen
      cases values with
      | nil => exact absurd hlen (Nat.succ_ne_zero _)
      | cons v values =>
          rw [List.length_cons, List.length_cons, Nat.add_right_cancel_iff] at hlen
          rw [List.zipWith_cons_cons, List.find?_cons, List.findIdx?_cons]
          cases p == position with
          | true => rfl
          | false =>
              simp only [Bool.false_eq_true, if_false]
              rw [ih hlen]
              cases positions.findIdx? (· == position) <;> rfl

/-- A position of an obligation has a value. -/
theorem valueAt?_eq_some (hlen : o.positions.length = o.values.length) (position : Nat) :
    valueAt? o position = some (o.valueAt? position) := by
  unfold valueAt?
  rw [Obligation.valueAt?, Obligation.bindings, find?_zipWith position hlen]
  split
  · rename_i hnone
    rw [hnone, Option.bind_none]
  · rename_i i hfound
    have hlt : i < o.values.length := by
      rw [← hlen]
      exact (List.findIdx?_eq_some_iff_getElem.1 hfound).1
    rw [hfound, Option.bind_some, List.getElem?_eq_getElem hlt]
    rfl

theorem blocksObligation_eq_some (hlen : o.positions.length = o.values.length)
    (set : ExclusionSet) : blocksObligation set o = some (set.blocksObligation o) := by
  refine anyM_eq_some fun e _ => allM_eq_some fun b _ => ?_
  rw [valueAt?_eq_some hlen]
  rfl

/-- The partial row of an obligation that fits the width. -/
theorem toPartial_eq_some {width : Nat} (hfits : ∀ b ∈ o.bindings, b.position < width) :
    toPartial o width = some (o.toPartial width) := by
  -- Binding keeps the width, and the bindings still to come fit it.
  refine foldlM_eq_some (fun rest work => work.length = width ∧ ∀ b ∈ rest, b.position < width)
    (fun b rest work h => ?_) ⟨List.length_replicate, hfits⟩
  rcases h with ⟨hlen, hrest⟩
  rw [List.forall_mem_cons] at hrest
  refine ⟨bind?_eq_some (by rw [hlen]; exact hrest.1), ?_, hrest.2⟩
  rw [Partial.length_bind, hlen]

/-- Asking whether an obligation is feasible meets no fault. -/
theorem feasible_eq_some (hset : set.Indexed) (hlen : o.positions.length = o.values.length)
    (hfits : ∀ b ∈ o.bindings, b.position < space.width) :
    feasible set space o = some (set.feasible space o) := by
  unfold feasible ExclusionSet.feasible
  rw [blocksObligation_eq_some hlen, toPartial_eq_some hfits]
  simp only [Option.bind_eq_bind, Option.bind_some, complete?_eq_some hset]
  cases set.blocksObligation o <;> rfl

end Obligations

end Guarded

end Covering
