import Covering.Proofs.Generator.Draw
import Covering.Proofs.Generator.Refine
import Covering.Proofs.Guarded.Ledger

/-!
# Finding candidates without fault

A candidate is drawn position by position from lists of allowed values and then
improved in place. Every value that is picked from a list is there, every weight
that is looked up belongs to a value, and every row that is scored on the way is
one of the space.

An index that is drawn is below the length of what it is drawn from
(`Random.below_lt`, `Random.weighted_lt`), and nothing is drawn from an empty list.
The weights of a space have the shape of its counts by construction, so an allowed
value has a weight. While a row is improved, it takes on values that are tried and
given up again; all of them are values of the space, so the row stays one even
where it contains an exclusion, and that is all that scoring it depends on.

## Main definitions

* `Guarded.draw`, `Guarded.drawPool`: Candidates, drawn with guards.
* `Guarded.bestValue`, `Guarded.sweep`, `Guarded.climb`: Hill climbing with guards.

## Theorems

* `pickValue_eq_some`: A value is picked without fault.
* `draw_eq_some`, `drawPool_eq_some`: So is a candidate.
* `climb_eq_some`: And improved without fault.
-/

namespace Covering

namespace Guarded

/-- The values at a position that complete no exclusion. -/
def allowedValues (space : Space) (set : ExclusionSet) (work : Partial) (position : Nat) :
    Option (List Nat) := do
  let count ← space.counts[position]?
  filter? (fun value => do
    let work' ← bind? work ⟨position, value⟩
    return !(← blocksAt set work' position)) (List.range count)

/-- An index chosen in proportion to weights, of which there must be some. -/
def weighted (random : Random) (weights : List Nat) : Option (Nat × Random) :=
  if sumOf weights = 0 then some (random.below weights.length)
  else match Random.pick? (random.scaled (sumOf weights)) weights with
    | some i => some (i, random.advance)
    | none => do return (← minus? weights.length 1, random.advance)

/-- One of the values, drawn by the weights of the position if it has any. -/
def pickValue (space : Space) (position : Nat) (values : List Nat) (random : Random) :
    Option (Nat × Random) := do
  let (index, random) ← match space.weights with
    | none => some (random.below values.length)
    | some lists => do
      let weights ← lists[position]?
      weighted random (← values.mapM (weights[·]?))
  return (← values[index]?, random)

/-- Fills the given positions of `work` where they are free. -/
def drawFrom (space : Space) (set : ExclusionSet) (fixed : Partial) :
    List Nat → Partial → Random → Option (Option Row × Random)
  | [], work, random => some (work.toRow?, random)
  | position :: rest, work, random => do
    let entry ← work[position]?
    if entry.isSome then drawFrom space set fixed rest work random
    else
      let allowed ← allowedValues space set work position
      if allowed.isEmpty then return (← complete? set space fixed, random)
      else
        let (value, random) ← pickValue space position allowed random
        drawFrom space set fixed rest (← bind? work ⟨position, value⟩) random

/-- A candidate row that makes the bindings of `fixed`. -/
def draw (space : Space) (set : ExclusionSet) (fixed : Partial) (random : Random) :
    Option (Option Row × Random) :=
  drawFrom space set fixed (List.range fixed.length) fixed random

/-- The candidates of `n` draws for one partial row. -/
def drawPool (space : Space) (set : ExclusionSet) (fixed : Partial) :
    Nat → Random → Option (List Row × Random)
  | 0, random => some ([], random)
  | n + 1, random => do
    let (row?, random) ← draw space set fixed random
    let (pool, random) ← drawPool space set fixed n random
    return (row?.toList ++ pool, random)

/-- The value for a position that newly covers most obligations. -/
def bestValue (space : Space) (set : ExclusionSet) (ledger : Ledger) (row : Row)
    (position : Nat) : Option Nat := do
  let current ← row[position]?
  let score ← Ledger.scoreTouching space ledger row position
  let count ← space.counts[position]?
  let best ← (List.range count).foldlM (fun (best : Nat × Nat) value =>
    if value = current then some best
    else do
      let row' ← write? row position value
      if ← rowBlockedAt set row' position then pure best
      else
        let score ← Ledger.scoreTouching space ledger row' position
        return if best.2 < score then (value, score) else best) (current, score)
  return best.1

/-- One pass over the given positions, and the number of values it changed. -/
def sweep (space : Space) (set : ExclusionSet) (ledger : Ledger) (pinned : Partial) :
    List Nat → Row → Option (Row × Nat)
  | [], row => some (row, 0)
  | position :: rest, row => do
    let pin ← pinned[position]?
    if pin.isSome then sweep space set ledger pinned rest row
    else
      let current ← row[position]?
      let best ← bestValue space set ledger row position
      let (row, moves) ← sweep space set ledger pinned rest (← write? row position best)
      return (row, moves + if best = current then 0 else 1)

/-- At most the given number of passes, ending with the first that changes
    nothing. -/
def climb (space : Space) (set : ExclusionSet) (ledger : Ledger) (pinned : Partial) :
    Nat → Row → Option (Row × Nat)
  | 0, row => some (row, 0)
  | passes + 1, row => do
    let (row, moves) ← sweep space set ledger pinned (List.range row.length) row
    if moves = 0 then pure (row, 0)
    else
      let (row, more) ← climb space set ledger pinned passes row
      return (row, moves + more)

section Draw

variable {space : Space} {set : ExclusionSet} {fixed work : Partial}

theorem allowedValues_eq_some (hset : set.Indexed) {p : Nat} (hp : p < space.width)
    (hlen : work.length = space.width) :
    allowedValues space set work p = some (Covering.allowedValues space set work p) := by
  unfold allowedValues
  rw [counts_getElem?_eq_some hp]
  refine filter?_eq_some fun value _ => ?_
  rw [bind?_eq_some (b := ⟨p, value⟩) (by rw [hlen]; exact hp)]
  simp only [Option.bind_eq_bind, Option.bind_some, blocksAt_eq_some hset]
  rfl

theorem weighted_eq_some (random : Random) {weights : List Nat} (h : weights ≠ []) :
    weighted random weights = some (random.weighted weights) := by
  unfold weighted Random.weighted
  split
  · rfl
  · cases Random.pick? (random.scaled (sumOf weights)) weights with
    | some i => rfl
    | none =>
        rw [minus?_eq_some (List.length_pos_iff.2 h)]
        rfl

/-- The weights at a position are one for each of its values. -/
theorem weights_getElem? {lists : List (List Nat)} (h : space.weights = some lists) {p : Nat}
    (hp : p < space.width) :
    ∃ weights, lists[p]? = some weights ∧ weights.length = space.count p := by
  have hshape := space.weights_shape lists h
  have hcount := counts_getElem?_eq_some hp
  rw [← hshape, List.getElem?_map, Option.map_eq_some_iff] at hcount
  exact hcount

/-- Picking one of the values at a position meets no fault. -/
theorem pickValue_eq_some {p : Nat} (hp : p < space.width) {values : List Nat}
    (hne : values ≠ []) (hvalues : ∀ v ∈ values, v < space.count p) (random : Random) :
    pickValue space p values random = some (Covering.pickValue space p values random) := by
  have hget {i : Nat} (hi : i < values.length) : values[i]? = some (values.getD i 0) := by
    rw [List.getD_eq_getElem?_getD, List.getElem?_eq_getElem hi, Option.getD_some]
  unfold pickValue Covering.pickValue Space.weightsAt?
  cases hweights : space.weights with
  | none =>
      simp only [Option.bind_eq_bind, Option.bind_some, Option.map_none,
        hget (random.below_lt (List.length_pos_iff.2 hne))]
      rfl
  | some lists =>
      rcases weights_getElem? hweights hp with ⟨weights, hlist, hlen⟩
      have hchosen : values.mapM (weights[·]?) = some (values.map fun v => weights.getD v 0) :=
        mapM_getElem?_eq_some 0 fun v hv => by rw [hlen]; exact hvalues v hv
      have hsome : (values.map fun v => weights.getD v 0) ≠ [] :=
        fun hnil => hne (List.map_eq_nil_iff.1 hnil)
      have hlt := random.weighted_lt hsome
      rw [List.length_map] at hlt
      have hlists : lists.getD p [] = weights := by
        rw [List.getD_eq_getElem?_getD, hlist, Option.getD_some]
      simp only [hlist, hlists, hchosen, Option.bind_eq_bind, Option.bind_some, Option.map_some,
        weighted_eq_some random hsome, hget hlt]
      rfl

/-- Filling positions of the space at random meets no fault. -/
theorem drawFrom_eq_some (hset : set.Indexed) (fixed : Partial) {positions : List Nat}
    (hpositions : ∀ p ∈ positions, p < space.width) (hlen : work.length = space.width)
    (random : Random) :
    drawFrom space set fixed positions work random =
      some (Covering.drawFrom space set fixed positions work random) := by
  induction positions generalizing work random with
  | nil => rfl
  | cons p rest ih =>
      rw [List.forall_mem_cons] at hpositions
      have hlt : p < work.length := by
        rw [hlen]
        exact hpositions.1
      have hentry : work[p]? = some (work.at? p) := by
        rw [Partial.at?, List.getElem?_eq_getElem hlt]
        rfl
      unfold drawFrom Covering.drawFrom
      simp only [hentry, Option.bind_eq_bind, Option.bind_some,
        allowedValues_eq_some hset hpositions.1 hlen]
      split
      · exact ih hpositions.2 hlen random
      · split
        · rw [complete?_eq_some hset]
          rfl
        · rename_i hallowed
          rw [List.isEmpty_iff] at hallowed
          -- Allowed values are values of the space, and one of them is picked.
          have hvalues : ∀ v ∈ Covering.allowedValues space set work p, v < space.count p :=
            fun v hv => (mem_allowedValues_iff.1 hv).1
          rw [pickValue_eq_some hpositions.1 hallowed hvalues]
          simp only [Option.bind_some, bind?_eq_some
            (b := ⟨p, (Covering.pickValue space p _ random).1⟩) hlt]
          exact ih hpositions.2 (by rw [Partial.length_bind, hlen]) _

/-- Drawing a candidate meets no fault. -/
theorem draw_eq_some (hset : set.Indexed) (hfixed : fixed.length = space.width)
    (random : Random) :
    draw space set fixed random = some (Covering.draw space set fixed random) := by
  refine drawFrom_eq_some hset fixed (fun p hp => ?_) hfixed random
  rw [← hfixed]
  exact List.mem_range.1 hp

theorem drawPool_eq_some (hset : set.Indexed) (hfixed : fixed.length = space.width) (n : Nat)
    (random : Random) :
    drawPool space set fixed n random = some (Covering.drawPool space set fixed n random) := by
  induction n generalizing random with
  | zero => rfl
  | succ n ih =>
      unfold drawPool Covering.drawPool
      simp only [draw_eq_some hset hfixed, ih, Option.bind_eq_bind, Option.bind_some]
      rfl

end Draw

section Climb

variable {space : Space} {set : ExclusionSet} {choices : List (List Nat)} {ledger : Ledger}
  {pinned : Partial} {row : Row}

/-- Trying all values at a position meets no fault. The row stays one of the
    space with any of them. -/
theorem bestValue_eq_some (hset : set.Indexed) (h : ledger.WellFormed space choices)
    (hrow : space.admits row = true) {p : Nat} (hp : p < space.width) :
    bestValue space set ledger row p = some (Covering.bestValue space set ledger row p) := by
  have hlt : p < row.length := by
    rw [Space.length_of_admits hrow]
    exact hp
  unfold bestValue Covering.bestValue
  simp only [Row.getElem?_eq_getD hlt, Ledger.scoreTouching_eq_some h hrow hp,
    counts_getElem?_eq_some hp, Option.bind_eq_bind, Option.bind_some]
  rw [foldlM_eq_some (fun rest _ => ∀ v ∈ rest, v < space.count p) (fun value rest best hrest => ?_)
    fun v hv => List.mem_range.1 hv]
  · rfl
  · rw [List.forall_mem_cons] at hrest
    refine ⟨?_, hrest.2⟩
    by_cases hsame : value = row.getD p 0
    · rw [if_pos hsame, if_pos (.inl hsame)]
    · simp only [hsame, false_or, write?_eq_some hlt, rowBlockedAt_eq_some hset,
        Ledger.scoreTouching_eq_some h (Space.admits_set hrow hrest.1) hp, Option.bind_some]
      cases set.rowBlockedAt (row.set p value) p <;> rfl

/-- A pass over positions of the space meets no fault. -/
theorem sweep_eq_some (hset : set.Indexed) (h : ledger.WellFormed space choices)
    (hpinned : pinned.length = space.width) {positions : List Nat}
    (hpositions : ∀ p ∈ positions, p < space.width) (hrow : space.Allows set.lists row) :
    sweep space set ledger pinned positions row =
      some (Covering.sweep space set ledger pinned positions row) := by
  induction positions generalizing row with
  | nil => rfl
  | cons p rest ih =>
      rw [List.forall_mem_cons] at hpositions
      have hlt : p < row.length := by
        rw [Space.length_of_admits hrow.1]
        exact hpositions.1
      have hpin : pinned[p]? = some (pinned.at? p) := by
        rw [Partial.at?, List.getElem?_eq_getElem (by rw [hpinned]; exact hpositions.1)]
        rfl
      unfold sweep Covering.sweep
      rw [hpin, Option.bind_eq_bind, Option.bind_some]
      cases hfree : (pinned.at? p).isSome with
      | true => exact ih hpositions.2 hrow
      | false =>
          -- The best value makes an allowed row again, from which the pass goes on.
          have hmove := climbed_bestValue ledger hset hrow hpositions.1 hfree
          simp only [Row.getElem?_eq_getD hlt, bestValue_eq_some hset h hrow.1 hpositions.1,
            write?_eq_some hlt, ih hpositions.2 hmove.allows, Option.bind_eq_bind,
            Option.bind_some]
          rfl

/-- Improving an allowed row meets no fault. -/
theorem climb_eq_some (hset : set.Indexed) (h : ledger.WellFormed space choices)
    (hpinned : pinned.length = space.width) (passes : Nat) (hrow : space.Allows set.lists row) :
    climb space set ledger pinned passes row =
      some (Covering.climb space set ledger pinned passes row) := by
  induction passes generalizing row with
  | zero => rfl
  | succ passes ih =>
      have hpositions : ∀ p ∈ List.range row.length, p < space.width := by
        intro p hp
        rw [← Space.length_of_admits hrow.1]
        exact List.mem_range.1 hp
      have hswept := (sweep_climbed ledger pinned hset hpositions hrow).allows
      unfold climb Covering.climb
      simp only [sweep_eq_some hset h hpinned hpositions hrow, ih hswept, Option.bind_eq_bind,
        Option.bind_some]
      split
      · rfl
      · rfl

end Climb

end Guarded

end Covering
