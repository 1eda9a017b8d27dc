import Covering.Generator.Draw
import Covering.Proofs.Completion
import Covering.Proofs.Random

/-!
# Candidates are completions

A draw for a partial row that can be completed gives one of its completions,
whatever the stream holds.

The draw goes through the states of filling the partial row, as the search for
a completion does, but it never goes back: an early value may leave a later
position without any. That is no failure, since the search then takes over from
the partial row that the draw started with, and that one can be completed by
assumption. So a draw either ends in a state with every position bound or falls
back to the least completion, and there is always a candidate.

That what is drawn is right and that something is drawn are two inductions over
the same steps (`drawFrom_cons`). For the first, every state has grown out of the
fixed part; a value is checked only against the exclusions that touch its
position, and that is enough since the state before contained none, to the left or
to the right. For the second, no position is free but those still to come.

## Main definitions

* `runsDry`: Whether a draw is given up for the least completion.
* `IsCandidate`: The rows that may be drawn for a partial row.

## Theorems

* `mem_allowedValues_iff`, `pickValue_mem`: A value that is drawn is one of those
  allowed.
* `drawFrom_cons`: What a draw does at one position.
* `drawFrom_sound`, `exists_drawFrom_eq`: What is drawn is right, and something is.
* `draw_spec`: A draw gives an allowed row that extends the partial row.
* `drawPool_spec`: So do all draws of a pool.
* `draw_total`: A draw gives a candidate where there is one, also when it runs dry.
-/

namespace Covering

variable {space : Space} {set : ExclusionSet} {fixed work : Partial}

/-- A drawn value is one of those it was drawn from. -/
theorem pickValue_mem (space : Space) (position : Nat) {values : List Nat} (h : values ≠ [])
    (random : Random) : (pickValue space position values random).1 ∈ values := by
  have hmem {i : Nat} (hi : i < values.length) : values.getD i 0 ∈ values := by
    rw [List.getD_eq_getElem?_getD, List.getElem?_eq_getElem hi, Option.getD_some]
    exact List.getElem_mem hi
  rw [pickValue]
  cases space.weightsAt? position with
  | none => exact hmem (random.below_lt (List.length_pos_iff.2 h))
  | some weights =>
      have hne : (values.map fun value => weights.getD value 0) ≠ [] :=
        fun hnil => h (List.map_eq_nil_iff.1 hnil)
      have hlt := random.weighted_lt hne
      rw [List.length_map] at hlt
      exact hmem hlt

/-- The values allowed at a position are those of the space that complete no
    exclusion there. -/
theorem mem_allowedValues_iff {p v : Nat} :
    v ∈ allowedValues space set work p ↔
      v < space.count p ∧ set.blocksAt (work.bind ⟨p, v⟩) p = false := by
  rw [allowedValues, List.mem_filter, List.mem_range, Bool.not_eq_true']

/-- The values allowed at a free position, each leading to a further state. -/
theorem ExclusionSet.GrownFrom.bind_allowed (hset : set.Indexed)
    (hwork : set.GrownFrom space fixed work) {p v : Nat} (hp : p < space.width)
    (hfree : (work.at? p).isSome = false)
    (hv : v ∈ allowedValues space set work p) :
    set.GrownFrom space fixed (work.bind ⟨p, v⟩) := by
  rcases mem_allowedValues_iff.1 hv with ⟨hcount, hblocks⟩
  refine hwork.bind hset hp ?_ hcount hblocks
  cases hat : fixed.at? p with
  | none => rfl
  | some w =>
      rw [hwork.keeps p w hat, Option.isSome_some] at hfree
      exact absurd hfree (by decide)

/-- What a draw does at one position: pass it over, give up and search, or bind it
    to an allowed value. -/
theorem drawFrom_cons (space : Space) (set : ExclusionSet) (fixed : Partial) (position : Nat)
    (rest : List Nat) (work : Partial) (random : Random) :
    ((work.at? position).isSome = true ∧
      drawFrom space set fixed (position :: rest) work random =
        drawFrom space set fixed rest work random) ∨
    ((work.at? position).isSome = false ∧ allowedValues space set work position = [] ∧
      drawFrom space set fixed (position :: rest) work random =
        (set.complete? space fixed, random)) ∨
    ∃ value random', (work.at? position).isSome = false ∧
      value ∈ allowedValues space set work position ∧
      pickValue space position (allowedValues space set work position) random =
        (value, random') ∧
      drawFrom space set fixed (position :: rest) work random =
        drawFrom space set fixed rest (work.bind ⟨position, value⟩) random' := by
  rw [drawFrom]
  cases hat : (work.at? position).isSome with
  | true => exact .inl ⟨rfl, if_pos rfl⟩
  | false =>
      rw [if_neg Bool.false_ne_true]
      by_cases hempty : allowedValues space set work position = []
      · exact .inr (.inl ⟨rfl, hempty, if_pos (List.isEmpty_iff.2 hempty)⟩)
      · have hvalue := pickValue_mem space position hempty random
        exact .inr (.inr ⟨_, _, rfl, hvalue, rfl, if_neg fun h => hempty (List.isEmpty_iff.1 h)⟩)

/-- Whatever a draw gives is an allowed row that extends the partial row it started
    with: every state on the way has grown out of that one, and so has what the
    search finds when the draw gives up. -/
theorem drawFrom_sound (hset : set.Indexed) (hfixed : space.AdmitsPartial fixed)
    {positions : List Nat} (hwork : set.GrownFrom space fixed work)
    (hpos : ∀ p ∈ positions, p < space.width) {random : Random} {row : Row}
    (h : (drawFrom space set fixed positions work random).1 = some row) :
    space.Allows set.lists row ∧ fixed.ExtendedBy row := by
  induction positions generalizing work random with
  | nil =>
      rw [drawFrom, Partial.toRow?_eq_some_iff] at h
      rw [h] at hwork
      exact hwork.allows hfixed.1
  | cons position rest ih =>
      rw [List.forall_mem_cons] at hpos
      rcases drawFrom_cons space set fixed position rest work random with
        ⟨-, heq⟩ | ⟨-, -, heq⟩ | ⟨value, random', hfree, hvalue, -, heq⟩
      · rw [heq] at h
        exact ih hwork hpos.2 h
      · -- The values drawn so far are dropped, and the search is right on its own.
        rw [heq] at h
        exact ExclusionSet.complete?_sound hset hfixed h
      · rw [heq] at h
        exact ih (hwork.bind_allowed hset hpos.1 hfree hvalue) hpos.2 h

/-- A draw that starts with a partial row that can be completed gives some row, as
    long as no position is free but those still to come. -/
theorem exists_drawFrom_eq (hset : set.Indexed) (hfixed : space.Completable set.lists fixed)
    {positions : List Nat} (hpos : ∀ p ∈ positions, p < work.length)
    (hwithin : work.FreeWithin positions) (random : Random) :
    ∃ row, (drawFrom space set fixed positions work random).1 = some row := by
  induction positions generalizing work random with
  | nil => exact hwithin.exists_toRow?
  | cons position rest ih =>
      rw [List.forall_mem_cons] at hpos
      rcases drawFrom_cons space set fixed position rest work random with
        ⟨hbound, heq⟩ | ⟨-, -, heq⟩ | ⟨value, random', -, -, -, heq⟩
      · rw [heq]
        exact ih hpos.2 (hwithin.skip hbound) random
      · -- No value is left here, but the fixed part can be completed from scratch.
        rw [heq]
        exact Option.isSome_iff_exists.1 (ExclusionSet.complete?_isSome hset hfixed)
      · rw [heq]
        refine ih ?_ (hwithin.bind hpos.1 value) random'
        rw [Partial.length_bind]
        exact hpos.2

/-- So whatever is drawn for a partial row without exclusion is right. -/
theorem draw_sound (hset : set.Indexed) (hfixed : set.GrownFrom space fixed fixed)
    {random : Random} {row : Row} (h : (draw space set fixed random).1 = some row) :
    space.Allows set.lists row ∧ fixed.ExtendedBy row := by
  refine drawFrom_sound hset hfixed.admits hfixed (fun p hp => ?_) h
  rw [← hfixed.admits.1]
  exact List.mem_range.1 hp

/-- A draw for a partial row that can be completed gives an allowed row that
    extends it. -/
theorem draw_spec (hset : set.Indexed) (hfixed : space.Completable set.lists fixed)
    (random : Random) :
    ∃ row, (draw space set fixed random).1 = some row ∧
      space.Allows set.lists row ∧ fixed.ExtendedBy row := by
  have hwork := ExclusionSet.grownFrom_of_completable hfixed
  rcases exists_drawFrom_eq hset hfixed (fun p hp => List.mem_range.1 hp) fixed.freeWithin_range
    random with ⟨row, hrow⟩
  exact ⟨row, hrow, draw_sound hset hwork hrow⟩

/-- As many candidates are drawn as were asked for, each an allowed row that
    extends the partial row. -/
theorem drawPool_spec (hset : set.Indexed) (hfixed : space.Completable set.lists fixed)
    (n : Nat) (random : Random) :
    (drawPool space set fixed n random).1.length = n ∧
      ∀ row ∈ (drawPool space set fixed n random).1,
        space.Allows set.lists row ∧ fixed.ExtendedBy row := by
  induction n generalizing random with
  | zero => exact ⟨rfl, fun _ h => absurd h List.not_mem_nil⟩
  | succ n ih =>
      rcases draw_spec hset hfixed random with ⟨row, hdraw, hrow⟩
      rcases ih (draw space set fixed random).2 with ⟨hlen, hrest⟩
      simp only [drawPool, hdraw, Option.toList_some, List.singleton_append, List.length_cons,
        hlen, List.forall_mem_cons, true_and]
      exact ⟨hrow, hrest⟩

/-- Whether a draw comes to a free position where the values drawn before it leave
    none. -/
def runsDry (space : Space) (set : ExclusionSet) : List Nat → Partial → Random → Bool
  | [], _, _ => false
  | position :: rest, work, random =>
    if (work.at? position).isSome then runsDry space set rest work random
    else
      let allowed := allowedValues space set work position
      allowed.isEmpty ||
        let (value, random) := pickValue space position allowed random
        runsDry space set rest (work.bind ⟨position, value⟩) random

/-- Then everything drawn is given up for the least completion of what was fixed. -/
theorem fst_drawFrom_of_runsDry {positions : List Nat} {random : Random}
    (h : runsDry space set positions work random = true) :
    (drawFrom space set fixed positions work random).1 = set.complete? space fixed := by
  induction positions generalizing work random with
  | nil => exact absurd h Bool.false_ne_true
  | cons position rest ih =>
      rw [runsDry] at h
      rcases drawFrom_cons space set fixed position rest work random with
        ⟨hbound, heq⟩ | ⟨-, -, heq⟩ | ⟨value, random', hfree, hvalue, hpick, heq⟩
      · rw [if_pos hbound] at h
        rw [heq]
        exact ih h
      · rw [heq]
      · -- There was a value to draw, so it is a later position that has none.
        rw [hfree, if_neg Bool.false_ne_true] at h
        simp only [hpick, Bool.or_eq_true, List.isEmpty_iff] at h
        rw [heq]
        exact ih (h.resolve_left (List.ne_nil_of_mem hvalue))

/-- The row is one that a draw may give: one of the space that has what is fixed
    and violates no exclusion. -/
structure IsCandidate (space : Space) (set : ExclusionSet) (fixed : Partial) (row : Row) :
    Prop where
  admits : space.admits row = true
  keeps : ∀ p v, fixed.at? p = some v → row[p]? = some v
  unviolated : set.violation? row = none

theorem isCandidate_iff {row : Row} (hlen : fixed.length = space.width) :
    IsCandidate space set fixed row ↔ space.Allows set.lists row ∧ fixed.ExtendedBy row := by
  constructor
  · intro h
    exact ⟨⟨h.admits, ExclusionSet.avoids_iff.2 h.unviolated⟩,
      (Space.length_of_admits h.admits).trans hlen.symm, h.keeps⟩
  · rintro ⟨⟨hrow, havoids⟩, -, hkeeps⟩
    exact ⟨hrow, hkeeps, ExclusionSet.avoids_iff.1 havoids⟩

/-- A draw is total and sound. Whenever there is some candidate for a partial row of
    the space, the draw gives one, whatever the weights and the stream are. When the
    values drawn first leave none for a later position, this is the least
    completion. And without knowing of a candidate, a partial row that does not
    violate an exclusion itself is drawn to a candidate or to nothing. -/
theorem draw_total {built : Space} {raw : List (List Binding)}
    (hset : ExclusionSet.ofLists built raw = .ok set) (space : Space) {fixed : Partial}
    (hlen : fixed.length = space.width)
    (hvalues : ∀ p v, fixed.at? p = some v → v < space.count p) (random : Random) :
    ((∃ row, IsCandidate space set fixed row) →
      ∃ row, (draw space set fixed random).1 = some row ∧ IsCandidate space set fixed row) ∧
    (runsDry space set (List.range fixed.length) fixed random = true →
      (draw space set fixed random).1 = set.complete? space fixed) ∧
    (set.blocksPartial fixed = false → ∀ row, (draw space set fixed random).1 = some row →
      IsCandidate space set fixed row) := by
  have hindexed := ExclusionSet.indexed_ofLists hset
  simp only [isCandidate_iff hlen]
  refine ⟨fun hfixed => draw_spec hindexed hfixed random, fst_drawFrom_of_runsDry,
    fun hblocks row hrow => ?_⟩
  exact draw_sound hindexed (.refl ⟨hlen, hvalues⟩ hblocks) hrow

/-- Four parameters, whose values are more or less likely. -/
def cornerSpace : Space where
  counts := [2, 2, 2, 2]
  weights := some [[3, 1], [2, 1], [1, 1], [1, 4]]
  counts_ne_nil := by decide
  counts_pos := by decide
  weights_shape := by decide
  weights_pos := by decide

/-- The third value must not be zero where the first one is, nor one where the
    second is zero and the last is one. -/
def cornerSet : ExclusionSet := .ofMembers 4 [⟨[⟨0, 0⟩, ⟨2, 0⟩]⟩, ⟨[⟨1, 0⟩, ⟨2, 1⟩, ⟨3, 1⟩]⟩]

theorem ofLists_corner : ExclusionSet.ofLists cornerSpace
    [[⟨0, 0⟩, ⟨2, 0⟩], [⟨1, 0⟩, ⟨2, 1⟩, ⟨3, 1⟩]] = .ok cornerSet := by
  cbv

/-- The last value is fixed, and the others are to be drawn. -/
def cornerFixed : Partial := [none, none, none, some 1]

theorem at?_cornerFixed {p v : Nat} (h : cornerFixed.at? p = some v) : p = 3 ∧ v = 1 := by
  match p, h with
  | 3, h => exact ⟨rfl, (Option.some.inj h).symm⟩

/-- The draw of a seed begins with zero twice, which leaves nothing for the third
    value, and still ends in a candidate. -/
theorem draw_total_corner :
    runsDry cornerSpace cornerSet [0, 1, 2, 3] cornerFixed (.ofSeed 2) = true ∧
      (draw cornerSpace cornerSet cornerFixed (.ofSeed 2)).1 = some [0, 1, 1, 1] ∧
      IsCandidate cornerSpace cornerSet cornerFixed [0, 1, 1, 1] := by
  have hvalues : ∀ p v, cornerFixed.at? p = some v → v < cornerSpace.count p := by
    intro p v hv
    rcases at?_cornerFixed hv with ⟨rfl, rfl⟩
    decide
  rcases draw_total ofLists_corner cornerSpace rfl hvalues (.ofSeed 2) with ⟨htotal, hdry, -⟩
  have hruns : runsDry cornerSpace cornerSet [0, 1, 2, 3] cornerFixed (.ofSeed 2) = true := by
    decide +kernel
  have hleast : cornerSet.complete? cornerSpace cornerFixed = some [0, 1, 1, 1] := by decide
  have hrow := (hdry hruns).trans hleast
  -- Another candidate is enough to know that the draw gives one.
  have hother : IsCandidate cornerSpace cornerSet cornerFixed [1, 0, 0, 1] := by
    refine ⟨by decide, fun p v hv => ?_, by decide⟩
    rcases at?_cornerFixed hv with ⟨rfl, rfl⟩
    rfl
  rcases htotal ⟨_, hother⟩ with ⟨row, hdraw, hcandidate⟩
  rw [hrow, Option.some.injEq] at hdraw
  subst hdraw
  exact ⟨hruns, hrow, hcandidate⟩

end Covering
