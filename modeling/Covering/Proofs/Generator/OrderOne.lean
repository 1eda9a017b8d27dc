import Covering.Proofs.Bound
import Covering.Proofs.Generator.Climb
import Covering.Proofs.Generator.Termination
import Covering.Proofs.Overflow
import Mathlib.Algebra.Order.BigOperators.Group.List

/-!
# Order one

At the least order a run that climbs wastes nothing: it returns as many rows as
the parameter with the most values has values, and no array has fewer.

An obligation of order one is one value of one parameter, and each parameter has
a table of its own for them. What touches a position is its table and no other,
so the best value there is one that no row has taken yet, if there is one left.
One sweep is enough to put such a value at every position where there is one,
and what later positions do cannot undo it (`exhausts_climb`). It makes no
difference which candidate the sweep starts from, and so none how candidates are
drawn and how ties between them are broken.

A row like this takes one from every table that has something left. All tables
go down together, and after `n` rows the table of a parameter with `c` values
has `c - n` open cells (`Levelled`). The rounds end when the last of them is
empty.

Exclusions would spoil this. They can block the new value of one position next
to that of another, and a sweep would have to leave one of the two behind.

## Main definitions

* `Ledger.Exhausts`: A row takes a cell from every table that has an open one.
* `Run.Levelled`: All tables have gone down by the number of rows.

## Theorems

* `trackedSubsets_one`: At order one the positions are the choices.
* `isOpenFor_bestValue`: The best value at a position is a new one.
* `isOpenFor_sweep`: A sweep puts new values at all its positions.
* `exhausts_climb`: So does a climb.
* `Levelled.round`: A round lowers all tables by one.
* `Loop.length_rows`: The loop adds rows until the last table is empty.
* `rowLowerBoundWith_of_check`: The bound of a request that passes its check.
* `run_order_one`: A run at order one has as few rows as there can be.
-/

namespace Covering

theorem choose_one {α : Type} (xs : List α) : choose 1 xs = xs.map ([·]) := by
  induction xs with
  | nil => rfl
  | cons x xs ih =>
      rw [choose_succ_cons, choose_zero, ih]
      rfl

/-- At order one every position is a choice. -/
theorem trackedSubsets_one (space : Space) :
    trackedSubsets space 1 [] = (List.range space.width).map ([·]) := by
  rw [trackedSubsets, extraSubsets_nil, List.append_nil, subsets, if_neg (by decide), choose_one]

theorem tupleCount_singleton (space : Space) (p : Nat) : tupleCount space [p] = space.count p :=
  Nat.mul_one _

namespace Table

section Single

variable {space : Space} {table : Table} {p : Nat} (h : table.Shaped space)
  (hp : table.positions = [p])

include h hp

/-- In the table of one position, cells are values. -/
theorem indexOf_single (row : Row) : table.indexOf row = row.getD p 0 := by
  rw [indexOf, h.strides, hp]
  exact Nat.mul_one _

/-- Some value is left when a cell is open. -/
theorem exists_isOpen_of_single (hopen : 0 < table.uncovered) :
    ∃ v < space.count p, table.isOpen v = true := by
  rw [h.uncovered, List.length_pos_iff_exists_mem] at hopen
  rcases hopen with ⟨v, hv⟩
  have hv' := Ledger.mem_openCells_iff.1 hv
  have hlt := lt_size_of_isOpen hv'
  rw [h.size, hp] at hlt
  exact ⟨v, hlt.trans_eq (Nat.mul_one _), hv'⟩

end Single

end Table

namespace Ledger

/-- The row has an open cell of every table that has one. -/
def Exhausts (ledger : Ledger) (row : Row) : Prop :=
  ∀ table ∈ ledger.tables, 0 < table.uncovered → table.isOpenFor row = true

/-- A row that exhausts the tables takes one cell from each, as far as there are
    any. -/
theorem map_uncovered_mark {space : Space} {choices : List (List Nat)} {ledger : Ledger}
    {row : Row} (h : ledger.WellFormed space choices) (hrow : ledger.Exhausts row) :
    (ledger.mark row).2.tables.map (·.uncovered) = ledger.tables.map (·.uncovered - 1) := by
  rw [tables_mark, List.map_map]
  refine List.map_congr_left fun table htable => ?_
  have hmark := Table.uncovered_mark (h.shaped table htable) row
  rw [Function.comp_apply]
  rcases Nat.eq_zero_or_pos table.uncovered with hzero | hpos
  · omega
  · rw [if_pos (hrow table htable hpos)] at hmark
    omega

section OrderOne

variable {space : Space} {ledger : Ledger} {set : ExclusionSet} {pinned : Partial} {row : Row}
  {table : Table} {p : Nat} (h : ledger.WellFormed space (trackedSubsets space 1 []))

include h

/-- At order one every table is that of one position. -/
theorem exists_positions_eq_single (htable : table ∈ ledger.tables) :
    ∃ p < space.width, table.positions = [p] := by
  have hmem : table.positions ∈ ledger.tables.map (·.positions) := List.mem_map_of_mem htable
  rw [h.positions, trackedSubsets_one, List.mem_map] at hmem
  rcases hmem with ⟨p, hp, hpositions⟩
  exact ⟨p, List.mem_range.1 hp, hpositions.symm⟩

/-- And a position has no other. -/
theorem eq_of_positions_eq {other : Table} (htable : table ∈ ledger.tables)
    (hother : other ∈ ledger.tables) (heq : other.positions = table.positions) :
    other = table := by
  have hnodup := nodup_trackedSubsets space 1 []
  rw [← h.positions] at hnodup
  exact List.inj_on_of_nodup_map hnodup hother htable heq

/-- What a row covers at a position is a cell of the position's table. -/
theorem scoreTouching_pos_iff (htable : table ∈ ledger.tables) (hp : table.positions = [p]) :
    0 < ledger.scoreTouching row p ↔ table.isOpenFor row = true := by
  rw [scoreTouching, List.countP_pos_iff]
  constructor
  · rintro ⟨other, hother, hcounts⟩
    rw [Bool.and_eq_true, List.contains_iff_mem] at hcounts
    rcases exists_positions_eq_single h hother with ⟨q, _, hq⟩
    rw [hq, List.mem_singleton] at hcounts
    rw [← eq_of_positions_eq h htable hother (by rw [hq, hp, hcounts.1])]
    exact hcounts.2
  · intro hopen
    refine ⟨table, htable, ?_⟩
    rw [Bool.and_eq_true, List.contains_iff_mem, hp]
    exact ⟨List.mem_singleton.2 rfl, hopen⟩

variable (hset : set.Indexed) (hfree : set.lists = []) (hunpinned : ∀ p, pinned.at? p = none)

include hset hfree

/-- As long as a position has a value left, its best value is such a value. -/
theorem isOpenFor_bestValue (hrow : space.Allows set.lists row) (htable : table ∈ ledger.tables)
    (hp : table.positions = [p]) (hleft : 0 < table.uncovered) :
    table.isOpenFor (row.set p (bestValue space set ledger row p)) = true := by
  have hshaped := h.shaped table htable
  rcases Table.exists_isOpen_of_single hshaped hp hleft with ⟨v, hv, hopen⟩
  have hwidth := Space.lt_width_of_lt_count hv
  have hlen : p < row.length := by
    rw [Space.length_of_admits hrow.1]
    exact hwidth
  -- Nothing is excluded, so the value that is left is tried.
  have hblocked : set.rowBlockedAt (row.set p v) p = false := by
    refine ExclusionSet.rowBlockedAt_of_avoids hset ?_
    rw [hfree]
    exact fun _ hlist => absurd hlist List.not_mem_nil
  have hnew : table.isOpenFor (row.set p v) = true := by
    rw [Table.isOpenFor, Table.indexOf_single hshaped hp, List.getD_eq_getElem?_getD,
      List.getElem?_set_self hlen]
    exact hopen
  rcases bestValue_contender ledger hset hrow hwidth with ⟨score, hcontender, hbest⟩
  have hle := hbest v hv hblocked
  have hscore := hcontender.score
  have hpos := (scoreTouching_pos_iff h htable hp).2 hnew
  refine (scoreTouching_pos_iff h htable hp).1 ?_
  simp only at hscore
  omega

omit h hset hfree in
/-- A sweep changes a row at its positions only. -/
theorem getElem?_sweep_of_not_mem {positions : List Nat} (hp : p ∉ positions) (row : Row) :
    (sweep space set ledger pinned positions row).1[p]? = row[p]? := by
  induction positions generalizing row with
  | nil => rfl
  | cons q rest ih =>
      rw [List.mem_cons, not_or] at hp
      rw [sweep]
      split
      · exact ih hp.2 row
      · exact (ih hp.2 _).trans (List.getElem?_set_ne (Ne.symm hp.1))

include hunpinned

/-- A sweep puts a new value at every position that it comes to and that has one
    left. -/
theorem isOpenFor_sweep {positions : List Nat} (hpos : ∀ q ∈ positions, q < space.width)
    (hrow : space.Allows set.lists row) (htable : table ∈ ledger.tables)
    (hp : table.positions = [p]) (hleft : 0 < table.uncovered) (hmem : p ∈ positions) :
    table.isOpenFor (sweep space set ledger pinned positions row).1 = true := by
  induction positions generalizing row with
  | nil => exact absurd hmem List.not_mem_nil
  | cons q rest ih =>
      rw [List.forall_mem_cons] at hpos
      have hfirst : (pinned.at? q).isSome = false := by rw [hunpinned q, Option.isSome_none]
      have hallows := (climbed_bestValue ledger hset hrow hpos.1 hfirst).allows
      rw [sweep, hfirst]
      simp only [Bool.false_eq_true, if_false]
      by_cases hrest : p ∈ rest
      · exact ih hpos.2 hallows hrest
      · -- The position is the first one, and the others leave it alone.
        rcases List.mem_cons.1 hmem with rfl | hmem
        · have hnew := isOpenFor_bestValue h hset hfree hrow htable hp hleft
          rw [Table.isOpenFor, Table.indexOf_single (h.shaped table htable) hp,
            List.getD_eq_getElem?_getD] at hnew ⊢
          rwa [getElem?_sweep_of_not_mem hrest]
        · exact absurd hmem hrest

/-- A climb of at least one pass ends with a row that exhausts the tables. It
    may take no pass where the row does so already. -/
theorem exhausts_climb (passes : Nat) (hrow : space.Allows set.lists row)
    (hstart : 0 < passes ∨ ledger.Exhausts row) :
    ledger.Exhausts (climb space set ledger pinned passes row).1 := by
  induction passes generalizing row with
  | zero => exact hstart.resolve_left (Nat.lt_irrefl 0)
  | succ passes ih =>
      rcases hsweep : sweep space set ledger pinned (List.range row.length) row with ⟨row', moves⟩
      have hexhausts : ledger.Exhausts row' := by
        intro table htable hleft
        rcases exists_positions_eq_single h htable with ⟨p, hp, hpositions⟩
        rw [Space.length_of_admits hrow.1] at hsweep
        have hopen := isOpenFor_sweep h hset hfree hunpinned (fun _ => List.mem_range.1) hrow
          htable hpositions hleft (List.mem_range.2 hp)
        rwa [hsweep] at hopen
      simp only [climb, hsweep]
      split
      · exact hexhausts
      · exact ih (pass_climbed hset hrow hsweep).allows (.inr hexhausts)

end OrderOne

end Ledger

/-- Nothing is bound where every position is free. -/
theorem at?_replicate_none (n p : Nat) : Partial.at? (List.replicate n none) p = none := by
  rw [Partial.at?, List.getElem?_replicate]
  split <;> rfl

/-- A request that excludes no combination has an empty set of exclusions. -/
theorem Generator.Accepted.exclusions_eq {g : Generator} (hg : g.Accepted []) :
    g.exclusions = .empty g.space :=
  (Except.ok.inj ((ExclusionSet.ofLists_nil g.space).symm.trans hg.exclusions)).symm

namespace Run

variable {g : Generator} {run : Run}

/-- Where nothing is excluded, nothing is struck out while a pool is drawn. -/
theorem pruned_drawAnchored (hempty : g.exclusions.isEmpty = true) (n : Nat) (run : Run) :
    (drawAnchored g n run).2.1 = false := by
  induction n generalizing run with
  | zero => rfl
  | succ n ih =>
      rw [drawAnchored]
      rcases run.ledger.randomUncovered run.random with ⟨_ | anchor, random⟩
      · rfl
      · simp only [hempty, Bool.not_true, Bool.false_and, Bool.false_eq_true, if_false]
        exact ih _

/-- All tables have gone down by the number of rows. -/
def Levelled (g : Generator) (run : Run) : Prop :=
  run.ledger.tables.map (·.uncovered) = g.space.counts.map (· - run.rows.length)

/-- Nothing remains once there are as many rows as any parameter has values. -/
theorem Levelled.remaining_eq_zero_iff (hlevel : Levelled g run) (h : Sound g run) :
    run.ledger.remaining = 0 ↔ ∀ count ∈ g.space.counts, count ≤ run.rows.length := by
  rw [h.books.remaining, hlevel, sumOf_eq_sum, List.sum_eq_zero_iff_forall_eq_nat,
    List.forall_mem_map]
  exact forall₂_congr fun count _ => Nat.sub_eq_zero_iff_le

section OrderOne

variable (hg : g.Accepted []) (horder : g.order = 1) (hsubmodels : g.submodels = [])

include hg horder hsubmodels

/-- Before the first row, a table has as many open cells as its parameter has
    values. -/
theorem levelled_start (seed : Nat) : Levelled g (start g seed) := by
  have htables : (start g seed).ledger.tables =
      (trackedSubsets g.space 1 []).map (Table.ofPositions g.space) := by
    rw [start, Ledger.start, hg.exclusions_eq, horder, hsubmodels]
    rfl
  have hrows : (start g seed).rows.length = 0 := rfl
  rw [Levelled, htables, hrows, trackedSubsets_one, List.map_map, List.map_map]
  simp only [Nat.sub_zero, List.map_id_fun', id_eq]
  rw [← Space.map_count_range]
  exact List.map_congr_left fun p _ => tupleCount_singleton g.space p

variable (hpool : 0 < g.settings.candidatePool) (hclimb : g.settings.refinement = .hillClimb)
  (hpasses : 0 < g.settings.refinePasses)

include hpool hclimb hpasses

/-- A round adds one row and lowers all tables by one. -/
theorem Levelled.round (hlevel : Levelled g run) (h : Sound g run)
    (hpos : 0 < run.ledger.remaining) :
    Levelled g (round g run) ∧ (round g run).rows.length = run.rows.length + 1 := by
  rcases hdrawn : drawAnchored g g.settings.candidatePool run with ⟨pool, pruned, after⟩
  have hkept : pruned = false := by
    have hfalse := pruned_drawAnchored (by rw [hg.exclusions_eq]; rfl) g.settings.candidatePool run
    rwa [hdrawn] at hfalse
  rcases addGreedy_choice hg h hdrawn with
    ⟨hanchored, ⟨hempty, _⟩ | ⟨candidate, chosen, hallows, _, hchosen, hstep⟩⟩
  · -- The pool is not empty, since nothing was struck out.
    rw [hkept] at hanchored
    rcases hanchored.found hpool hpos with hne | hpruned
    · exact absurd hempty hne
    · exact absurd hpruned (by decide)
  · have hledger : chosen.ledger = run.ledger := hchosen.ledger.trans (hanchored.untouched hkept)
    have hrows : chosen.rows = run.rows := hchosen.rows.trans hanchored.rows
    have hbooks := h.books
    rw [horder, hsubmodels] at hbooks
    have hexhausts := Ledger.exhausts_climb hbooks hg.indexed (by rw [hg.exclusions_eq]; rfl)
      (at?_replicate_none g.space.width) g.settings.refinePasses hallows (.inl hpasses)
    have hround : (Run.round g run).ledger = (run.ledger.mark (climb g.space g.exclusions run.ledger
          (List.replicate g.space.width none) g.settings.refinePasses candidate).1).2 ∧
        (Run.round g run).rows.length = run.rows.length + 1 := by
      rw [Run.round, hstep]
      simp only [refineAndAccept, hclimb, accept, hledger, hrows, List.length_append,
        List.length_singleton, and_self]
    refine ⟨?_, hround.2⟩
    rw [Levelled, hround.1, hround.2, Ledger.map_uncovered_mark hbooks hexhausts]
    have hone := congrArg (List.map (· - 1)) hlevel
    rwa [List.map_map, List.map_map] at hone

/-- The rounds end with as many rows as the parameter with the most values has
    values. -/
theorem Loop.length_rows {n : Nat} {run' : Run} (hloop : Loop g n run run')
    (hlevel : Levelled g run) (h : Sound g run) {most : Nat}
    (hmost : g.space.counts.max? = some most) (hle : run.rows.length ≤ most) :
    run'.rows.length = most := by
  rw [List.max?_eq_some_iff] at hmost
  induction hloop with
  | done hzero => exact Nat.le_antisymm hle ((hlevel.remaining_eq_zero_iff h).1 hzero most hmost.1)
  | @round _ run _ hpos _ ih =>
      rcases hlevel.round hg horder hsubmodels hpool hclimb hpasses h hpos with ⟨hround, hlength⟩
      refine ih hround (round_spec hg h).1 ?_
      -- Some parameter has more values than there are rows, and none more than the most.
      have hmore := (hlevel.remaining_eq_zero_iff h).not.1 (Nat.ne_of_gt hpos)
      rw [not_forall₂] at hmore
      rcases hmore with ⟨count, hcount, hlt⟩
      have hbound := hmost.2 count hcount
      omega

end OrderOne

end Run

namespace Generator

variable {g : Generator} {raw : List (List Binding)}

/-- A request that passes its check has a lower bound, and it is the greatest
    number of value tuples of a tracked choice: there is room for that, since
    there is room for the number of all obligations. -/
theorem rowLowerBoundWith_of_check (hg : g.Accepted raw) (hcheck : g.check = .ok ()) :
    ∃ most, (∃ positions ∈ trackedSubsets g.space g.order g.submodels,
        tupleCount g.space positions = most) ∧
      (∀ positions ∈ trackedSubsets g.space g.order g.submodels,
        tupleCount g.space positions ≤ most) ∧
      rowLowerBoundWith g.space g.order g.submodels = .ok most := by
  rcases rowLowerBoundWith_eq g.submodels hg.wellPosed.order_pos hg.wellPosed.order_le with
    ⟨most, ⟨positions, hpositions, hmost⟩, hgreatest, hbound⟩
  refine ⟨most, ⟨positions, hpositions, hmost⟩, hgreatest, ?_⟩
  have hfits : most < countLimit := by
    rcases bind_eq_ok_iff.1 hcheck with ⟨_, _, hcheck⟩
    rcases bind_eq_ok_iff.1 hcheck with ⟨total, htotal, _⟩
    by_contra hge
    have hle : most ≤ sumOf ((trackedSubsets g.space g.order g.submodels).map
        (tupleCount g.space)) := by
      rw [sumOf_eq_sum, ← hmost]
      exact List.le_sum_of_mem (List.mem_map_of_mem hpositions)
    rw [(obligationCountWith_spec hg.order g.submodels rfl).2 fun h => by omega] at htotal
    exact absurd htotal (by simp only [reduceCtorEq, not_false_eq_true])
  rw [hbound, Nat.min_eq_left (Nat.le_sub_one_of_lt hfits)]

/-- A run at order one has as few rows as there can be. Without exclusions,
    submodels and seed rows, and with candidates that are improved, it returns as
    many rows as the parameter with the most values has values, whatever the
    weights and the seed are. That is its lower bound, and rows of the space that
    cover as much are no fewer. -/
theorem run_order_one (hg : g.Accepted []) (horder : g.order = 1) (hsubmodels : g.submodels = [])
    (hseeds : g.seedRows = []) (hpool : 0 < g.settings.candidatePool)
    (hclimb : g.settings.refinement = .hillClimb) (hpasses : 0 < g.settings.refinePasses)
    {seed : Nat} {array : CoveringArray} {statistics : Statistics}
    (hrun : g.run seed = .ok (array, statistics)) :
    g.space.counts.max? = some array.rows.length ∧
      rowLowerBoundWith g.space g.order g.submodels = .ok array.rows.length ∧
      ∀ rows : List Row, (∀ row ∈ rows, g.space.admits row = true) →
        (∀ o ∈ g.tracked, o.MetBy rows) → array.rows.length ≤ rows.length := by
  rcases run_eq_ok_iff.1 hrun with ⟨hcheck, rfl, _⟩
  rcases rowLowerBoundWith_of_check hg hcheck with
    ⟨most, ⟨widest, hwidest, hmost⟩, hgreatest, hbound⟩
  have hmax : g.space.counts.max? = some most := by
    rw [horder, hsubmodels, trackedSubsets_one, List.mem_map] at hwidest
    rw [horder, hsubmodels, trackedSubsets_one, List.forall_mem_map] at hgreatest
    rw [← Space.map_count_range, List.max?_eq_some_iff, List.forall_mem_map]
    rcases hwidest with ⟨p, hp, rfl⟩
    simp only [tupleCount_singleton] at hmost hgreatest
    exact ⟨List.mem_map.2 ⟨p, hp, hmost⟩, hgreatest⟩
  have hlength : (Run.complete g seed).rows.length = most := by
    rcases Run.loop_complete hg hcheck seed with ⟨n, _, hloop⟩
    rw [Run.seeded, hseeds] at hloop
    exact hloop.length_rows hg horder hsubmodels hpool hclimb hpasses
      (Run.levelled_start hg horder hsubmodels seed) (Run.sound_start hg seed) hmax (Nat.zero_le _)
  rw [hlength]
  refine ⟨hmax, hbound, fun rows hrows hmet => ?_⟩
  have hle := tupleCount_le_length hg.wellPosed.submodels_ok
    (fun row hrow => Space.length_of_admits (hrows row hrow)) hmet hwidest
  rwa [hmost] at hle

/-- A space of two values and three, and one of the three is drawn most of the
    time. -/
def unevenSpace : Space where
  counts := [2, 3]
  weights := some [[1, 1], [90, 9, 1]]
  counts_ne_nil := by decide
  counts_pos := by decide
  weights_shape := by
    rintro lists ⟨⟩
    rfl
  weights_pos := by
    rintro lists ⟨⟩
    decide

/-- A request for its values, with no choice among candidates. -/
def unevenSample : Generator where
  space := unevenSpace
  order := 1
  exclusions := .empty unevenSpace
  seedRows := []
  submodels := []
  settings := { candidatePool := 1, refinePasses := 1 }

/-- Three rows are enough for them. A candidate came with a value that an earlier
    row had, and was improved. -/
theorem run_order_one_sample :
    ∃ array statistics, unevenSample.run 1 = .ok (array, statistics) ∧
      statistics.refineMoves = 1 ∧ some 3 = some array.rows.length ∧
        rowLowerBoundWith unevenSpace 1 [] = .ok array.rows.length := by
  have haccepted : unevenSample.Accepted [] :=
    ⟨rfl, ExclusionSet.ofLists_nil unevenSpace, fun _ hs => absurd hs List.not_mem_nil⟩
  have hrun : unevenSample.run 1 = .ok
      (⟨[2, 3], 1, 1, [], [[1, 0], [0, 1], [1, 2]]⟩,
        { obligationsTotal := 5, rows := 3, candidatesScored := 3, refineMoves := 1 }) := by
    decide +kernel
  rcases run_order_one haccepted rfl rfl rfl (by decide) rfl (by decide) hrun with
    ⟨hmax, hbound, _⟩
  exact ⟨_, _, hrun, rfl, hmax, hbound⟩

end Generator

end Covering
