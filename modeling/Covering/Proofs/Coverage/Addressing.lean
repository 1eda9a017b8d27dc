import Covering.Proofs.Coverage.History
import Covering.Proofs.InOrder
import Mathlib.Algebra.BigOperators.Group.List.Lemmas
import Mathlib.Algebra.Order.BigOperators.Group.List
import Mathlib.Algebra.Order.BigOperators.GroupWithZero.List
import Mathlib.Algebra.Order.Ring.Nat
import Mathlib.Data.Set.Function

/-!
# Cells by number

A cell is found in two ways. In a table, a number stands for a value tuple, in
mixed radix. In a ledger, a number that was drawn stands for one of the cells that
are still open. Both are shortcuts past lists, and both agree with the lists.

Tables are addressed so that the order of cells is the order of obligations. The
arithmetic behind it cannot overflow once there is a table at all: a stride is the
product of some of the counts, and every count is positive, so it divides the size
of the table (`stride_le_size`). The index of a row is below the size, and so is the
sum of any part of what is added up for it (`sumOf_part_lt_size`). Any part means
that the results on the way are included, from whichever end the numbers are taken.

Open cells are found by skipping whole tables. This relies on the counts that
tables keep, and these are right in every ledger that rows and struck-out
obligations lead to (`Reachable.wellFormed`). So a draw below what remains is a place
in the list of open cells, which has every open cell once, in order.

## Main definitions

* `Table.terms`: What is added up for the index of a row.
* `Table.Addresses`: Cells are numbered as the value tuples are.
* `Table.StaysBelow`: No result on the way exceeds the size of the table.
* `CellRef.Before`: The order of cells.

## Theorems

* `Table.addresses_of_shaped`, `Table.staysBelow_of_shaped`: A table in shape is
  addressed in order, without leaving its size.
* `Ledger.map_obligationAt_uncoveredCells`: The list of open cells is that of open
  obligations.
* `Ledger.pairwise_uncoveredCells`: It is in order.
* `Ledger.cells_numbered_in_order`: How the cells of a ledger are addressed.
* `Ledger.randomUncovered_nth`: A draw finds the cell at its place in the list.
-/

namespace Covering

/-- A part of some positive numbers has no greater product. -/
theorem productOf_le_of_sublist {part rs : List Nat} (h : ∀ r ∈ rs, 0 < r)
    (hpart : part.Sublist rs) : productOf part ≤ productOf rs := by
  rw [productOf_eq_prod, productOf_eq_prod]
  exact Nat.le_of_dvd (List.prod_pos h) hpart.prod_dvd_prod

theorem sumOf_le_of_sublist {part ns : List Nat} (hpart : part.Sublist ns) :
    sumOf part ≤ sumOf ns := by
  rw [sumOf_eq_sum, sumOf_eq_sum]
  exact hpart.sum_le_sum fun n _ => Nat.zero_le n

namespace Table

/-- What is added up for the index of a row. -/
def terms (table : Table) (row : Row) : List Nat :=
  List.zipWith (fun position stride => row.getD position 0 * stride) table.positions table.strides

/-- The cells of a table are numbered as the value tuples of its positions are.
    Going through the numbers goes through the tuples as successors do; each number
    stands for one tuple and each tuple has one number; and the number that a row
    of the space gets is that of the only obligation of the table that it
    satisfies. -/
structure Addresses (space : Space) (table : Table) : Prop where
  positions_eq : ∀ i, (table.obligationAt i).positions = table.positions
  enumerates : Enumerates (Tuple.next? (table.positions.map space.count))
    (Tuple.first? (table.positions.map space.count))
    (fun values => List.Forall₂ (fun v p => v < space.count p) values table.positions)
    ((List.range table.cells.size).map fun i => (table.obligationAt i).values)
  bijOn : Set.BijOn (fun i => (table.obligationAt i).values) {i | i < table.cells.size}
    {values | List.Forall₂ (fun v p => v < space.count p) values table.positions}
  indexOf_lt : ∀ row, space.admits row = true → table.indexOf row < table.cells.size
  satisfiedBy_iff : ∀ row, space.admits row = true → ∀ i, i < table.cells.size →
    ((table.obligationAt i).satisfiedBy row = true ↔ i = table.indexOf row)

/-- No result on the way to a stride, to the size of the table or to the index of
    a row exceeds the size. -/
structure StaysBelow (space : Space) (table : Table) : Prop where
  stride_le : ∀ stride ∈ table.strides, stride ≤ table.cells.size
  product_le : ∀ part : List Nat, part.Sublist (table.positions.map space.count) →
    productOf part ≤ table.cells.size
  sum_lt : ∀ row, space.admits row = true → ∀ part : List Nat, part.Sublist (table.terms row) →
    sumOf part < table.cells.size

/-- A stride is the product of the radices behind its own. -/
theorem exists_suffix_of_mem_stridesOf {rs : List Nat} {s : Nat} (h : s ∈ stridesOf rs) :
    ∃ part, part <:+ rs ∧ productOf part = s := by
  induction rs with
  | nil => exact absurd h List.not_mem_nil
  | cons r rs ih =>
      rw [stridesOf, List.mem_cons] at h
      rcases h with rfl | h
      · exact ⟨rs, List.suffix_cons r rs, rfl⟩
      · rcases ih h with ⟨part, hpart, heq⟩
        exact ⟨part, hpart.trans (List.suffix_cons r rs), heq⟩

section Shaped

variable {space : Space} {table : Table} {row : Row}

theorem Shaped.count_pos (h : table.Shaped space) :
    ∀ r ∈ table.positions.map space.count, 0 < r := by
  rw [List.forall_mem_map]
  exact fun p hp => space.count_pos (h.choice.lt_width p hp)

theorem product_le_size (h : table.Shaped space) {part : List Nat}
    (hpart : part.Sublist (table.positions.map space.count)) :
    productOf part ≤ table.cells.size := by
  rw [h.size]
  exact productOf_le_of_sublist h.count_pos hpart

theorem stride_le_size (h : table.Shaped space) {stride : Nat} (hstride : stride ∈ table.strides) :
    stride ≤ table.cells.size := by
  rw [h.strides] at hstride
  rcases exists_suffix_of_mem_stridesOf hstride with ⟨part, hpart, rfl⟩
  exact product_le_size h hpart.sublist

/-- What is added up for an index stays below the size of the table, in part and
    as a whole. -/
theorem sumOf_part_lt_size (h : table.Shaped space) (hrow : space.admits row = true)
    {part : List Nat} (hpart : part.Sublist (table.terms row)) :
    sumOf part < table.cells.size :=
  calc sumOf part ≤ sumOf (table.terms row) := sumOf_le_of_sublist hpart
    _ = table.indexOf row := rfl
    _ < table.cells.size := indexOf_lt h hrow

theorem staysBelow_of_shaped (h : table.Shaped space) : table.StaysBelow space :=
  ⟨fun _ => stride_le_size h, fun _ => product_le_size h,
    fun _ hrow _ => sumOf_part_lt_size h hrow⟩

/-- Numbers and tuples correspond, each number being the index of its tuple. -/
theorem bijOn_values (h : table.Shaped space) :
    Set.BijOn (fun i => (table.obligationAt i).values) {i | i < table.cells.size}
      {values | values ∈ product (table.positions.map space.count)} := by
  have hmaps : Set.MapsTo (fun i => (table.obligationAt i).values) {i | i < table.cells.size}
      {values | values ∈ product (table.positions.map space.count)} := by
    intro i hi
    rw [Set.mem_ofPred_eq, h.size] at hi
    change decode i table.strides ∈ product (table.positions.map space.count)
    rw [h.strides]
    exact decode_mem_product hi
  have hback : Set.MapsTo (encode · table.strides)
      {values | values ∈ product (table.positions.map space.count)} {i | i < table.cells.size} := by
    intro values hvalues
    rw [Set.mem_ofPred_eq, h.size, h.strides]
    exact encode_lt hvalues
  -- Reading a number off and putting it together again undo each other.
  have hinverse : Set.InvOn (encode · table.strides) (fun i => (table.obligationAt i).values)
      {i | i < table.cells.size} {values | values ∈ product (table.positions.map space.count)} := by
    constructor
    · intro i hi
      rw [Set.mem_ofPred_eq, h.size] at hi
      change encode (decode i table.strides) table.strides = i
      rw [h.strides, encode_decode hi]
    · intro values hvalues
      change decode (encode values table.strides) table.strides = values
      rw [h.strides, decode_encode hvalues]
  exact hinverse.bijOn hmaps hback

theorem map_values_range (h : table.Shaped space) :
    ((List.range table.cells.size).map fun i => (table.obligationAt i).values) =
      tuples (table.positions.map space.count) := by
  rw [h.choice.tuples, ← map_decode_range, h.size, ← h.strides]
  rfl

theorem addresses_of_shaped (h : table.Shaped space) : table.Addresses space := by
  -- Without positions there would be one empty tuple, but no enumeration of it.
  have hne : table.positions.map space.count ≠ [] :=
    fun hmap => h.choice.ne_nil (List.map_eq_nil_iff.1 hmap)
  have hbij := bijOn_values h
  simp only [mem_product_map_iff] at hbij
  have htuples := enumerates_tuples (table.positions.map space.count)
  simp only [List.forall₂_map_right_iff, ne_eq, hne, not_false_eq_true, true_and,
    ← map_values_range h] at htuples
  exact ⟨fun _ => rfl, htuples, hbij, fun _ => indexOf_lt h,
    fun _ hrow _ => satisfiedBy_obligationAt_iff h hrow⟩

end Shaped

/-- The open cells of a table have its open obligations. -/
theorem map_obligationAt_openCells (table : Table) :
    table.openCells.map table.obligationAt =
      (table.entries.filter (·.2 = .uncovered)).map (·.1) := by
  rw [openCells, entries, List.filter_map, List.map_map]
  refine congrArg (List.map table.obligationAt) (List.filter_congr fun i hi => ?_)
  rw [List.mem_range] at hi
  rw [Bool.eq_iff_iff, isOpen_iff, Function.comp_apply, decide_eq_true_eq,
    Array.getElem?_eq_getElem hi, Option.getD_some, Option.some.injEq]

end Table

/-- The order of cells: by table, and within a table by number. -/
def CellRef.Before (a b : CellRef) : Prop :=
  a.table < b.table ∨ a.table = b.table ∧ a.cell < b.cell

namespace Ledger

/-- The open cells, listed, have the open obligations, in their order. -/
theorem map_obligationAt_uncoveredCells (ledger : Ledger) :
    ledger.uncoveredCells.map ledger.obligationAt =
      (ledger.entries.filter (·.2 = .uncovered)).map (·.1) := by
  have htable : ∀ entry ∈ ledger.tables.zipIdx, (openRefs entry).map ledger.obligationAt =
      (entry.1.entries.filter (·.2 = .uncovered)).map (·.1) := by
    rintro ⟨table, t⟩ hentry
    have hget : ledger.tables[t]? = some table := List.mk_mem_zipIdx_iff_getElem?.1 hentry
    have hcell (cell : Nat) : ledger.obligationAt ⟨t, cell⟩ = table.obligationAt cell :=
      obligationAt_eq hget
    rw [openRefs, List.map_map, ← Table.map_obligationAt_openCells]
    exact List.map_congr_left fun cell _ => hcell cell
  rw [uncoveredCells, List.map_flatMap, List.flatMap_congr htable, entries, List.filter_flatMap,
    List.map_flatMap]
  conv => rhs; rw [← List.zipIdx_map_fst 0 ledger.tables, List.flatMap_map]

/-- The list of open cells goes from table to table, and in each of them up. -/
theorem pairwise_uncoveredCells (ledger : Ledger) :
    ledger.uncoveredCells.Pairwise CellRef.Before := by
  have htables : ledger.tables.zipIdx.Pairwise fun a b => a.2 < b.2 := by
    rw [← List.pairwise_map (f := Prod.snd), List.zipIdx_map_snd]
    exact List.pairwise_lt_range'
  rw [uncoveredCells, List.pairwise_flatMap]
  -- The cells of a block are in one table, and those of the next in a later one.
  refine ⟨fun entry _ => ?_, htables.imp fun hlt a ha b hb => ?_⟩
  · have hcells : entry.1.openCells.Pairwise (· < ·) := List.pairwise_lt_range.filter _
    exact hcells.map _ fun c d hlt => .inr ⟨rfl, hlt⟩
  · rcases List.mem_map.1 ha with ⟨c, _, rfl⟩
    rcases List.mem_map.1 hb with ⟨d, _, rfl⟩
    exact .inl hlt

/-- How the cells of a ledger are numbered. In every ledger that rows and
    struck-out obligations lead to, there is one table for each tracked choice of
    positions, in order. In each table the numbers stand for the value tuples in
    their order, a row of the space satisfies the obligation of its own cell and no
    other, and no result on the way to a stride, the size or an index exceeds the
    size. At the start of a run without exclusions, the open cells are the
    obligations of the space as successors run through them, and then those on the
    choices that submodels add. -/
theorem cells_numbered_in_order (space : Space) (order : Nat) {submodels : List Submodel}
    (hsub : ∀ s ∈ submodels, s.check space = .ok ()) (exclusions : ExclusionSet) :
    (∀ ledger, Reachable space order submodels exclusions ledger →
      ledger.tables.map (·.positions) = trackedSubsets space order submodels ∧
      ∀ table ∈ ledger.tables, table.Addresses space ∧ table.StaysBelow space) ∧
    (exclusions.isEmpty = true →
      let first := start space order submodels exclusions
      first.uncoveredCells.map first.obligationAt =
          obligations space order ++
            (extraSubsets order submodels).flatMap (obligationsOn space) ∧
        ∀ n, walk (Obligation.next? space) n (Obligation.first? space order) =
          (obligations space order).take n) := by
  refine ⟨fun ledger hledger => ⟨hledger.positions, fun table htable => ?_⟩, fun hempty => ?_⟩
  · have hshaped := (hledger.wellFormed hsub).shaped table htable
    exact ⟨Table.addresses_of_shaped hshaped, Table.staysBelow_of_shaped hshaped⟩
  · intro first
    refine ⟨?_, (visits_obligations space order).walk_eq⟩
    rcases start_entries space order submodels exclusions
      fun _ h => choice_of_mem_trackedSubsets hsub h with ⟨hbooks, hcells⟩
    -- Nothing is blocked, so every cell is open.
    have hopen : ∀ e ∈ first.entries, decide (e.2 = .uncovered) = true := by
      intro e he
      have hblocks : exclusions.blocksObligation e.1 = false := by
        rw [ExclusionSet.blocksObligation, List.isEmpty_iff.1 hempty]
        rfl
      rw [decide_eq_true_eq, hcells e he, hblocks]
      rfl
    rw [map_obligationAt_uncoveredCells, List.filter_eq_self.2 hopen, map_fst_entries hbooks,
      trackedSubsets, List.flatMap_append, obligations]

/-- Three parameters of different sizes, one of which has a single value. -/
def mixedSpace : Space where
  counts := [2, 1, 3]
  weights := none
  counts_ne_nil := by decide
  counts_pos := by decide
  weights_shape := Space.weights_shape_none _
  weights_pos := Space.weights_pos_none

/-- All three of them are to be covered together. -/
def mixedSubmodels : List Submodel := [⟨[0, 1, 2], 3⟩]

theorem check_mixedSubmodels : ∀ s ∈ mixedSubmodels, s.check mixedSpace = .ok () := by
  rw [mixedSubmodels, List.forall_mem_singleton]
  rfl

/-- The books of its pairs, and of all three together, once a row is entered. -/
def mixedLedger : Ledger :=
  ((start mixedSpace 2 mixedSubmodels (.empty mixedSpace)).mark [0, 0, 2]).2

theorem reachable_mixedLedger :
    Reachable mixedSpace 2 mixedSubmodels (.empty mixedSpace) mixedLedger :=
  .mark .start (by decide)

/-- In the table of all three, the fifth cell is that of a row, and the stride of
    the single value is no reason to skip a cell. -/
theorem cells_numbered_in_order_mixed :
    (∃ table ∈ mixedLedger.tables, table.strides = [3, 3, 1] ∧ table.indexOf [1, 0, 1] = 4 ∧
      (table.obligationAt 4).satisfiedBy [1, 0, 1] = true) ∧
    (start mixedSpace 2 mixedSubmodels (.empty mixedSpace)).uncoveredCells.map
        (start mixedSpace 2 mixedSubmodels (.empty mixedSpace)).obligationAt =
      obligations mixedSpace 2 ++ obligationsOn mixedSpace [0, 1, 2] := by
  rcases cells_numbered_in_order mixedSpace 2 check_mixedSubmodels (.empty mixedSpace) with
    ⟨htables, hfirst⟩
  have haddresses := (htables mixedLedger reachable_mixedLedger).2
  constructor
  · obtain ⟨table, htable, hstrides, hindex, hsize⟩ : ∃ table ∈ mixedLedger.tables,
        table.strides = [3, 3, 1] ∧ table.indexOf [1, 0, 1] = 4 ∧ 4 < table.cells.size := by
      decide +kernel
    exact ⟨table, htable, hstrides, hindex,
      ((haddresses table htable).1.satisfiedBy_iff _ (by decide) 4 hsize).2 hindex.symm⟩
  · have hextra : extraSubsets 2 mixedSubmodels = [[0, 1, 2]] := by decide +kernel
    rw [(hfirst rfl).1, hextra, List.flatMap_singleton]

/-- What a draw finds. In every ledger that rows and struck-out obligations lead
    to, the list of open cells has each of them once, in order, and is as long as
    the number of those that remain. When none remain there is nothing to find, and
    the stream stays as it is. Otherwise the stream advances once, and the cell that
    is found is the one at the drawn place of the list: it is open, and its
    obligation stands in the books as uncovered. -/
theorem randomUncovered_nth {space : Space} {order : Nat} {submodels : List Submodel}
    {exclusions : ExclusionSet} {ledger : Ledger} (hsub : ∀ s ∈ submodels, s.check space = .ok ())
    (h : Reachable space order submodels exclusions ledger) (random : Random) :
    (ledger.uncoveredCells.length = ledger.remaining ∧
      ledger.uncoveredCells.Pairwise CellRef.Before ∧
      ∀ ref, ref ∈ ledger.uncoveredCells ↔ ledger.cellAt? ref = some .uncovered) ∧
    (ledger.remaining = 0 → ledger.randomUncovered random = (none, random)) ∧
    (0 < ledger.remaining → ∃ ref,
      ledger.uncoveredCells[(random.below ledger.remaining).1]? = some ref ∧
      ledger.randomUncovered random = (some ref, random.advance) ∧
      ledger.cellAt? ref = some .uncovered ∧
      (ledger.obligationAt ref, .uncovered) ∈ ledger.entries) := by
  have hbooks := h.wellFormed hsub
  have hlen := length_uncoveredCells hbooks
  have hmem (ref : CellRef) :
      ref ∈ ledger.uncoveredCells ↔ ledger.cellAt? ref = some .uncovered :=
    mem_uncoveredCells_iff.trans isUncovered_iff_cellAt?
  refine ⟨⟨hlen, pairwise_uncoveredCells ledger, hmem⟩, fun hzero => ?_, fun hpos => ?_⟩
  · rw [randomUncovered, if_pos hzero]
  · -- The drawn place lies in the list, which is as long as what remains.
    have hlt : (random.below ledger.remaining).1 < ledger.uncoveredCells.length := by
      rw [hlen]
      exact random.below_lt hpos
    have hopen := (hmem _).1 (List.getElem_mem hlt)
    have hget := List.getElem?_eq_getElem hlt
    refine ⟨_, hget, ?_, hopen, mem_entries_of_cellAt? hopen⟩
    rw [randomUncovered_eq_getElem? hbooks hpos, hget]

/-- With one cell covered in each table and another struck out, the draw of a seed
    goes past three tables, and past a covered cell of the last one. -/
theorem randomUncovered_nth_mixed :
    (mixedLedger.exclude ⟨1, 0⟩).randomUncovered (Random.ofSeed 3) =
        (some ⟨3, 4⟩, (Random.ofSeed 3).advance) ∧
      (mixedLedger.exclude ⟨1, 0⟩).cellAt? ⟨3, 4⟩ = some .uncovered ∧
      (mixedLedger.exclude ⟨1, 0⟩).cellAt? ⟨3, 2⟩ = some .covered ∧
      (mixedLedger.exclude ⟨1, 0⟩).cellAt? ⟨1, 0⟩ = some .excluded := by
  have hpos : 0 < (mixedLedger.exclude ⟨1, 0⟩).remaining := by decide +kernel
  rcases (randomUncovered_nth check_mixedSubmodels (reachable_mixedLedger.exclude ⟨1, 0⟩)
    (Random.ofSeed 3)).2.2 hpos with ⟨ref, hget, hdraw, hopen, _⟩
  have hplace : (mixedLedger.exclude ⟨1, 0⟩).uncoveredCells[
      ((Random.ofSeed 3).below (mixedLedger.exclude ⟨1, 0⟩).remaining).1]? = some ⟨3, 4⟩ := by
    decide +kernel
  rw [hplace, Option.some.injEq] at hget
  subst hget
  exact ⟨hdraw, hopen, by decide +kernel, by decide +kernel⟩

end Ledger

end Covering
