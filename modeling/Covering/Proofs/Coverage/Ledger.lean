import Covering.Coverage.Ledger
import Covering.Proofs.Coverage.Table
import Covering.Proofs.Random

/-!
# The ledger keeps its books

The totals of a ledger are those of its tables, whatever rows are marked and
whatever obligations are struck out.

As with one table, a ledger is read as the list of its obligations with a cell
for each, `Ledger.entries`. `WellFormed` says that this list enumerates the
tracked obligations and that the totals count it. A cell is named by a
reference where the run has to point at one; references to uncovered cells and
uncovered entries correspond (`mem_entries_uncovered_iff`).

How a ledger may change is said once for both views. Marking a row covers the
open entries that the row satisfies, and lowers what remains by the row's score
(`entries_mark`, `remaining_mark`). Striking an uncovered cell out replaces one
entry and lowers what remains by one (`entries_exclude`, `remaining_exclude`).
No step ever opens a cell again.

## Main definitions

* `Ledger.entries`: The obligations of a ledger, each with its cell.
* `Ledger.WellFormed`: A ledger enumerates obligations and counts them.
* `Ledger.Reachable`: The ledgers that rows and struck-out obligations lead to.

## Theorems

* `map_fst_entries`: A ledger has the obligations of its choices.
* `wellFormed_mark`, `wellFormed_exclude`: Steps keep the books.
* `remaining_mark`, `remaining_exclude`: What a step takes from what remains.
* `isUncovered_mark`, `isUncovered_exclude`: Which cells a step closes.
* `mem_uncoveredCells_iff`, `length_uncoveredCells`: What remains, listed.
* `nthUncovered?_eq`: Skipping whole tables finds the same cell.
* `randomUncovered_eq_getElem?`, `randomUncovered_eq`: A draw from what remains
  finds an uncovered cell, by its place in the list.
* `start_entries`: At the start exactly the blocked obligations are excluded.
* `Reachable.positions`, `Reachable.wellFormed`: A ledger keeps a table for each
  choice of positions, and its books.
-/

namespace Covering

namespace Ledger

/-- The obligations of a ledger, in order, each with its cell. -/
def entries (ledger : Ledger) : List (Obligation × Cell) := ledger.tables.flatMap Table.entries

/-- The ledger enumerates the obligations on the given choices of positions of
    the space, and its totals count them. -/
structure WellFormed (space : Space) (choices : List (List Nat)) (ledger : Ledger) : Prop where
  positions : ledger.tables.map (·.positions) = choices
  shaped : ∀ table ∈ ledger.tables, table.Shaped space
  total : ledger.total = ledger.entries.length
  remaining : ledger.remaining = sumOf (ledger.tables.map (·.uncovered))
  excluded : ledger.excluded = cellCount .excluded ledger.entries

theorem isUncovered_iff {ledger : Ledger} {ref : CellRef} :
    ledger.isUncovered ref = true ↔
      ∃ table, ledger.tables[ref.table]? = some table ∧ table.isOpen ref.cell = true := by
  rw [isUncovered, tableAt?, Option.any_eq_true]

theorem obligationAt_eq {ledger : Ledger} {ref : CellRef} {table : Table}
    (h : ledger.tables[ref.table]? = some table) :
    ledger.obligationAt ref = table.obligationAt ref.cell := by
  rw [obligationAt, tableAt?, h, Option.map_some, Option.getD_some]

section Refs

variable {ledger : Ledger} {ref : CellRef}

theorem mem_openCells_iff {table : Table} {i : Nat} :
    i ∈ table.openCells ↔ table.isOpen i = true := by
  rw [Table.openCells, List.mem_filter, List.mem_range]
  exact ⟨fun h => h.2, fun h => ⟨Table.lt_size_of_isOpen h, h⟩⟩

/-- What remains, listed, is what is uncovered. -/
theorem mem_uncoveredCells_iff : ref ∈ ledger.uncoveredCells ↔ ledger.isUncovered ref = true := by
  rw [uncoveredCells, List.mem_flatMap, isUncovered_iff]
  constructor
  · rintro ⟨⟨table, index⟩, hentry, href⟩
    rcases List.mem_map.1 href with ⟨cell, hcell, rfl⟩
    exact ⟨table, List.mk_mem_zipIdx_iff_getElem?.1 hentry, mem_openCells_iff.1 hcell⟩
  · rintro ⟨table, htable, hopen⟩
    exact ⟨(table, ref.table), List.mk_mem_zipIdx_iff_getElem?.2 htable,
      List.mem_map.2 ⟨ref.cell, mem_openCells_iff.2 hopen, rfl⟩⟩

/-- Uncovered entries are those of uncovered cells. -/
theorem mem_entries_uncovered_iff {o : Obligation} :
    (o, .uncovered) ∈ ledger.entries ↔
      ∃ ref, ledger.isUncovered ref = true ∧ ledger.obligationAt ref = o := by
  rw [entries, List.mem_flatMap]
  constructor
  · rintro ⟨table, htable, hentry⟩
    rcases List.mem_iff_getElem.1 htable with ⟨t, ht, rfl⟩
    rcases List.mem_map.1 hentry with ⟨i, hi, heq⟩
    rw [List.mem_range] at hi
    rw [Prod.mk.injEq, Array.getElem?_eq_getElem hi, Option.getD_some] at heq
    have hget := List.getElem?_eq_getElem ht
    refine ⟨⟨t, i⟩, isUncovered_iff.2 ⟨_, hget, ?_⟩, (obligationAt_eq hget).trans heq.1⟩
    rw [Table.isOpen_iff, Array.getElem?_eq_getElem hi, heq.2]
  · rintro ⟨ref, huncovered, rfl⟩
    rcases isUncovered_iff.1 huncovered with ⟨table, htable, hopen⟩
    refine ⟨table, List.mem_of_getElem? htable, List.mem_map.2 ⟨ref.cell,
      List.mem_range.2 (Table.lt_size_of_isOpen hopen), ?_⟩⟩
    rw [obligationAt_eq htable, Table.isOpen_iff.1 hopen, Option.getD_some]

/-- Striking an uncovered cell out replaces its table by one with the cell
    closed. -/
theorem tables_exclude {table : Table} (htable : ledger.tables[ref.table]? = some table)
    (hopen : table.isOpen ref.cell = true) :
    ∃ before after, before.length = ref.table ∧ ledger.tables = before ++ table :: after ∧
      (ledger.exclude ref).tables = before ++ table.close ref.cell .excluded :: after := by
  rcases List.getElem?_eq_some_iff.1 htable with ⟨hlt, hget⟩
  refine ⟨ledger.tables.take ref.table, ledger.tables.drop (ref.table + 1),
    List.length_take_of_le (Nat.le_of_lt hlt), ?_, ?_⟩
  · rw [← hget, List.getElem_cons_drop, List.take_append_drop]
  · rw [exclude, if_pos (isUncovered_iff.2 ⟨table, htable, hopen⟩)]
    simp only [List.modify_eq_take_cons_drop hlt, hget]

theorem positions_exclude (ledger : Ledger) (ref : CellRef) :
    (ledger.exclude ref).tables.map (·.positions) = ledger.tables.map (·.positions) := by
  cases href : ledger.isUncovered ref with
  | false => rw [exclude, if_neg (by rw [href]; decide)]
  | true =>
      rcases isUncovered_iff.1 href with ⟨table, htable, hopen⟩
      rcases tables_exclude htable hopen with ⟨before, after, _, htables, hexclude⟩
      rw [htables, hexclude, List.map_append, List.map_append, List.map_cons, List.map_cons,
        Table.close]

/-- Striking an uncovered cell out replaces one entry. -/
theorem entries_exclude (h : ledger.isUncovered ref = true) :
    ∃ before after,
      ledger.entries = before ++ (ledger.obligationAt ref, .uncovered) :: after ∧
        (ledger.exclude ref).entries =
          before ++ (ledger.obligationAt ref, .excluded) :: after := by
  rcases isUncovered_iff.1 h with ⟨table, htable, hopen⟩
  rcases tables_exclude htable hopen with ⟨before, after, _, htables, hexclude⟩
  rcases Table.entries_close hopen .excluded with ⟨cellsBefore, cellsAfter, hcells, hclose⟩
  refine ⟨before.flatMap Table.entries ++ cellsBefore,
    cellsAfter ++ after.flatMap Table.entries, ?_, ?_⟩
  · rw [entries, htables, List.flatMap_append, List.flatMap_cons, hcells, obligationAt_eq htable]
    simp only [List.append_assoc, List.cons_append]
  · rw [entries, hexclude, List.flatMap_append, List.flatMap_cons, hclose, obligationAt_eq htable]
    simp only [List.append_assoc, List.cons_append]

/-- Striking a cell out closes it and no other. -/
theorem isUncovered_exclude (ledger : Ledger) (ref other : CellRef) :
    (ledger.exclude ref).isUncovered other = (ledger.isUncovered other && other != ref) := by
  cases h : ledger.isUncovered ref with
  | false =>
      -- A cell that is not uncovered is not struck out.
      rw [exclude, if_neg (by rw [h]; decide)]
      cases hother : ledger.isUncovered other with
      | false => rfl
      | true =>
          rw [Bool.true_and, eq_comm, bne_iff_ne]
          rintro rfl
          rw [h] at hother
          exact absurd hother (by decide)
  | true =>
      rcases isUncovered_iff.1 h with ⟨table, htable, hopen⟩
      rw [exclude, if_pos h, Bool.eq_iff_iff, Bool.and_eq_true, bne_iff_ne, isUncovered_iff,
        isUncovered_iff]
      simp only [List.getElem?_modify]
      -- Only cells of the same table can be affected.
      by_cases hindex : ref.table = other.table
      · rw [← hindex, htable]
        simp only [if_true, Option.map_eq_map, Option.map_some, Option.some.injEq,
          exists_eq_left', Table.isOpen_close table (by decide : Cell.excluded ≠ .uncovered),
          Bool.and_eq_true, bne_iff_ne]
        refine and_congr_right fun _ => not_congr ?_
        rcases ref with ⟨t, c⟩
        rcases other with ⟨t', c'⟩
        rw [CellRef.mk.injEq]
        exact ⟨fun hc => ⟨hindex.symm, hc⟩, fun hc => hc.2⟩
      · simp only [if_neg hindex, Option.map_eq_map, Option.map_id_fun', id_eq]
        refine ⟨fun hc => ⟨hc, ?_⟩, fun hc => hc.1⟩
        rintro rfl
        exact hindex rfl

@[simp] theorem obligationAt_exclude (ledger : Ledger) (ref other : CellRef) :
    (ledger.exclude ref).obligationAt other = ledger.obligationAt other := by
  rw [exclude]
  split
  · rw [obligationAt, obligationAt, tableAt?, tableAt?]
    simp only [List.getElem?_modify]
    cases ledger.tables[other.table]? with
    | none => rfl
    | some table =>
        simp only [Option.map_eq_map, Option.map_some, Option.getD_some]
        split <;> rfl
  · rfl

@[simp] theorem obligationAt_mark (ledger : Ledger) (row : Row) (ref : CellRef) :
    (ledger.mark row).2.obligationAt ref = ledger.obligationAt ref := by
  rw [obligationAt, obligationAt, tableAt?, tableAt?, tables_mark, List.getElem?_map]
  cases ledger.tables[ref.table]? with
  | none => rfl
  | some table =>
      simp only [Option.map_some, Option.getD_some, Table.obligationAt, Table.positions_mark,
        Table.strides_mark]

theorem length_openRefs (entry : Table × Nat) :
    (openRefs entry).length = cellCount .uncovered entry.1.entries := by
  rw [openRefs, List.length_map, Table.length_openCells]

end Refs

section WellFormed

variable {space : Space} {choices : List (List Nat)} {ledger : Ledger} {ref : CellRef} {row : Row}

/-- A ledger has the obligations of its choices. -/
theorem map_fst_entries (h : ledger.WellFormed space choices) :
    ledger.entries.map (·.1) = choices.flatMap (obligationsOn space) := by
  rw [entries, List.map_flatMap, ← h.positions, List.flatMap_map]
  exact List.flatMap_congr fun table htable => Table.map_fst_entries (h.shaped table htable)

/-- Entries are about the obligations of the choices. -/
theorem fst_mem_of_mem_entries (h : ledger.WellFormed space choices) {e : Obligation × Cell}
    (he : e ∈ ledger.entries) : e.1 ∈ choices.flatMap (obligationsOn space) := by
  rw [← map_fst_entries h]
  exact List.mem_map_of_mem he

/-- The entries with a given cell are as many as the obligations that have it. -/
theorem WellFormed.cellCount_eq (h : ledger.WellFormed space choices) {cell : Cell}
    {P : Obligation → Prop} [DecidablePred P] (hP : ∀ e ∈ ledger.entries, e.2 = cell ↔ P e.1) :
    cellCount cell ledger.entries =
      (choices.flatMap (obligationsOn space)).countP fun o => P o := by
  rw [← map_fst_entries h, List.countP_map]
  refine List.countP_congr fun e he => ?_
  rw [Function.comp_apply, decide_eq_true_eq, decide_eq_true_eq, hP e he]

/-- The total is the number of obligations. -/
theorem WellFormed.total_eq (h : ledger.WellFormed space choices) :
    ledger.total = (choices.flatMap (obligationsOn space)).length := by
  rw [h.total, ← map_fst_entries h, List.length_map]

theorem cellCount_flatMap_entries {tables : List Table} (h : ∀ table ∈ tables, table.Shaped space) :
    cellCount .uncovered (tables.flatMap Table.entries) = sumOf (tables.map (·.uncovered)) := by
  induction tables with
  | nil => rfl
  | cons table rest ih =>
      rw [List.forall_mem_cons] at h
      rw [List.flatMap_cons, cellCount_append, ih h.2, ← Table.length_openCells, ← h.1.uncovered,
        List.map_cons, sumOf]

/-- What remains is what is uncovered. -/
theorem WellFormed.remaining_eq (h : ledger.WellFormed space choices) :
    ledger.remaining = cellCount .uncovered ledger.entries := by
  rw [h.remaining, entries, cellCount_flatMap_entries h.shaped]

theorem length_flatMap_openRefs (tables : List Table) (first : Nat) :
    ((tables.zipIdx first).flatMap openRefs).length =
      cellCount .uncovered (tables.flatMap Table.entries) := by
  induction tables generalizing first with
  | nil => rfl
  | cons table rest ih =>
      rw [List.zipIdx_cons, List.flatMap_cons, List.length_append, length_openRefs, ih,
        List.flatMap_cons, cellCount_append]

/-- As many cells are listed as remain. -/
theorem length_uncoveredCells (h : ledger.WellFormed space choices) :
    ledger.uncoveredCells.length = ledger.remaining := by
  rw [uncoveredCells, length_flatMap_openRefs, h.remaining_eq, entries]

/-- Nothing remains when no cell is uncovered. -/
theorem remaining_eq_zero (h : ledger.WellFormed space choices)
    (hclosed : ∀ ref, ledger.isUncovered ref = false) : ledger.remaining = 0 := by
  rw [← length_uncoveredCells h, List.length_eq_zero_iff, List.eq_nil_iff_forall_not_mem]
  intro ref href
  rw [mem_uncoveredCells_iff, hclosed ref] at href
  exact absurd href (by decide)

/-- Skipping whole tables by their totals finds the same cell as the list. -/
theorem nthUncovered?_eq {tables : List Table} (h : ∀ table ∈ tables, table.Shaped space)
    (n first : Nat) :
    nthUncovered? n first tables = ((tables.zipIdx first).flatMap openRefs)[n]? := by
  induction tables generalizing n first with
  | nil => rfl
  | cons table rest ih =>
      rw [List.forall_mem_cons] at h
      have hlen : (openRefs (table, first)).length = table.uncovered := by
        rw [openRefs, List.length_map, h.1.uncovered]
      rw [nthUncovered?, List.zipIdx_cons, List.flatMap_cons, List.getElem?_append, hlen]
      -- The cell lies behind this table, or in it.
      by_cases hn : table.uncovered ≤ n
      · rw [if_pos hn, if_neg (Nat.not_lt_of_le hn), ih h.2]
      · rw [if_neg hn, if_pos (Nat.lt_of_not_le hn), openRefs, List.getElem?_map,
          Table.nthOpen?_eq]

/-- A draw from what remains looks a place up in the list of open cells. -/
theorem randomUncovered_eq_getElem? (h : ledger.WellFormed space choices)
    (hpos : 0 < ledger.remaining) (random : Random) :
    ledger.randomUncovered random =
      (ledger.uncoveredCells[(random.below ledger.remaining).1]?, random.advance) := by
  rw [randomUncovered, if_neg (Nat.ne_of_gt hpos)]
  simp only [nthUncovered?_eq h.shaped, Random.below_snd, uncoveredCells]

/-- A draw from what remains finds an uncovered cell. -/
theorem randomUncovered_eq (h : ledger.WellFormed space choices) (hpos : 0 < ledger.remaining)
    (random : Random) :
    ∃ ref, ledger.randomUncovered random = (some ref, random.advance) ∧
      ledger.isUncovered ref = true := by
  have hlt := Random.below_lt random hpos
  rw [← length_uncoveredCells h] at hlt
  refine ⟨ledger.uncoveredCells[(random.below ledger.uncoveredCells.length).1], ?_,
    mem_uncoveredCells_iff.1 (List.getElem_mem hlt)⟩
  rw [randomUncovered_eq_getElem? h hpos, ← length_uncoveredCells h, List.getElem?_eq_getElem hlt]

/-- Marking a row covers the open entries whose obligation the row satisfies. -/
theorem entries_mark (h : ledger.WellFormed space choices) (hrow : space.admits row = true) :
    (ledger.mark row).2.entries = ledger.entries.map (coverEntry row) := by
  rw [entries, entries, tables_mark, List.flatMap_map, List.map_flatMap]
  exact List.flatMap_congr fun table htable => Table.entries_mark (h.shaped table htable) hrow

/-- What a row newly covers is its score. -/
theorem fst_mark (h : ledger.WellFormed space choices) (row : Row) :
    (ledger.mark row).1 = ledger.score row := by
  have hsum : ∀ tables : List Table, (∀ table ∈ tables, table.Shaped space) →
      sumOf (List.zipWith (fun before after => before.uncovered - after.uncovered) tables
        (tables.map (·.mark row))) = tables.countP (·.isOpenFor row) := by
    intro tables
    induction tables with
    | nil => exact fun _ => rfl
    | cons table rest ih =>
        intro hshaped
        rw [List.forall_mem_cons] at hshaped
        have hmark := Table.uncovered_mark hshaped.1 row
        rw [List.map_cons, List.zipWith_cons_cons, sumOf, ih hshaped.2, List.countP_cons]
        omega
  exact hsum ledger.tables h.shaped

theorem sumOf_uncovered_mark {tables : List Table} (h : ∀ table ∈ tables, table.Shaped space)
    (row : Row) :
    sumOf ((tables.map (·.mark row)).map (·.uncovered)) + tables.countP (·.isOpenFor row) =
      sumOf (tables.map (·.uncovered)) := by
  induction tables with
  | nil => rfl
  | cons table rest ih =>
      rw [List.forall_mem_cons] at h
      have hmark := Table.uncovered_mark h.1 row
      have hrest := ih h.2
      rw [List.map_cons, List.map_cons, sumOf, List.map_cons, sumOf, List.countP_cons]
      omega

/-- A row takes its score from what remains. -/
theorem remaining_mark (h : ledger.WellFormed space choices) (row : Row) :
    (ledger.mark row).2.remaining + ledger.score row = ledger.remaining := by
  have hsum := sumOf_uncovered_mark h.shaped row
  have hfst := fst_mark h row
  rw [← h.remaining] at hsum
  rw [mark] at hfst ⊢
  simp only at hfst ⊢
  rw [hfst]
  rw [score] at hfst ⊢
  omega

theorem cellCount_map_coverEntry (row : Row) (as : List (Obligation × Cell)) :
    cellCount .excluded (as.map (coverEntry row)) = cellCount .excluded as := by
  rw [cellCount, List.countP_map, cellCount]
  refine List.countP_congr fun entry _ => ?_
  rw [Function.comp_apply, decide_eq_true_eq, decide_eq_true_eq, coverEntry_excluded_iff]

/-- Marking a row of the space keeps the books. -/
theorem wellFormed_mark (h : ledger.WellFormed space choices) (hrow : space.admits row = true) :
    (ledger.mark row).2.WellFormed space choices where
  positions := by
    rw [tables_mark, List.map_map, ← h.positions]
    exact List.map_congr_left fun table _ => Table.positions_mark table row
  shaped := by
    rw [tables_mark, List.forall_mem_map]
    exact fun table htable => Table.shaped_mark (h.shaped table htable) row
  total := by rw [total_mark, entries_mark h hrow, List.length_map, h.total]
  remaining := by
    have hsum := sumOf_uncovered_mark h.shaped row
    have hmark := remaining_mark h row
    rw [← h.remaining] at hsum
    rw [tables_mark]
    rw [score] at hmark
    omega
  excluded := by
    rw [excluded_mark, entries_mark h hrow, cellCount_map_coverEntry, h.excluded]

/-- Marking a row closes the uncovered cells whose obligation it satisfies. -/
theorem isUncovered_mark (h : ledger.WellFormed space choices) (hrow : space.admits row = true)
    (ref : CellRef) :
    (ledger.mark row).2.isUncovered ref =
      (ledger.isUncovered ref && !(ledger.obligationAt ref).satisfiedBy row) := by
  rw [isUncovered, isUncovered, tableAt?, tableAt?, tables_mark, List.getElem?_map]
  cases htable : ledger.tables[ref.table]? with
  | none => rfl
  | some table =>
      rw [Option.map_some, Option.any_some, Option.any_some, obligationAt_eq htable,
        Table.isOpen_mark (h.shaped table (List.mem_of_getElem? htable)) hrow]

/-- Striking an uncovered cell out takes one from what remains. -/
theorem remaining_exclude (h : ledger.WellFormed space choices)
    (href : ledger.isUncovered ref = true) :
    (ledger.exclude ref).remaining + 1 = ledger.remaining := by
  have hpos : 0 < ledger.remaining := by
    rw [← length_uncoveredCells h, List.length_pos_iff_exists_mem]
    exact ⟨ref, mem_uncoveredCells_iff.2 href⟩
  rw [exclude, if_pos href]
  exact Nat.sub_add_cancel hpos

/-- Striking an uncovered cell out keeps the books. -/
theorem wellFormed_exclude (h : ledger.WellFormed space choices)
    (href : ledger.isUncovered ref = true) : (ledger.exclude ref).WellFormed space choices := by
  rcases isUncovered_iff.1 href with ⟨table, htable, hopen⟩
  rcases tables_exclude htable hopen with ⟨before, after, _, htables, hexclude⟩
  rcases entries_exclude href with ⟨entriesBefore, entriesAfter, hentries, hclose⟩
  have hshaped := h.shaped
  rw [htables, List.forall_mem_append, List.forall_mem_cons] at hshaped
  have htableShaped := Table.shaped_close hshaped.2.1 hopen
    (by decide : Cell.excluded ≠ .uncovered)
  have hremaining := remaining_exclude h href
  have hsum := h.remaining
  refine ⟨(positions_exclude ledger ref).trans h.positions, ?_, ?_, ?_, ?_⟩
  · rw [hexclude, List.forall_mem_append, List.forall_mem_cons]
    exact ⟨hshaped.1, htableShaped, hshaped.2.2⟩
  · rw [total_exclude, hclose, h.total, hentries, List.length_append, List.length_append,
      List.length_cons, List.length_cons]
  · have hpos : 0 < table.uncovered := by
      rw [hshaped.2.1.uncovered, List.length_pos_iff_exists_mem]
      exact ⟨_, mem_openCells_iff.2 hopen⟩
    rw [htables] at hsum
    rw [hexclude]
    simp only [List.map_append, List.map_cons, sumOf_append, sumOf, Table.close] at hsum ⊢
    omega
  · -- One entry has gone over to the excluded ones.
    have hexcluded := h.excluded
    rw [hentries] at hexcluded
    rw [hclose, exclude, if_pos href]
    simp only [cellCount, List.countP_append, List.countP_cons, reduceCtorEq, decide_false,
      decide_true, Bool.false_eq_true, if_false, if_true] at hexcluded ⊢
    omega

/-- Striking out keeps the books, whether the cell is open or not. -/
theorem books_exclude (h : ledger.WellFormed space choices) (ref : CellRef) :
    (ledger.exclude ref).WellFormed space choices := by
  by_cases hopen : ledger.isUncovered ref = true
  · exact wellFormed_exclude h hopen
  · rwa [exclude, if_neg hopen]

/-- Striking a cell out leaves all entries but its own as they were. -/
theorem mem_entries_exclude (href : ledger.isUncovered ref = true) {e : Obligation × Cell}
    (he : e ∈ (ledger.exclude ref).entries) :
    e ∈ ledger.entries ∨ e = (ledger.obligationAt ref, .excluded) := by
  rcases entries_exclude href with ⟨before, after, hentries, hexclude⟩
  rw [hexclude, List.mem_append, List.mem_cons] at he
  rw [hentries, List.mem_append, List.mem_cons]
  rcases he with he | he | he
  · exact .inl (.inl he)
  · exact .inr he
  · exact .inl (.inr (.inr he))

theorem length_flatMap_entries (tables : List Table) :
    (tables.flatMap Table.entries).length = sumOf (tables.map (·.cells.size)) := by
  induction tables with
  | nil => rfl
  | cons table rest ih =>
      rw [List.flatMap_cons, List.length_append, ih, Table.entries, List.length_map,
        List.length_range, List.map_cons, sumOf]

theorem positions_ofTables (space : Space) (choices : List (List Nat)) :
    (ofTables (choices.map (Table.ofPositions space))).tables.map (·.positions) = choices := by
  simp only [ofTables, List.map_map]
  exact List.map_id'' (fun _ => rfl) choices

/-- A ledger of new tables keeps its books, with every cell uncovered. -/
theorem wellFormed_ofTables (hchoices : ∀ positions ∈ choices, space.Choice positions) :
    (ofTables (choices.map (Table.ofPositions space))).WellFormed space choices ∧
      ∀ e ∈ (ofTables (choices.map (Table.ofPositions space))).entries, e.2 = .uncovered := by
  have hshaped : ∀ table ∈ choices.map (Table.ofPositions space), table.Shaped space := by
    rw [List.forall_mem_map]
    exact fun positions h => Table.shaped_ofPositions (hchoices positions h)
  -- A new table holds nothing but uncovered cells.
  have hall : ∀ e ∈ (ofTables (choices.map (Table.ofPositions space))).entries,
      e.2 = .uncovered := by
    intro e he
    rcases List.mem_flatMap.1 he with ⟨table, htable, he⟩
    rcases List.mem_map.1 htable with ⟨positions, _, rfl⟩
    rcases List.mem_map.1 he with ⟨i, hi, rfl⟩
    rw [List.mem_range] at hi
    simp only [Table.ofPositions, Array.size_replicate] at hi ⊢
    rw [Array.getElem?_replicate, if_pos hi, Option.getD_some]
  have htotal : sumOf ((choices.map (Table.ofPositions space)).map (·.cells.size)) =
      (ofTables (choices.map (Table.ofPositions space))).entries.length := by
    rw [entries, ofTables, length_flatMap_entries]
  refine ⟨⟨positions_ofTables space choices, hshaped, htotal, ?_, ?_⟩, hall⟩
  · refine congrArg sumOf (List.map_congr_left fun table htable => ?_)
    rcases List.mem_map.1 htable with ⟨positions, _, rfl⟩
    exact Array.size_replicate
  · refine (List.countP_eq_zero.2 fun e he => ?_).symm
    rw [hall e he]
    decide

/-- While blocked obligations are struck out: the books are kept, only blocked
    obligations are excluded, and the blocked ones still uncovered are among
    the cells left to look at. -/
structure Striking (space : Space) (choices : List (List Nat)) (blocked : Obligation → Bool)
    (left : List CellRef) (ledger : Ledger) : Prop where
  wellFormed : ledger.WellFormed space choices
  uncoveredOrBlocked :
    ∀ e ∈ ledger.entries, e.2 = .uncovered ∨ e.2 = .excluded ∧ blocked e.1 = true
  pending : ∀ ref, ledger.isUncovered ref = true → blocked (ledger.obligationAt ref) = true →
    ref ∈ left

theorem Striking.step {blocked : Obligation → Bool} {left : List CellRef}
    (h : Striking space choices blocked (ref :: left) ledger) :
    Striking space choices blocked left
      (if blocked (ledger.obligationAt ref) then ledger.exclude ref else ledger) := by
  have hpending : ∀ other, other ≠ ref → ledger.isUncovered other = true →
      blocked (ledger.obligationAt other) = true → other ∈ left := fun other hne hopen hblocked =>
    (List.mem_cons.1 (h.pending other hopen hblocked)).resolve_left hne
  by_cases hblocked : blocked (ledger.obligationAt ref) = true
  · rw [if_pos hblocked]
    by_cases hopen : ledger.isUncovered ref = true
    · refine ⟨wellFormed_exclude h.wellFormed hopen, fun e he => ?_, fun other hother => ?_⟩
      · rcases mem_entries_exclude hopen he with he | rfl
        · exact h.uncoveredOrBlocked e he
        · exact .inr ⟨rfl, hblocked⟩
      · rw [isUncovered_exclude, Bool.and_eq_true, bne_iff_ne] at hother
        rw [obligationAt_exclude]
        exact hpending other hother.2 hother.1
    · -- The cell was closed before, and is left as it is.
      rw [exclude, if_neg hopen]
      refine ⟨h.wellFormed, h.uncoveredOrBlocked, fun other hother => hpending other ?_ hother⟩
      rintro rfl
      exact hopen hother
  · rw [if_neg hblocked]
    refine ⟨h.wellFormed, h.uncoveredOrBlocked,
      fun other hother hb => hpending other ?_ hother hb⟩
    rintro rfl
    exact hblocked hb

theorem striking_foldl (blocked : Obligation → Bool) (left : List CellRef)
    (h : Striking space choices blocked left ledger) :
    Striking space choices blocked []
      (left.foldl (fun ledger ref =>
        if blocked (ledger.obligationAt ref) then ledger.exclude ref else ledger) ledger) := by
  induction left generalizing ledger with
  | nil => exact h
  | cons ref rest ih => exact ih h.step

/-- At the start the books are kept, and the excluded entries are exactly
    those of blocked obligations; the others are uncovered. -/
theorem start_entries (space : Space) (order : Nat) (submodels : List Submodel)
    (exclusions : ExclusionSet)
    (hchoices : ∀ positions ∈ trackedSubsets space order submodels, space.Choice positions) :
    (start space order submodels exclusions).WellFormed space
        (trackedSubsets space order submodels) ∧
      ∀ e ∈ (start space order submodels exclusions).entries,
        e.2 = if exclusions.blocksObligation e.1 then .excluded else .uncovered := by
  rcases wellFormed_ofTables hchoices with ⟨hbooks, hall⟩
  rw [start]
  by_cases hempty : exclusions.isEmpty = true
  · rw [if_pos hempty]
    refine ⟨hbooks, fun e he => ?_⟩
    have hblocks : exclusions.blocksObligation e.1 = false := by
      rw [ExclusionSet.blocksObligation, List.isEmpty_iff.1 hempty]
      rfl
    rw [hblocks, if_neg (by decide)]
    exact hall e he
  · rw [if_neg hempty]
    have hdone := striking_foldl exclusions.blocksObligation
      (ofTables ((trackedSubsets space order submodels).map
        (Table.ofPositions space))).uncoveredCells
      ⟨hbooks, fun e he => .inl (hall e he), fun ref href _ => mem_uncoveredCells_iff.2 href⟩
    refine ⟨hdone.wellFormed, fun e he => ?_⟩
    rcases hdone.uncoveredOrBlocked e he with huncovered | ⟨hexcluded, hblocked⟩
    · rw [huncovered, if_neg]
      -- A blocked cell that is open would still be among those to look at.
      intro hblocked
      rcases e with ⟨o, cell⟩
      simp only at huncovered hblocked
      rcases mem_entries_uncovered_iff.1 (huncovered ▸ he) with ⟨ref, hopen, rfl⟩
      exact List.not_mem_nil (hdone.pending ref hopen hblocked)
    · rw [hexcluded, if_pos hblocked]

end WellFormed

section Reachable

variable {space : Space} {order : Nat} {submodels : List Submodel} {exclusions : ExclusionSet}
  {ledger : Ledger}

/-- The ledgers that come from the one at the start of a run by entering rows of
    the space and striking obligations out, in any order. -/
inductive Reachable (space : Space) (order : Nat) (submodels : List Submodel)
    (exclusions : ExclusionSet) : Ledger → Prop where
  | start : Reachable space order submodels exclusions (start space order submodels exclusions)
  | mark {ledger : Ledger} (h : Reachable space order submodels exclusions ledger) {row : Row}
      (hrow : space.admits row = true) :
      Reachable space order submodels exclusions (ledger.mark row).2
  | exclude {ledger : Ledger} (h : Reachable space order submodels exclusions ledger)
      (ref : CellRef) : Reachable space order submodels exclusions (ledger.exclude ref)

/-- Whatever has happened to a ledger, it has a table for each choice of
    positions, in their order. -/
theorem Reachable.positions (h : Reachable space order submodels exclusions ledger) :
    ledger.tables.map (·.positions) = trackedSubsets space order submodels := by
  induction h with
  | start =>
      have hnew := positions_ofTables space (trackedSubsets space order submodels)
      rw [Ledger.start]
      split
      · exact hnew
      · -- Striking the blocked obligations out takes no table away.
        refine List.foldlRecOn (motive := fun struck : Ledger =>
          struck.tables.map (·.positions) = trackedSubsets space order submodels) _ _ hnew ?_
        intro struck ih ref _
        split
        · rw [positions_exclude, ih]
        · exact ih
  | mark _ _ ih =>
      rw [tables_mark, List.map_map, ← ih]
      exact List.map_congr_left fun table _ => Table.positions_mark table _
  | exclude _ ref ih => rw [positions_exclude, ih]

/-- And its books are kept. -/
theorem Reachable.wellFormed (hsub : ∀ s ∈ submodels, s.check space = .ok ())
    (h : Reachable space order submodels exclusions ledger) :
    ledger.WellFormed space (trackedSubsets space order submodels) := by
  induction h with
  | start =>
      exact (start_entries space order submodels exclusions
        fun _ h => choice_of_mem_trackedSubsets hsub h).1
  | mark _ hrow ih => exact wellFormed_mark ih hrow
  | exclude _ ref ih => exact books_exclude ih ref

end Reachable

end Ledger

end Covering
