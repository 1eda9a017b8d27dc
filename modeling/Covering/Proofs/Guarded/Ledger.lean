import Covering.Proofs.Coverage.Ledger
import Covering.Proofs.Guarded.Verdict

/-!
# Keeping books without fault

A ledger is read and written under indices that come from arithmetic on rows, and
its totals go down one by one. As long as it keeps its books and the rows are
rows of the space, no index leaves its table and no total goes below zero.

That a row of the space has a cell in every table is mixed-radix arithmetic
(`Table.indexOf_lt`). That totals can be lowered is what the books say: an open
cell is counted by its table, and the table by the ledger, so neither total can
be zero while there is one. References to cells are drawn or listed while the
cell is open. A listed one may be old when it is used, and its cell closed
meanwhile, but tables keep their size, so it still refers to a cell
(`Ledger.InRange`).

## Main definitions

* `Guarded.Table.mark`, `Guarded.Table.close`: Tables, guarded.
* `Guarded.Ledger.start`, `mark`, `exclude`, `score`, `randomUncovered`: Ledgers,
  guarded.
* `Ledger.InRange`: A reference to a cell, whether open or closed.

## Theorems

* `Guarded.Table.indexOf_eq_some`: A row has a cell in its table.
* `Guarded.Table.mark_eq_some`, `Guarded.Table.obligationAt_eq_some`: Tables are
  written and decoded without fault.
* `InRange.mark`, `InRange.exclude`: References stay in range.
* `Guarded.Ledger.mark_eq_some`, `exclude_eq_some`, `score_eq_some`,
  `scoreTouching_eq_some`, `randomUncovered_eq_some`, `start_eq_some`: Nor do ledgers
  meet one.
-/

namespace Covering

namespace Guarded

namespace Table

/-- The table of the given positions. -/
def ofPositions (space : Space) (positions : List Nat) : Option Table := do
  let radices ← positions.mapM (space.counts[·]?)
  return { positions
           strides := Table.stridesOf radices
           cells := Array.replicate (productOf radices) .uncovered
           uncovered := productOf radices }

/-- The cell that a row has. -/
def indexOf (table : Table) (row : Row) : Option Nat := do
  let values ← table.positions.mapM (row[·]?)
  let index := sumOf (List.zipWith (· * ·) values table.strides)
  if index < table.cells.size then pure index else none

/-- Whether a cell that is there is uncovered. -/
def isOpen (table : Table) (index : Nat) : Option Bool := do
  return (← table.cells[index]?) = .uncovered

/-- Whether the row's cell is uncovered. -/
def isOpenFor (table : Table) (row : Row) : Option Bool := do
  isOpen table (← indexOf table row)

/-- The table with a cell closed, and one less of them open. -/
def close (table : Table) (index : Nat) (cell : Cell) : Option Table :=
  if index < table.cells.size then do
    let uncovered ← minus? table.uncovered 1
    return { table with cells := table.cells.setIfInBounds index cell, uncovered }
  else none

/-- The table after the row was added to the array. -/
def mark (table : Table) (row : Row) : Option Table := do
  let index ← indexOf table row
  if ← isOpen table index then close table index .covered else pure table

/-- The values that an index stands for, under strides that can be divided by. -/
def decode : Nat → List Nat → Option (List Nat)
  | _, [] => some []
  | index, stride :: strides =>
    if stride = 0 then none else do return index / stride :: (← decode (index % stride) strides)

/-- The obligation of a cell. -/
def obligationAt (table : Table) (index : Nat) : Option Obligation := do
  obligation table.positions (← decode index table.strides)

section Shaped

variable {space : Space} {table : Table} {row : Row} {i : Nat}

theorem ofPositions_eq_some {positions : List Nat} (h : space.Choice positions) :
    ofPositions space positions = some (Covering.Table.ofPositions space positions) := by
  unfold ofPositions
  rw [mapM_counts_eq_some h.lt_width]
  rfl

/-- A row of the space has a cell in the table. -/
theorem indexOf_eq_some (h : table.Shaped space) (hrow : space.admits row = true) :
    indexOf table row = some (table.indexOf row) := by
  have hvalues : table.positions.mapM (row[·]?) =
      some (table.positions.map fun p => row.getD p 0) := by
    refine mapM_getElem?_eq_some 0 fun p hp => ?_
    rw [Space.length_of_admits hrow]
    exact h.choice.lt_width p hp
  unfold indexOf
  rw [hvalues]
  simp only [Option.bind_eq_bind, Option.bind_some, List.zipWith_map_left]
  exact if_pos (Table.indexOf_lt h hrow)

theorem isOpen_eq_some (hi : i < table.cells.size) : isOpen table i = some (table.isOpen i) := by
  unfold isOpen Covering.Table.isOpen
  rw [Array.getElem?_eq_getElem hi, dif_pos hi]
  rfl

theorem isOpenFor_eq_some (h : table.Shaped space) (hrow : space.admits row = true) :
    isOpenFor table row = some (table.isOpenFor row) := by
  unfold isOpenFor
  rw [indexOf_eq_some h hrow]
  exact isOpen_eq_some (Table.indexOf_lt h hrow)

/-- An open cell is counted, so it can be closed. -/
theorem close_eq_some (h : table.Shaped space) (hopen : table.isOpen i = true) (cell : Cell) :
    close table i cell = some (table.close i cell) := by
  have hpos : 0 < table.uncovered := by
    rw [h.uncovered, List.length_pos_iff_exists_mem]
    exact ⟨i, Ledger.mem_openCells_iff.2 hopen⟩
  unfold close
  rw [if_pos (Table.lt_size_of_isOpen hopen), minus?_eq_some hpos]
  rfl

/-- A row of the space is marked without fault. -/
theorem mark_eq_some (h : table.Shaped space) (hrow : space.admits row = true) :
    mark table row = some (table.mark row) := by
  unfold mark Covering.Table.mark Covering.Table.isOpenFor
  rw [indexOf_eq_some h hrow]
  simp only [Option.bind_eq_bind, Option.bind_some, isOpen_eq_some (Table.indexOf_lt h hrow)]
  cases hopen : table.isOpen (table.indexOf row) with
  | false => rfl
  | true => exact close_eq_some h hopen .covered

theorem productOf_pos {radices : List Nat} (h : ∀ r ∈ radices, 0 < r) : 0 < productOf radices := by
  induction radices with
  | nil => exact Nat.one_pos
  | cons r radices ih =>
      rw [List.forall_mem_cons] at h
      exact Nat.mul_pos h.1 (ih h.2)

/-- Strides are products of counts, so they can be divided by. -/
theorem decode_eq_some {radices : List Nat} (h : ∀ r ∈ radices, 0 < r) (i : Nat) :
    decode i (Table.stridesOf radices) =
      some (Covering.Table.decode i (Table.stridesOf radices)) := by
  induction radices generalizing i with
  | nil => rfl
  | cons r radices ih =>
      rw [List.forall_mem_cons] at h
      rw [Table.stridesOf, decode, if_neg (Nat.ne_of_gt (productOf_pos h.2)), ih h.2]
      rfl

theorem length_decode_stridesOf (radices : List Nat) (i : Nat) :
    (Covering.Table.decode i (Table.stridesOf radices)).length = radices.length := by
  induction radices generalizing i with
  | nil => rfl
  | cons r radices ih =>
      rw [Table.stridesOf, Covering.Table.decode, List.length_cons, List.length_cons, ih]

/-- The obligation of a cell has a value for each position. -/
theorem length_obligationAt (h : table.Shaped space) (i : Nat) :
    (table.obligationAt i).positions.length = (table.obligationAt i).values.length := by
  rw [Covering.Table.obligationAt, h.strides, length_decode_stridesOf, List.length_map]

/-- Every cell is decoded without fault. -/
theorem obligationAt_eq_some (h : table.Shaped space) (i : Nat) :
    obligationAt table i = some (table.obligationAt i) := by
  have hpos : ∀ r ∈ table.positions.map space.count, 0 < r := by
    rw [List.forall_mem_map]
    exact fun p hp => space.count_pos (h.choice.lt_width p hp)
  unfold obligationAt
  rw [h.strides, decode_eq_some hpos, ← h.strides]
  exact obligation_eq_some (length_obligationAt h i) h.choice.ascending

end Shaped

end Table

end Guarded

/-- The reference is to a cell of the ledger, whatever has become of it. -/
def Ledger.InRange (ledger : Ledger) (ref : CellRef) : Prop :=
  ∃ table, ledger.tables[ref.table]? = some table ∧ ref.cell < table.cells.size

section InRange

variable {ledger : Ledger} {ref : CellRef}

theorem Ledger.inRange_of_isUncovered (h : ledger.isUncovered ref = true) :
    ledger.InRange ref := by
  rcases isUncovered_iff.1 h with ⟨table, htable, hopen⟩
  exact ⟨table, htable, Table.lt_size_of_isOpen hopen⟩

/-- Marking a row keeps the size of all tables. -/
theorem Ledger.InRange.mark (h : ledger.InRange ref) (row : Row) :
    (ledger.mark row).2.InRange ref := by
  rcases h with ⟨table, htable, hlt⟩
  refine ⟨table.mark row, ?_, by rwa [Table.size_cells_mark]⟩
  rw [tables_mark, List.getElem?_map, htable]
  rfl

/-- So does striking an obligation out. -/
theorem Ledger.InRange.exclude (h : ledger.InRange ref) (other : CellRef) :
    (ledger.exclude other).InRange ref := by
  rcases h with ⟨table, htable, hlt⟩
  unfold Ledger.exclude
  split
  · by_cases hsame : other.table = ref.table
    · refine ⟨table.close other.cell .excluded, ?_, by rwa [Table.size_cells_close]⟩
      simp only [List.getElem?_modify, hsame, if_true, htable, Option.map_eq_map, Option.map_some]
    · refine ⟨table, ?_, hlt⟩
      simp only [List.getElem?_modify, if_neg hsame, htable, Option.map_eq_map, Option.map_some]
  · exact ⟨table, htable, hlt⟩

end InRange

namespace Guarded

namespace Ledger

/-- Whether the cell is uncovered. -/
def isUncovered (ledger : Ledger) (ref : CellRef) : Option Bool := do
  Table.isOpen (← ledger.tables[ref.table]?) ref.cell

/-- The obligation of a cell that is there. -/
def obligationAt (ledger : Ledger) (ref : CellRef) : Option Obligation := do
  let table ← ledger.tables[ref.table]?
  if ref.cell < table.cells.size then Table.obligationAt table ref.cell else none

/-- Strikes the obligation of an uncovered cell out. -/
def exclude (ledger : Ledger) (ref : CellRef) : Option Ledger := do
  if ← isUncovered ledger ref then
    let table ← Table.close (← ledger.tables[ref.table]?) ref.cell .excluded
    let tables ← write? ledger.tables ref.table table
    let remaining ← minus? ledger.remaining 1
    return { ledger with tables, remaining, excluded := ledger.excluded + 1 }
  else pure ledger

/-- Strikes out every uncovered obligation that contains an exclusion. -/
def excludeBlocked (ledger : Ledger) (set : ExclusionSet) : Option Ledger :=
  ledger.uncoveredCells.foldlM (fun ledger ref => do
    if ← blocksObligation set (← obligationAt ledger ref) then exclude ledger ref
    else pure ledger) ledger

/-- The ledger at the start of a run. -/
def start (space : Space) (order : Nat) (submodels : List Submodel) (set : ExclusionSet) :
    Option Ledger := do
  let tables ← (← trackedSubsets space order submodels).mapM (Table.ofPositions space)
  let ledger := Ledger.ofTables tables
  if set.isEmpty then pure ledger else excludeBlocked ledger set

/-- How many uncovered obligations the row contains. -/
def score (ledger : Ledger) (row : Row) : Option Nat := do
  return (← ledger.tables.mapM (Table.isOpenFor · row)).count true

/-- How many of them bind the given position of the space. -/
def scoreTouching (space : Space) (ledger : Ledger) (row : Row) (position : Nat) : Option Nat :=
  if position < space.width then do
    let tables := ledger.tables.filter (·.positions.contains position)
    return (← tables.mapM (Table.isOpenFor · row)).count true
  else none

/-- Covers what the row contains, and says how much of it was uncovered. -/
def mark (ledger : Ledger) (row : Row) : Option (Nat × Ledger) := do
  let newly ← score ledger row
  let tables ← ledger.tables.mapM (Table.mark · row)
  let remaining ← minus? ledger.remaining newly
  return (newly, { ledger with tables, remaining })

/-- An uncovered cell, which there must be as long as something remains. -/
def randomUncovered (ledger : Ledger) (random : Random) : Option (Option CellRef × Random) :=
  if ledger.remaining = 0 then some (none, random)
  else do
    let (n, random) := random.below ledger.remaining
    let ref ← Ledger.nthUncovered? n 0 ledger.tables
    return (some ref, random)

section WellFormed

variable {space : Space} {choices : List (List Nat)} {ledger : Ledger} {ref : CellRef} {row : Row}

theorem isUncovered_eq_some (href : ledger.InRange ref) :
    isUncovered ledger ref = some (ledger.isUncovered ref) := by
  rcases href with ⟨table, htable, hlt⟩
  unfold isUncovered Covering.Ledger.isUncovered Ledger.tableAt?
  rw [htable]
  exact Table.isOpen_eq_some hlt

theorem obligationAt_eq_some (h : ledger.WellFormed space choices) (href : ledger.InRange ref) :
    obligationAt ledger ref = some (ledger.obligationAt ref) := by
  rcases href with ⟨table, htable, hlt⟩
  unfold obligationAt
  rw [htable, Ledger.obligationAt_eq htable, Option.bind_eq_bind, Option.bind_some, if_pos hlt]
  exact Table.obligationAt_eq_some (h.shaped table (List.mem_of_getElem? htable)) ref.cell

/-- Striking out what a reference in range is to meets no fault. An open cell is
    among those that remain. -/
theorem exclude_eq_some (h : ledger.WellFormed space choices) (href : ledger.InRange ref) :
    exclude ledger ref = some (ledger.exclude ref) := by
  unfold exclude
  rw [isUncovered_eq_some href]
  cases hopen : ledger.isUncovered ref with
  | false =>
      rw [Covering.Ledger.exclude, hopen]
      rfl
  | true =>
      have hremaining := Ledger.remaining_exclude h hopen
      rcases Ledger.isUncovered_iff.1 hopen with ⟨table, htable, hcell⟩
      have hlt : ref.table < ledger.tables.length := (List.getElem?_eq_some_iff.1 htable).1
      have hshaped := h.shaped table (List.mem_of_getElem? htable)
      have hmodify : ledger.tables.modify ref.table (·.close ref.cell .excluded) =
          ledger.tables.set ref.table (table.close ref.cell .excluded) := by
        rw [List.modify_eq_take_cons_drop hlt, List.set_eq_take_append_cons_drop, if_pos hlt,
          (List.getElem?_eq_some_iff.1 htable).2]
      rw [Covering.Ledger.exclude, if_pos hopen, hmodify]
      simp only [htable, Option.bind_eq_bind, Option.bind_some, if_true,
        Table.close_eq_some hshaped hcell, write?_eq_some hlt,
        minus?_eq_some (show 1 ≤ ledger.remaining by omega), Option.pure_def]

/-- A row of the space is scored without fault. -/
theorem mapM_isOpenFor_eq_some (h : ledger.WellFormed space choices)
    (hrow : space.admits row = true) {tables : List Table} (htables : tables ⊆ ledger.tables) :
    tables.mapM (Table.isOpenFor · row) = some (tables.map (·.isOpenFor row)) :=
  mapM_eq_some fun table htable =>
    Table.isOpenFor_eq_some (h.shaped table (htables htable)) hrow

theorem count_map_isOpenFor (tables : List Table) (row : Row) :
    (tables.map (·.isOpenFor row)).count true = tables.countP (·.isOpenFor row) := by
  rw [List.count, List.countP_map]
  refine List.countP_congr fun table _ => ?_
  rw [Function.comp_apply, beq_true]

theorem score_eq_some (h : ledger.WellFormed space choices) (hrow : space.admits row = true) :
    score ledger row = some (ledger.score row) := by
  unfold score
  rw [mapM_isOpenFor_eq_some h hrow fun _ htable => htable]
  exact congrArg some (count_map_isOpenFor ..)

theorem scoreTouching_eq_some (h : ledger.WellFormed space choices)
    (hrow : space.admits row = true) {p : Nat} (hp : p < space.width) :
    scoreTouching space ledger row p = some (ledger.scoreTouching row p) := by
  have hsubset : ledger.tables.filter (·.positions.contains p) ⊆ ledger.tables :=
    fun _ htable => List.mem_of_mem_filter htable
  unfold scoreTouching
  simp only [if_pos hp, mapM_isOpenFor_eq_some h hrow hsubset, Option.bind_eq_bind,
    Option.bind_some, Option.pure_def, Covering.Ledger.scoreTouching, count_map_isOpenFor,
    List.countP_filter, Bool.and_comm]

/-- A row of the space is marked without fault. No more is taken from what
    remains than was open. -/
theorem mark_eq_some (h : ledger.WellFormed space choices) (hrow : space.admits row = true) :
    mark ledger row = some (ledger.mark row) := by
  have htables : ledger.tables.mapM (Table.mark · row) =
      some (ledger.tables.map (·.mark row)) :=
    mapM_eq_some fun table htable => Table.mark_eq_some (h.shaped table htable) hrow
  have hle : ledger.score row ≤ ledger.remaining := by
    have hremaining := Ledger.remaining_mark h row
    omega
  unfold mark
  simp only [score_eq_some h hrow, htables, Option.bind_eq_bind, Option.bind_some,
    minus?_eq_some hle]
  rw [← Ledger.fst_mark h row]
  rfl

/-- As long as something remains, a draw finds an uncovered cell. -/
theorem randomUncovered_eq_some (h : ledger.WellFormed space choices) (random : Random) :
    randomUncovered ledger random = some (ledger.randomUncovered random) := by
  unfold randomUncovered
  by_cases hzero : ledger.remaining = 0
  · rw [if_pos hzero, Covering.Ledger.randomUncovered, if_pos hzero]
  · rcases Ledger.randomUncovered_eq h (Nat.pos_of_ne_zero hzero) random with ⟨ref, hdraw, _⟩
    rw [Covering.Ledger.randomUncovered, if_neg hzero] at hdraw ⊢
    rw [if_neg hzero]
    generalize random.below ledger.remaining = drawn at hdraw ⊢
    simp only [(Prod.mk.inj hdraw).1, Option.bind_eq_bind, Option.bind_some, Option.pure_def]

theorem length_obligationAt (h : ledger.WellFormed space choices) (href : ledger.InRange ref) :
    (ledger.obligationAt ref).positions.length = (ledger.obligationAt ref).values.length := by
  rcases href with ⟨table, htable, _⟩
  rw [Ledger.obligationAt_eq htable]
  exact Table.length_obligationAt (h.shaped table (List.mem_of_getElem? htable)) ref.cell

/-- Striking blocked obligations out meets no fault. -/
theorem excludeBlocked_eq_some (h : ledger.WellFormed space choices) (set : ExclusionSet) :
    excludeBlocked ledger set = some (ledger.excludeBlocked set) := by
  -- The books are kept, and the cells still to come stay in range.
  refine foldlM_eq_some (fun rest ledger => ledger.WellFormed space choices ∧
    ∀ ref ∈ rest, ledger.InRange ref) (fun ref rest ledger h => ?_)
    ⟨h, fun ref href => Ledger.inRange_of_isUncovered (Ledger.mem_uncoveredCells_iff.1 href)⟩
  rcases h with ⟨hbooks, hrest⟩
  rw [List.forall_mem_cons] at hrest
  simp only [obligationAt_eq_some hbooks hrest.1, Option.bind_eq_bind, Option.bind_some,
    blocksObligation_eq_some (length_obligationAt hbooks hrest.1)]
  cases set.blocksObligation (ledger.obligationAt ref) with
  | false => exact ⟨rfl, hbooks, hrest.2⟩
  | true =>
      exact ⟨exclude_eq_some hbooks hrest.1, Ledger.books_exclude hbooks ref,
        fun other hother => (hrest.2 other hother).exclude ref⟩

end WellFormed

/-- The ledger of a run is set up without fault. -/
theorem start_eq_some {space : Space} {order : Nat} {submodels : List Submodel}
    (hposed : space.WellPosed order submodels) (set : ExclusionSet) :
    start space order submodels set =
      some (Covering.Ledger.start space order submodels set) := by
  have hchoices : ∀ positions ∈ Covering.trackedSubsets space order submodels,
      space.Choice positions :=
    fun positions h => choice_of_mem_trackedSubsets hposed.submodels_ok h
  have hbooks := (Ledger.wellFormed_ofTables hchoices).1
  have htables : (Covering.trackedSubsets space order submodels).mapM (Table.ofPositions space) =
      some ((Covering.trackedSubsets space order submodels).map
        (Covering.Table.ofPositions space)) :=
    mapM_eq_some fun positions h => Table.ofPositions_eq_some (hchoices positions h)
  unfold start Covering.Ledger.start
  simp only [trackedSubsets_eq_some, htables, Option.bind_eq_bind, Option.bind_some]
  cases set.isEmpty with
  | true => rfl
  | false => exact excludeBlocked_eq_some hbooks set

end Ledger

end Guarded

end Covering
