import Covering.Arithmetic
import Covering.Coverage.Table
import Covering.Exclusion
import Covering.Random

/-!
# The coverage ledger

The state of all obligations during a run: a table for each choice of
positions, and running totals. Rows are entered with `mark`, which covers what
they contain; obligations that no row can contain are struck out with
`exclude`. The run is over when nothing remains uncovered.

## Main definitions

* `Ledger`: The tables and totals.
* `Ledger.start`: The ledger at the start of a run.
* `Ledger.score`, `Ledger.scoreTouching`: How much a row would newly cover.
* `Ledger.mark`, `Ledger.exclude`: Closing cells.
* `Ledger.uncoveredCells`: Everything still to be covered.
* `Ledger.randomUncovered`: One of them, drawn uniformly.

## Theorems

* `total_mark`, `excluded_mark`, `tables_mark`: A row covers cells, table by
  table, and excludes none.
* `total_exclude`: Striking an obligation out keeps it in the total.
-/

namespace Covering

/-- The place of one obligation in a ledger. -/
structure CellRef where
  table : Nat
  cell : Nat
deriving DecidableEq, Repr

/-- The state of all obligations. -/
structure Ledger where
  tables : List Table
  total : Nat
  remaining : Nat
  excluded : Nat
deriving Repr

namespace Ledger

/-- A ledger of the given tables. -/
def ofTables (tables : List Table) : Ledger :=
  let total := sumOf (tables.map (·.cells.size))
  { tables, total, remaining := total, excluded := 0 }

/-- The table a reference points into. -/
def tableAt? (ledger : Ledger) (ref : CellRef) : Option Table := ledger.tables[ref.table]?

/-- Whether the cell is uncovered. -/
def isUncovered (ledger : Ledger) (ref : CellRef) : Bool :=
  (ledger.tableAt? ref).any (·.isOpen ref.cell)

/-- The obligation of the cell; one without bindings where there is no cell. -/
def obligationAt (ledger : Ledger) (ref : CellRef) : Obligation :=
  ((ledger.tableAt? ref).map (·.obligationAt ref.cell)).getD ⟨[], []⟩

/-- Strikes the obligation of an uncovered cell out. -/
def exclude (ledger : Ledger) (ref : CellRef) : Ledger :=
  if ledger.isUncovered ref then
    { ledger with
      tables := ledger.tables.modify ref.table (·.close ref.cell .excluded)
      remaining := ledger.remaining - 1
      excluded := ledger.excluded + 1 }
  else ledger

/-- The uncovered cells of a table that is number `table` of a ledger. -/
def openRefs (entry : Table × Nat) : List CellRef :=
  entry.1.openCells.map fun cell => ⟨entry.2, cell⟩

/-- Every uncovered cell, in the order of obligations. -/
def uncoveredCells (ledger : Ledger) : List CellRef :=
  ledger.tables.zipIdx.flatMap openRefs

/-- Strikes out every uncovered obligation that contains an exclusion. -/
def excludeBlocked (ledger : Ledger) (exclusions : ExclusionSet) : Ledger :=
  ledger.uncoveredCells.foldl
    (fun ledger ref =>
      if exclusions.blocksObligation (ledger.obligationAt ref) then ledger.exclude ref else ledger)
    ledger

/-- The ledger at the start of a run: a table for each choice of positions to be
    covered, with the obligations struck out that contain an exclusion. -/
def start (space : Space) (order : Nat) (submodels : List Submodel)
    (exclusions : ExclusionSet) : Ledger :=
  let ledger := ofTables ((trackedSubsets space order submodels).map (Table.ofPositions space))
  if exclusions.isEmpty then ledger else ledger.excludeBlocked exclusions

/-- How many uncovered obligations the row contains. -/
def score (ledger : Ledger) (row : Row) : Nat :=
  ledger.tables.countP (·.isOpenFor row)

/-- How many of them bind the given position. -/
def scoreTouching (ledger : Ledger) (row : Row) (position : Nat) : Nat :=
  ledger.tables.countP fun table => table.positions.contains position && table.isOpenFor row

/-- Covers what the row contains, and says how much of it was uncovered. -/
def mark (ledger : Ledger) (row : Row) : Nat × Ledger :=
  let tables := ledger.tables.map (·.mark row)
  let newly := sumOf (List.zipWith (fun before after => before.uncovered - after.uncovered)
    ledger.tables tables)
  (newly, { ledger with tables, remaining := ledger.remaining - newly })

/-- The `n`-th uncovered cell, counting from zero. Whole tables are skipped by
    their totals; `first` is the number of the first table of the list. -/
def nthUncovered? (n first : Nat) : List Table → Option CellRef
  | [] => none
  | table :: rest =>
    if table.uncovered ≤ n then nthUncovered? (n - table.uncovered) (first + 1) rest
    else (table.nthOpen? n).map fun cell => ⟨first, cell⟩

/-- An uncovered cell, each with the same chance; none, and no draw, when
    nothing remains. -/
def randomUncovered (ledger : Ledger) (random : Random) : Option CellRef × Random :=
  if ledger.remaining = 0 then (none, random)
  else
    let (n, random) := random.below ledger.remaining
    (nthUncovered? n 0 ledger.tables, random)

@[simp] theorem total_mark (ledger : Ledger) (row : Row) :
    (ledger.mark row).2.total = ledger.total := rfl

@[simp] theorem excluded_mark (ledger : Ledger) (row : Row) :
    (ledger.mark row).2.excluded = ledger.excluded := rfl

@[simp] theorem tables_mark (ledger : Ledger) (row : Row) :
    (ledger.mark row).2.tables = ledger.tables.map (·.mark row) := rfl

@[simp] theorem total_exclude (ledger : Ledger) (ref : CellRef) :
    (ledger.exclude ref).total = ledger.total := by
  unfold exclude
  split <;> rfl

end Ledger

end Covering
