import Covering.Arithmetic
import Covering.Obligation
import Covering.Submodel

/-!
# The table of a choice of positions

While rows are generated, each choice of positions has a table with one cell
for each of its value tuples. Cells are addressed in mixed radix with the last
position fastest, so that cell order is the order of obligations: the stride of
a position is the number of tuples of the positions after it.

## Main definitions

* `Cell`: What is known of one obligation.
* `Table`: The cells of one choice of positions.
* `Table.indexOf`: The cell of the tuple a row has there.
* `Table.obligationAt`: The obligation of a cell.
* `Table.mark`, `Table.close`: Closing a cell.
* `Table.openCells`: The cells that still have to be covered.
* `Table.nthOpen?`: One of them.

## Theorems

* `isOpen_iff`: What an uncovered cell is.
* `nthOpen?_eq`: A cell is found by its place among the uncovered ones.
* `positions_mark`, `strides_mark`, `size_cells_mark`: Rows change what the
  cells hold and not how they are addressed.
-/

namespace Covering

/-- What is known of one obligation. -/
inductive Cell where
  /-- No row contains it yet. -/
  | uncovered
  /-- Some row contains it. -/
  | covered
  /-- No row may, or no exclusion-free row can, contain it. -/
  | excluded
deriving DecidableEq, Repr, Inhabited

/-- The cells of one choice of positions, and how many are uncovered. -/
structure Table where
  positions : List Nat
  strides : List Nat
  cells : Array Cell
  uncovered : Nat
deriving Repr

namespace Table

/-- For each radix, the product of those after it. -/
def stridesOf : List Nat → List Nat
  | [] => []
  | _ :: rs => productOf rs :: stridesOf rs

/-- The table of the given positions with every cell uncovered. -/
def ofPositions (space : Space) (positions : List Nat) : Table :=
  let radices := positions.map space.count
  let size := productOf radices
  { positions
    strides := stridesOf radices
    cells := Array.replicate size .uncovered
    uncovered := size }

/-- The cell of the value tuple that the row has at the table's positions. -/
def indexOf (table : Table) (row : Row) : Nat :=
  sumOf (List.zipWith (fun position stride => row.getD position 0 * stride)
    table.positions table.strides)

/-- The values that an index stands for, under the given strides. -/
def decode : Nat → List Nat → List Nat
  | _, [] => []
  | index, stride :: strides => index / stride :: decode (index % stride) strides

/-- The obligation of a cell. -/
def obligationAt (table : Table) (index : Nat) : Obligation :=
  ⟨table.positions, decode index table.strides⟩

/-- Whether there is an uncovered cell at an index. -/
def isOpen (table : Table) (index : Nat) : Bool :=
  if h : index < table.cells.size then table.cells[index] = .uncovered else false

theorem isOpen_iff {table : Table} {index : Nat} :
    table.isOpen index = true ↔ table.cells[index]? = some .uncovered := by
  rw [isOpen]
  split
  · rename_i h
    rw [Array.getElem?_eq_getElem h, decide_eq_true_eq, Option.some.injEq]
  · rename_i h
    simp only [Array.getElem?_eq_none (Nat.le_of_not_lt h), Bool.false_eq_true, reduceCtorEq]

/-- Whether the row's cell is uncovered. -/
def isOpenFor (table : Table) (row : Row) : Bool :=
  table.isOpen (table.indexOf row)

/-- The table with an uncovered cell closed as `cell` says. -/
def close (table : Table) (index : Nat) (cell : Cell) : Table :=
  { table with
    cells := table.cells.setIfInBounds index cell
    uncovered := table.uncovered - 1 }

/-- The table after the row was added to the array. -/
def mark (table : Table) (row : Row) : Table :=
  if table.isOpenFor row then table.close (table.indexOf row) .covered else table

/-- The indices of the uncovered cells, in order. -/
def openCells (table : Table) : List Nat :=
  (List.range table.cells.size).filter table.isOpen

/-- Which of the last `left` cells is the `n`-th uncovered one, counting from
    zero. -/
def nthOpenOfLast? (table : Table) (n : Nat) : (left : Nat) → Option Nat
  | 0 => none
  | left + 1 =>
    let index := table.cells.size - (left + 1)
    if table.isOpen index then
      if n = 0 then some index else nthOpenOfLast? table (n - 1) left
    else nthOpenOfLast? table n left

/-- Which cell is the `n`-th uncovered one, counting from zero. -/
def nthOpen? (table : Table) (n : Nat) : Option Nat :=
  table.nthOpenOfLast? n table.cells.size

theorem nthOpenOfLast?_eq (table : Table) {n left : Nat} (h : left ≤ table.cells.size) :
    table.nthOpenOfLast? n left =
      ((List.range' (table.cells.size - left) left).filter table.isOpen)[n]? := by
  induction left generalizing n with
  | zero => rfl
  | succ left ih =>
    have hstart : table.cells.size - (left + 1) + 1 = table.cells.size - left := by omega
    rw [nthOpenOfLast?, List.range'_succ, List.filter_cons, hstart]
    split
    · cases n with
      | zero => rfl
      | succ n => exact ih (Nat.le_of_succ_le h)
    · exact ih (Nat.le_of_succ_le h)

/-- The `n`-th uncovered cell is found without listing them. -/
theorem nthOpen?_eq (table : Table) (n : Nat) : table.nthOpen? n = table.openCells[n]? := by
  rw [nthOpen?, nthOpenOfLast?_eq table (Nat.le_refl _), openCells, List.range_eq_range',
    Nat.sub_self]

@[simp] theorem positions_mark (table : Table) (row : Row) :
    (table.mark row).positions = table.positions := by
  unfold mark
  split <;> rfl

@[simp] theorem strides_mark (table : Table) (row : Row) :
    (table.mark row).strides = table.strides := by
  unfold mark
  split <;> rfl

@[simp] theorem size_cells_close (table : Table) (index : Nat) (cell : Cell) :
    (table.close index cell).cells.size = table.cells.size := Array.size_setIfInBounds

@[simp] theorem size_cells_mark (table : Table) (row : Row) :
    (table.mark row).cells.size = table.cells.size := by
  unfold mark
  split
  · exact size_cells_close ..
  · rfl

end Table

end Covering
