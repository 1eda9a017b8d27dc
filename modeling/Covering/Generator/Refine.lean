import Covering.Coverage.Ledger

/-!
# Improving a row by hill climbing

A chosen candidate is swept from left to right: at each position that is not
pinned, the value that newly covers most takes the place of the current one if
it is strictly better and completes no exclusion. Sweeps go on while they
change something, up to a limit.

## Main definitions

* `bestValue`: The best value at one position.
* `sweep`: One pass over the positions.
* `climb`: Passes until nothing changes.

## Theorems

* `length_sweep`, `length_climb`: A row keeps its width.
-/

namespace Covering

/-- The value for a position that newly covers most obligations, given the rest
    of the row. The current value is kept unless another is strictly better;
    of equally good others the least is taken. -/
def bestValue (space : Space) (exclusions : ExclusionSet) (ledger : Ledger)
    (row : Row) (position : Nat) : Nat :=
  let current := row.getD position 0
  let better (best : Nat × Nat) (value : Nat) : Nat × Nat :=
    let row' := row.set position value
    if value = current ∨ exclusions.rowBlockedAt row' position then best
    else
      let score := ledger.scoreTouching row' position
      if best.2 < score then (value, score) else best
  ((List.range (space.count position)).foldl better
    (current, ledger.scoreTouching row position)).1

/-- One pass over the given positions, and the number of values it changed. -/
def sweep (space : Space) (exclusions : ExclusionSet) (ledger : Ledger) (pinned : Partial) :
    List Nat → Row → Row × Nat
  | [], row => (row, 0)
  | position :: rest, row =>
    if (pinned.at? position).isSome then sweep space exclusions ledger pinned rest row
    else
      let best := bestValue space exclusions ledger row position
      let moved := if best = row.getD position 0 then 0 else 1
      let (row, moves) :=
        sweep space exclusions ledger pinned rest (row.set position best)
      (row, moves + moved)

/-- At most the given number of passes, ending with the first that changes
    nothing, and the number of values changed by all. The positions that
    `pinned` binds are left alone. -/
def climb (space : Space) (exclusions : ExclusionSet) (ledger : Ledger) (pinned : Partial) :
    Nat → Row → Row × Nat
  | 0, row => (row, 0)
  | passes + 1, row =>
    let (row, moves) := sweep space exclusions ledger pinned (List.range row.length) row
    if moves = 0 then (row, 0)
    else
      let (row, more) := climb space exclusions ledger pinned passes row
      (row, moves + more)

@[simp] theorem length_sweep (space : Space) (exclusions : ExclusionSet) (ledger : Ledger)
    (pinned : Partial) (positions : List Nat) (row : Row) :
    (sweep space exclusions ledger pinned positions row).1.length = row.length := by
  induction positions generalizing row with
  | nil => rfl
  | cons position rest ih =>
    rw [sweep]
    split
    · exact ih row
    · exact (ih _).trans List.length_set

@[simp] theorem length_climb (space : Space) (exclusions : ExclusionSet) (ledger : Ledger)
    (pinned : Partial) (passes : Nat) (row : Row) :
    (climb space exclusions ledger pinned passes row).1.length = row.length := by
  induction passes generalizing row with
  | zero => rfl
  | succ passes ih =>
    simp only [climb]
    split
    · exact length_sweep ..
    · exact (ih _).trans (length_sweep ..)

end Covering
