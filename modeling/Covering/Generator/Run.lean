import Covering.Generator.Draw
import Covering.Generator.Refine
import Covering.SeedRow
import Covering.Settings

/-!
# The run

A run turns a request into rows. Seed rows come first, each completed to the
best of a pool of candidates with its own bindings held fixed. Then rows are
added greedily: every candidate of a pool contains one obligation drawn from
those still uncovered, the one that covers most is chosen (ties by lot),
improved by hill climbing and added. An obligation that turns out to lie in no
exclusion-free row is struck out. When a pool comes out empty although
obligations remain, the rest is covered row by row with least completions.

Every random decision comes from one stream, so request and seed decide the
rows and their order.

## Main definitions

* `Generator`: A request.
* `Run`: The state between two rows.
* `Statistics`: What a run reports about itself.
* `Run.select`: The choice among candidates.
* `Run.addSeeded`, `Run.addGreedy`, `Run.addRemaining`: The ways rows arise.
* `Run.finish`: The loop that covers everything.
-/

namespace Covering

/-- A request: what to cover, what to avoid, and how hard to try. -/
structure Generator where
  space : Space
  order : Nat
  exclusions : ExclusionSet
  seedRows : List SeedRow
  submodels : List Submodel
  settings : Settings

/-- What a run reports about itself. -/
structure Statistics where
  obligationsTotal : Nat := 0
  obligationsExcluded : Nat := 0
  obligationsInfeasible : Nat := 0
  rows : Nat := 0
  seededRows : Nat := 0
  fallbackRows : Nat := 0
  candidatesScored : Nat := 0
  refineMoves : Nat := 0
deriving DecidableEq, Repr

/-- The state of a run between two rows. -/
structure Run where
  ledger : Ledger
  random : Random
  rows : List Row
  statistics : Statistics

/-- What one greedy step achieved. -/
inductive Step where
  /-- A row was added. -/
  | accepted
  /-- No row, but obligations were struck out. -/
  | pruned
  /-- Nothing. -/
  | stalled
deriving DecidableEq, Repr

namespace Run

/-- The state before the first row. -/
def start (g : Generator) (seed : Nat) : Run :=
  let ledger := Ledger.start g.space g.order g.submodels g.exclusions
  { ledger
    random := Random.ofSeed seed.toUInt64
    rows := []
    statistics := {
      obligationsTotal := ledger.total
      obligationsExcluded := ledger.excluded } }

/-- Adds a row. -/
def accept (run : Run) (row : Row) : Run :=
  { run with ledger := (run.ledger.mark row).2, rows := run.rows ++ [row] }

/-- The candidates with the best score. -/
def tied (ledger : Ledger) (pool : List Row) : List Row :=
  let best := (pool.map ledger.score).foldl max 0
  pool.filter fun row => ledger.score row == best

/-- The candidate that covers most, drawn among equals. -/
def select (run : Run) (pool : List Row) : Option Row × Run :=
  if pool.isEmpty then (none, run)
  else
    let equals := tied run.ledger pool
    let (index, random) := run.random.below equals.length
    (equals[index]?, { run with
      random
      statistics.candidatesScored := run.statistics.candidatesScored + pool.length })

/-- Improves a chosen candidate and adds it. Positions that `pinned` binds keep
    their values. -/
def refineAndAccept (g : Generator) (run : Run) (pinned : Partial) (row : Row) : Run :=
  let (row, moves) := match g.settings.refinement with
    | .off => (row, 0)
    | .hillClimb => climb g.space g.exclusions run.ledger pinned g.settings.refinePasses row
  let run := { run with statistics.refineMoves := run.statistics.refineMoves + moves }
  run.accept row

/-- Adds the row of a seed row. -/
def addSeeded (g : Generator) (run : Run) (fixed : SeedRow) : Run :=
  let (pool, random) := drawPool g.space g.exclusions fixed g.settings.candidatePool run.random
  let pool := if pool.isEmpty then (g.exclusions.complete? g.space fixed).toList else pool
  match select { run with random } pool with
  | (none, run) => run
  | (some row, run) =>
    let run := refineAndAccept g run fixed row
    { run with statistics.seededRows := run.statistics.seededRows + 1 }

/-- Strikes out an obligation that no exclusion-free row contains. -/
def strikeOut (run : Run) (ref : CellRef) : Run :=
  { run with
    ledger := run.ledger.exclude ref
    statistics.obligationsInfeasible := run.statistics.obligationsInfeasible + 1 }

/-- Draws up to `n` candidates, each for an uncovered obligation drawn anew, and
    says whether an obligation was struck out on the way. -/
def drawAnchored (g : Generator) : Nat → Run → List Row × Bool × Run
  | 0, run => ([], false, run)
  | n + 1, run =>
    match run.ledger.randomUncovered run.random with
    | (none, random) => ([], false, { run with random })
    | (some anchor, random) =>
      let run := { run with random }
      let fixed := (run.ledger.obligationAt anchor).toPartial g.space.width
      if !g.exclusions.isEmpty && (g.exclusions.complete? g.space fixed).isNone then
        let (pool, _, run) := drawAnchored g n (run.strikeOut anchor)
        (pool, true, run)
      else
        let (row?, random) := draw g.space g.exclusions fixed run.random
        let (pool, pruned, run) := drawAnchored g n { run with random }
        (row?.toList ++ pool, pruned, run)

/-- One greedy step. -/
def addGreedy (g : Generator) (run : Run) : Step × Run :=
  let (pool, pruned, run) := drawAnchored g g.settings.candidatePool run
  let unsuccessful : Step := if pruned then .pruned else .stalled
  match select run pool with
  | (none, run) => (unsuccessful, run)
  | (some row, run) =>
    if 0 < run.ledger.score row then
      (.accepted, refineAndAccept g run (List.replicate g.space.width none) row)
    else (unsuccessful, run)

/-- Covers one obligation by its least completion, or strikes it out. One that
    has been covered meanwhile needs nothing. -/
def addCompletion (g : Generator) (run : Run) (ref : CellRef) : Run :=
  if run.ledger.isUncovered ref then
    match g.exclusions.complete? g.space ((run.ledger.obligationAt ref).toPartial g.space.width) with
    | some row =>
      let run := run.accept row
      { run with statistics.fallbackRows := run.statistics.fallbackRows + 1 }
    | none => run.strikeOut ref
  else run

/-- Covers everything that remains, obligation by obligation. -/
def addRemaining (g : Generator) (run : Run) : Run :=
  run.ledger.uncoveredCells.foldl (addCompletion g) run

/-- One round: a greedy step, and all that remains if that came to nothing. -/
def round (g : Generator) (run : Run) : Run :=
  match addGreedy g run with
  | (.stalled, run) => addRemaining g run
  | (_, run) => run

/-- Rounds until nothing remains. Each round leaves fewer obligations, so as
    many rounds as there are obligations suffice. -/
def finish (g : Generator) : (rounds : Nat) → Run → Run
  | 0, run => run
  | rounds + 1, run =>
    if run.ledger.remaining = 0 then run else finish g rounds (round g run)

/-- The run from its first row to its last. -/
def complete (g : Generator) (seed : Nat) : Run :=
  let seeded := g.seedRows.foldl (addSeeded g) (start g seed)
  finish g seeded.ledger.remaining seeded

end Run

end Covering
