import Covering.Proofs.Generator.Termination
import Covering.Proofs.Guarded.Candidate

/-!
# A run never faults

`Guarded.Run.complete` is a run in which everything it takes for granted is
checked: each table that is indexed has the cell, each reference is to a cell, each
pick is from a list that has as many members, no total is lowered below zero, and
each row that is added is a row of the space without exclusion. It answers what a
run answers, so none of the checks ever fails.

The invariant of a run (`Run.Sound`) is what all of this rests on, and it speaks
of every state that a step starts from, not of the first only. A step that adds a
row does so with a completion that was improved or not, and completions are allowed
rows. A step that reads a cell has its reference from the ledger of that moment,
with one exception: the pass over what remains works off a list that was made
before, and there it is the size of the tables that keeps the reference in range.

## Main definitions

* `Guarded.Run.accept`: Adding a row, with both of its assertions.
* `Guarded.Run.round`: A round, guarded.
* `Guarded.Run.complete`: A run, guarded.

## Theorems

* `accept_eq_some`: Allowed rows are added without fault.
* `select_eq_some`, `refineAndAccept_eq_some`: Candidates are chosen, improved and
  added without fault.
* `addSeeded_eq_some`, `addGreedy_eq_some`, `addRemaining_eq_some`: Each kind of row
  comes about without fault.
* `run_never_faults`: Rounds meet no fault, and neither does the run they make up.
-/

namespace Covering

namespace Guarded

namespace Run

/-- The state before the first row. -/
def start (g : Generator) (seed : Nat) : Option Run := do
  let ledger ← Ledger.start g.space g.order g.submodels g.exclusions
  return { ledger
           random := Random.ofSeed seed.toUInt64
           rows := []
           statistics := {
             obligationsTotal := ledger.total
             obligationsExcluded := ledger.excluded } }

/-- Adds a row, which must be one of the space and contain no exclusion. -/
def accept (g : Generator) (run : Run) (row : Row) : Option Run :=
  if g.space.admits row = true ∧ g.exclusions.violation? row = none then do
    let (_, ledger) ← Ledger.mark run.ledger row
    return { run with ledger, rows := run.rows ++ [row] }
  else none

/-- The candidates with the best score. -/
def tied (ledger : Ledger) (pool : List Row) : Option (List Row) := do
  let best := (← pool.mapM (Ledger.score ledger)).foldl max 0
  filter? (fun row => do return (← Ledger.score ledger row) == best) pool

/-- The candidate that covers most, drawn among equals, of which there must be
    one. -/
def select (run : Run) (pool : List Row) : Option (Option Row × Run) :=
  if pool.isEmpty then some (none, run)
  else do
    let equals ← tied run.ledger pool
    let (index, random) := run.random.below equals.length
    return (some (← equals[index]?), { run with
      random
      statistics.candidatesScored := run.statistics.candidatesScored + pool.length })

/-- Improves a chosen candidate and adds it. -/
def refineAndAccept (g : Generator) (run : Run) (pinned : Partial) (row : Row) : Option Run := do
  let (row, moves) ← match g.settings.refinement with
    | .off => some (row, 0)
    | .hillClimb => climb g.space g.exclusions run.ledger pinned g.settings.refinePasses row
  accept g { run with statistics.refineMoves := run.statistics.refineMoves + moves } row

/-- The candidates for a seed row. -/
def seedPool (g : Generator) (fixed : SeedRow) (random : Random) :
    Option (List Row × Random) := do
  let (drawn, random) ← drawPool g.space g.exclusions fixed g.settings.candidatePool random
  if drawn.isEmpty then return ((← complete? g.exclusions g.space fixed).toList, random)
  else return (drawn, random)

/-- Adds the row of a seed row. -/
def addSeeded (g : Generator) (run : Run) (fixed : SeedRow) : Option Run := do
  let (pool, random) ← seedPool g fixed run.random
  match ← select { run with random } pool with
  | (none, run) => pure run
  | (some row, run) => do
    let run ← refineAndAccept g run fixed row
    return { run with statistics.seededRows := run.statistics.seededRows + 1 }

/-- Strikes out an obligation that no exclusion-free row contains. -/
def strikeOut (run : Run) (ref : CellRef) : Option Run := do
  return { run with
    ledger := ← Ledger.exclude run.ledger ref
    statistics.obligationsInfeasible := run.statistics.obligationsInfeasible + 1 }

/-- Draws up to `n` candidates, each for an uncovered obligation drawn anew. -/
def drawAnchored (g : Generator) : Nat → Run → Option (List Row × Bool × Run)
  | 0, run => some ([], false, run)
  | n + 1, run => do
    match ← Ledger.randomUncovered run.ledger run.random with
    | (none, random) => pure ([], false, { run with random })
    | (some anchor, random) => do
      let run := { run with random }
      let fixed ← toPartial (← Ledger.obligationAt run.ledger anchor) g.space.width
      let completion ← complete? g.exclusions g.space fixed
      if !g.exclusions.isEmpty && completion.isNone then
        let (pool, _, run) ← drawAnchored g n (← strikeOut run anchor)
        return (pool, true, run)
      else
        let (row?, random) ← draw g.space g.exclusions fixed run.random
        let (pool, pruned, run) ← drawAnchored g n { run with random }
        return (row?.toList ++ pool, pruned, run)

/-- One greedy step. -/
def addGreedy (g : Generator) (run : Run) : Option (Step × Run) := do
  let (pool, pruned, run) ← drawAnchored g g.settings.candidatePool run
  let unsuccessful : Step := if pruned then .pruned else .stalled
  match ← select run pool with
  | (none, run) => pure (unsuccessful, run)
  | (some row, run) => do
    if 0 < (← Ledger.score run.ledger row) then
      return (.accepted, ← refineAndAccept g run (List.replicate g.space.width none) row)
    else pure (unsuccessful, run)

/-- Covers one obligation by its least completion, or strikes it out. -/
def addCompletion (g : Generator) (run : Run) (ref : CellRef) : Option Run := do
  if ← Ledger.isUncovered run.ledger ref then
    let fixed ← toPartial (← Ledger.obligationAt run.ledger ref) g.space.width
    match ← complete? g.exclusions g.space fixed with
    | some row => do
      let run ← accept g run row
      return { run with statistics.fallbackRows := run.statistics.fallbackRows + 1 }
    | none => strikeOut run ref
  else pure run

/-- Covers everything that remains, obligation by obligation. -/
def addRemaining (g : Generator) (run : Run) : Option Run :=
  run.ledger.uncoveredCells.foldlM (addCompletion g) run

/-- One round. -/
def round (g : Generator) (run : Run) : Option Run := do
  match ← addGreedy g run with
  | (.stalled, run) => addRemaining g run
  | (_, run) => pure run

/-- Rounds until nothing remains. -/
def finish (g : Generator) : (rounds : Nat) → Run → Option Run
  | 0, run => some run
  | rounds + 1, run =>
    if run.ledger.remaining = 0 then some run
    else do finish g rounds (← round g run)

/-- The run from its first row to its last. -/
def complete (g : Generator) (seed : Nat) : Option Run := do
  let seeded ← g.seedRows.foldlM (addSeeded g) (← start g seed)
  finish g seeded.ledger.remaining seeded

variable {g : Generator} {raw : List (List Binding)} {run : Run} {row : Row} {ref : CellRef}
  {choices : List (List Nat)}

section Choosing

/-- An allowed row is added without fault. -/
theorem accept_eq_some (h : run.ledger.WellFormed g.space choices)
    (hrow : g.space.Allows g.exclusions.lists row) :
    accept g run row = some (run.accept row) := by
  unfold accept
  rw [if_pos ⟨hrow.1, ExclusionSet.avoids_iff.1 hrow.2⟩, Ledger.mark_eq_some h hrow.1]
  rfl

/-- A row with an exclusion is not. -/
example : (accept .sample (Covering.Run.start .sample 2) [0, 0, 1]).isNone = true := by decide

theorem tied_eq_some {ledger : Ledger} (h : ledger.WellFormed g.space choices) {pool : List Row}
    (hpool : ∀ row ∈ pool, g.space.admits row = true) :
    tied ledger pool = some (Covering.Run.tied ledger pool) := by
  have hscores : pool.mapM (Ledger.score ledger) = some (pool.map ledger.score) :=
    mapM_eq_some fun row hrow => Ledger.score_eq_some h (hpool row hrow)
  unfold tied Covering.Run.tied
  rw [hscores, Option.bind_eq_bind, Option.bind_some]
  refine filter?_eq_some fun row hrow => ?_
  rw [Ledger.score_eq_some h (hpool row hrow)]
  rfl

/-- A candidate is chosen without fault. Of a pool with candidates some are tied,
    and the draw picks one of those. -/
theorem select_eq_some (run : Run) (h : run.ledger.WellFormed g.space choices) {pool : List Row}
    (hpool : ∀ row ∈ pool, g.space.admits row = true) :
    select run pool = some (run.select pool) := by
  unfold select Covering.Run.select
  split
  · rfl
  · rename_i hempty
    rw [List.isEmpty_iff] at hempty
    have hlt := run.random.below_lt
      (List.length_pos_iff.2 (Covering.Run.tied_ne_nil run.ledger hempty))
    rw [tied_eq_some h hpool]
    simp only [Option.bind_eq_bind, Option.bind_some, List.getElem?_eq_getElem hlt]
    rfl

/-- An allowed candidate is improved and added without fault. -/
theorem refineAndAccept_eq_some (hset : g.exclusions.Indexed)
    (h : run.ledger.WellFormed g.space choices) {pinned : Partial}
    (hpinned : pinned.length = g.space.width) (hrow : g.space.Allows g.exclusions.lists row) :
    refineAndAccept g run pinned row = some (run.refineAndAccept g pinned row) := by
  unfold refineAndAccept Covering.Run.refineAndAccept
  cases g.settings.refinement with
  | off => exact accept_eq_some h hrow
  | hillClimb =>
      -- Improving an allowed row leaves an allowed row.
      have hclimbed : Climbed g.space g.exclusions.lists run.ledger pinned row _ _ :=
        climb_climbed hset g.settings.refinePasses hrow
      rw [climb_eq_some hset h hpinned g.settings.refinePasses hrow]
      exact accept_eq_some h hclimbed.allows

end Choosing

section Seeds

/-- Candidates for a seed row of the right width are found without fault. -/
theorem seedPool_eq_some (hset : g.exclusions.Indexed) {fixed : SeedRow}
    (hfixed : fixed.length = g.space.width) (random : Random) :
    seedPool g fixed random =
      let drawn := Covering.drawPool g.space g.exclusions fixed g.settings.candidatePool random
      some (if drawn.1.isEmpty then (g.exclusions.complete? g.space fixed).toList else drawn.1,
        drawn.2) := by
  unfold seedPool
  rw [drawPool_eq_some hset hfixed, complete?_eq_some hset]
  simp only [Option.bind_eq_bind, Option.bind_some]
  split <;> rfl

/-- A seed row that can be completed adds its row without fault. -/
theorem addSeeded_eq_some (hset : g.exclusions.Indexed)
    (h : run.ledger.WellFormed g.space choices) {fixed : SeedRow}
    (hfixed : g.space.Completable g.exclusions.lists fixed) :
    addSeeded g run fixed = some (run.addSeeded g fixed) := by
  have hlen := (Space.admitsPartial_of_completable hfixed).1
  rcases Covering.Run.seedPool_spec hset hfixed g.settings.candidatePool run.random with
    ⟨hne, hpool⟩
  unfold addSeeded Covering.Run.addSeeded
  rw [seedPool_eq_some hset hlen]
  generalize Covering.drawPool g.space g.exclusions fixed g.settings.candidatePool run.random =
    drawn at hne hpool ⊢
  rcases drawn with ⟨drawn, random⟩
  simp only at hne hpool ⊢
  generalize (if drawn.isEmpty then (g.exclusions.complete? g.space fixed).toList else drawn) =
    pool at hne hpool ⊢
  -- Some candidate is chosen, and it is an allowed row.
  rcases Covering.Run.select_spec { run with random } hne with
    ⟨row, chosen, hselect, hchosen, hrow, _⟩
  have hbooks : chosen.ledger.WellFormed g.space choices := by
    rw [hchosen.ledger]
    exact h
  have hguarded : select { run with random } pool = some (some row, chosen) := by
    rw [← hselect]
    exact select_eq_some { run with random } h fun other hother => (hpool other hother).1.1
  simp only [Option.bind_eq_bind, Option.bind_some, hguarded, hselect,
    refineAndAccept_eq_some hset hbooks hlen (hpool row hrow).1]
  rfl

end Seeds

/-- Striking out what a reference in range is to meets no fault. -/
theorem strikeOut_eq_some (run : Run) (h : run.ledger.WellFormed g.space choices)
    (href : run.ledger.InRange ref) : strikeOut run ref = some (run.strikeOut ref) := by
  unfold strikeOut
  rw [Ledger.exclude_eq_some h href]
  rfl

section Greedy

/-- Candidates for uncovered obligations are drawn without fault. -/
theorem drawAnchored_eq_some (hg : g.Accepted raw) (n : Nat) (h : Covering.Run.Sound g run) :
    drawAnchored g n run = some (run.drawAnchored g n) := by
  induction n generalizing run with
  | zero => rfl
  | succ n ih =>
      have hsame (random : Random) : Covering.Run.Sound g { run with random } :=
        h.of_sameBooks ⟨rfl, rfl, rfl, rfl, rfl⟩
      unfold drawAnchored Covering.Run.drawAnchored
      rw [Ledger.randomUncovered_eq_some h.books]
      rcases Nat.eq_zero_or_pos run.ledger.remaining with hzero | hpos
      · -- Nothing remains, so there is no anchor to draw.
        rw [Covering.Ledger.randomUncovered, if_pos hzero]
        rfl
      · rcases Ledger.randomUncovered_eq h.books hpos run.random with ⟨anchor, hdraw, hanchor⟩
        have hrange := Ledger.inRange_of_isUncovered hanchor
        have ho := hg.inSpace (h.obligationAt_mem hanchor)
        rw [hdraw]
        simp only [Option.bind_eq_bind, Option.bind_some, complete?_eq_some hg.indexed,
          Ledger.obligationAt_eq_some h.books hrange, toPartial_eq_some ho.position_lt]
        split
        · rename_i hpruned
          -- Nothing completes the anchor, so striking it out keeps the invariant.
          rw [Bool.and_eq_true, Option.isNone_iff_eq_none] at hpruned
          have hinfeasible :=
            ExclusionSet.not_feasible_of_complete?_eq_none hg.indexed ho hpruned.2
          have hstruck :=
            Covering.Run.sound_strikeOut (hsame run.random.advance) hanchor hinfeasible
          rw [strikeOut_eq_some { run with random := run.random.advance } h.books hrange,
            Option.bind_some, ih hstruck]
          rfl
        · -- Drawing a candidate moves the stream and nothing else.
          rw [draw_eq_some hg.indexed (Obligation.length_toPartial ..), Option.bind_some,
            ih (hsame _)]
          rfl

/-- A greedy step meets no fault. What it chooses from is allowed, and what it
    adds is what it chose, improved. -/
theorem addGreedy_eq_some (hg : g.Accepted raw) (h : Covering.Run.Sound g run) :
    addGreedy g run = some (run.addGreedy g) := by
  have hanchored := Covering.Run.drawAnchored_spec hg g.settings.candidatePool h
  unfold addGreedy Covering.Run.addGreedy
  rw [drawAnchored_eq_some hg _ h]
  generalize Covering.Run.drawAnchored g g.settings.candidatePool run = drawn at hanchored
  rcases drawn with ⟨pool, pruned, after⟩
  simp only [Option.bind_eq_bind, Option.bind_some] at hanchored ⊢
  rw [select_eq_some after hanchored.sound.books fun row hrow => (hanchored.scores row hrow).1.1]
  by_cases hpool : pool = []
  · rw [hpool]
    rfl
  · -- Some candidate is chosen, from a pool of allowed rows.
    rcases Covering.Run.select_spec after hpool with
      ⟨candidate, chosen, hselect, hchosen, hmem, _⟩
    have hallows := (hanchored.scores candidate hmem).1
    have hbooks := (hanchored.sound.of_sameBooks hchosen).books
    have hfree : (List.replicate g.space.width (none : Option Nat)).length = g.space.width :=
      List.length_replicate
    simp only [hselect, Option.bind_some, Ledger.score_eq_some hbooks hallows.1,
      refineAndAccept_eq_some hg.indexed hbooks hfree hallows]
    split <;> rfl

end Greedy

section Remaining

/-- Covering one cell from a list meets no fault, as long as it is a cell. -/
theorem addCompletion_eq_some (hg : g.Accepted raw) (h : Covering.Run.Sound g run)
    (href : run.ledger.InRange ref) :
    addCompletion g run ref = some (run.addCompletion g ref) := by
  unfold addCompletion Covering.Run.addCompletion
  rw [Ledger.isUncovered_eq_some href]
  cases hopen : run.ledger.isUncovered ref with
  | false => rfl
  | true =>
      have ho := hg.inSpace (h.obligationAt_mem hopen)
      simp only [Option.bind_eq_bind, Option.bind_some, if_true, complete?_eq_some hg.indexed,
        Ledger.obligationAt_eq_some h.books href, toPartial_eq_some ho.position_lt]
      cases hcomplete : g.exclusions.complete? g.space
          ((run.ledger.obligationAt ref).toPartial g.space.width) with
      | none => exact strikeOut_eq_some run h.books href
      | some row =>
          -- A completion needs no improvement to be allowed.
          have hallows := (ExclusionSet.complete?_sound hg.indexed
            (Obligation.admitsPartial_toPartial ho) hcomplete).1
          simp only [accept_eq_some h.books hallows]
          rfl

/-- Covering one cell keeps references to other cells in range. -/
theorem inRange_addCompletion (hg : g.Accepted raw) (h : Covering.Run.Sound g run)
    (ref : CellRef) {other : CellRef} (hother : run.ledger.InRange other) :
    (run.addCompletion g ref).ledger.InRange other := by
  rcases Covering.Run.addCompletion_cases hg h ref with
    ⟨_, hstep⟩ | ⟨_, ⟨row, _, _, hsame⟩ | ⟨_, hstep⟩⟩
  · rwa [hstep]
  · rw [hsame.ledger]
    exact hother.mark row
  · rw [hstep]
    exact hother.exclude ref

/-- What remains is covered without fault. The list of cells was made before, and
    each of them is still a cell when its turn comes. -/
theorem addRemaining_eq_some (hg : g.Accepted raw) (h : Covering.Run.Sound g run) :
    addRemaining g run = some (run.addRemaining g) := by
  -- The invariant of the fold is about the cells still to come, open or not.
  refine foldlM_eq_some (fun rest run => Covering.Run.Sound g run ∧
    ∀ ref ∈ rest, run.ledger.InRange ref) (fun ref rest run h => ?_)
    ⟨h, fun ref href => Ledger.inRange_of_isUncovered (Ledger.mem_uncoveredCells_iff.1 href)⟩
  rcases h with ⟨hsound, hrest⟩
  rw [List.forall_mem_cons] at hrest
  exact ⟨addCompletion_eq_some hg hsound hrest.1, Covering.Run.sound_addCompletion hg hsound ref,
    fun other hother => inRange_addCompletion hg hsound ref (hrest.2 other hother)⟩

end Remaining

section Rounds

/-- A round meets no fault. -/
theorem round_eq_some (hg : g.Accepted raw) (h : Covering.Run.Sound g run) :
    round g run = some (run.round g) := by
  have hgreedy := (Covering.Run.addGreedy_spec hg h).sound
  unfold round Covering.Run.round
  rw [addGreedy_eq_some hg h]
  generalize Covering.Run.addGreedy g run = greedy at hgreedy
  rcases greedy with ⟨step, after⟩
  cases step with
  | accepted => rfl
  | pruned => rfl
  | stalled => exact addRemaining_eq_some hg hgreedy

theorem finish_eq_some (hg : g.Accepted raw) (rounds : Nat) (h : Covering.Run.Sound g run) :
    finish g rounds run = some (run.finish g rounds) := by
  induction rounds generalizing run with
  | zero => rfl
  | succ rounds ih =>
      rw [finish, Covering.Run.finish]
      split
      · rfl
      · rw [round_eq_some hg h]
        exact ih (Covering.Run.round_spec hg h).1

/-- The rows for seed rows that can be completed are added without fault. -/
theorem foldlM_addSeeded_eq_some (hset : g.exclusions.Indexed) {seedRows : List SeedRow}
    (hfixed : ∀ fixed ∈ seedRows, g.space.Completable g.exclusions.lists fixed)
    (h : Covering.Run.Sound g run) :
    seedRows.foldlM (addSeeded g) run = some (seedRows.foldl (Covering.Run.addSeeded g) run) := by
  refine foldlM_eq_some (fun rest run => Covering.Run.Sound g run ∧
    ∀ fixed ∈ rest, g.space.Completable g.exclusions.lists fixed) (fun fixed rest run h => ?_)
    ⟨h, hfixed⟩
  rcases h with ⟨hsound, hrest⟩
  rw [List.forall_mem_cons] at hrest
  exact ⟨addSeeded_eq_some hset hsound.books hrest.1,
    Covering.Run.sound_addSeeded hset hsound hrest.1, hrest.2⟩

theorem start_eq_some (hg : g.Accepted raw) (seed : Nat) :
    start g seed = some (Covering.Run.start g seed) := by
  unfold start
  rw [Ledger.start_eq_some hg.wellPosed]
  rfl

/-- A run never faults, and neither does any round of it from the state that the
    run has come to. Whatever is indexed or picked on the way is there, no total is
    lowered below zero, and each row that is added is one of the space without
    exclusion, whichever way it came about. -/
theorem run_never_faults (hg : g.Accepted raw) (hcheck : g.check = .ok ()) (seed : Nat) :
    (∀ run, Covering.Run.Reached g seed run → round g run = some (run.round g)) ∧
      complete g seed = some (Covering.Run.complete g seed) := by
  constructor
  · intro run hreached
    exact round_eq_some hg (Covering.Run.sound_reached hg hcheck hreached)
  · have hstart := Covering.Run.sound_start hg seed
    have hcompletable := Generator.completable_of_check hg hcheck
    unfold complete
    rw [start_eq_some hg, Option.bind_eq_bind, Option.bind_some,
      foldlM_addSeeded_eq_some hg.indexed hcompletable hstart]
    exact finish_eq_some hg _ (Covering.Run.sound_seeded hg hcheck seed)

/-- The sample's run has a seed row, greedy rows and an obligation to strike out,
    and nothing in it is at fault. -/
theorem run_never_faults_sample :
    complete .sample 2 = some (Covering.Run.complete .sample 2) ∧
      (Covering.Run.complete .sample 2).rows = Generator.sampleArray.rows := by
  have hrun := Generator.run_eq_ok_iff.1 Generator.run_sample
  exact ⟨(run_never_faults Generator.accepted_sample hrun.1 2).2,
    (congrArg CoveringArray.rows hrun.2.1).symm⟩

end Rounds

end Run

end Guarded

end Covering
