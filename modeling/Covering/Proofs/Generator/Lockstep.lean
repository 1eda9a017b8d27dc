import Covering.Generator

/-!
# Requests that run in lockstep

When two requests are answered alike, word for word of the stream.

A run looks at its request in a few places only. Of the space it sees the
counts, and through `pickValue` the odds that weights give. Of the submodels it
sees the choices of positions that they add. So two requests that agree there
go through the same states from the first row to the last, and what they return
differs at most in the submodels that the arrays record.

The proofs follow the run. Each function that takes a space or a request has
one congruence lemma, which is proved from those of the functions it calls.
Only drawing a value needs more than that: it is asked to agree on the values
that a position has, so a draw must be seen to offer no others.

## Main definitions

* `Space.DrawsAlike`: Two spaces with the same counts, where values are drawn
  alike.
* `Generator.Alike`: Two requests that agree wherever a run looks.

## Theorems

* `complete?_congr`: The search for a completion sees only the counts.
* `draw_congr`, `climb_congr`: So do draws, but for the odds, and hill climbing.
* `ledgerStart_congr`: The ledger sees counts and choices of positions.
* `check_congr`, `complete_congr`: Like requests pass the same checks, and go
  through the same states.
* `run_congr`: They are answered alike.
-/

namespace Covering

namespace Space

/-- Two spaces with the same counts, where any values of a position are drawn
    alike. -/
structure DrawsAlike (space other : Space) : Prop where
  counts : other.counts = space.counts
  pick : ∀ (position : Nat) (values : List Nat) (random : Random),
    (∀ value ∈ values, value < space.count position) →
      pickValue other position values random = pickValue space position values random

theorem DrawsAlike.refl (space : Space) : space.DrawsAlike space := ⟨rfl, fun _ _ _ _ => rfl⟩

end Space

section SameCounts

variable {space other : Space} (h : other.counts = space.counts)

include h

theorem Space.width_congr : other.width = space.width := by
  rw [Space.width, Space.width, h]

theorem Space.count_congr (position : Nat) : other.count position = space.count position := by
  rw [Space.count, Space.count, h]

theorem Space.checkOrder_congr (order : Nat) : other.checkOrder order = space.checkOrder order := by
  rw [Space.checkOrder, Space.checkOrder, Space.width_congr h]

theorem ExclusionSet.fill_congr (set : ExclusionSet) (free : List Nat) (work : Partial) :
    set.fill other free work = set.fill space free work := by
  induction free generalizing work with
  | nil => rfl
  | cons position free ih => simp only [fill, Space.count_congr h, ih]

/-- The search for a completion sees only the counts. -/
theorem ExclusionSet.complete?_congr (set : ExclusionSet) (work : Partial) :
    set.complete? other work = set.complete? space work := by
  rw [complete?, complete?, Space.width_congr h, fill_congr h]

theorem allowedValues_congr (set : ExclusionSet) (work : Partial) (position : Nat) :
    allowedValues other set work position = allowedValues space set work position := by
  rw [allowedValues, allowedValues, Space.count_congr h]

theorem bestValue_congr (set : ExclusionSet) (ledger : Ledger) (row : Row) (position : Nat) :
    bestValue other set ledger row position = bestValue space set ledger row position := by
  rw [bestValue, bestValue, Space.count_congr h]

theorem sweep_congr (set : ExclusionSet) (ledger : Ledger) (pinned : Partial)
    (positions : List Nat) (row : Row) :
    sweep other set ledger pinned positions row = sweep space set ledger pinned positions row := by
  induction positions generalizing row with
  | nil => rfl
  | cons position rest ih => simp only [sweep, bestValue_congr h, ih]

/-- Hill climbing sees only the counts. -/
theorem climb_congr (set : ExclusionSet) (ledger : Ledger) (pinned : Partial) (passes : Nat)
    (row : Row) :
    climb other set ledger pinned passes row = climb space set ledger pinned passes row := by
  induction passes generalizing row with
  | zero => rfl
  | succ passes ih => simp only [climb, sweep_congr h, ih]

theorem SeedRow.valueFault?_congr (position : Nat) (row : SeedRow) :
    valueFault? other position row = valueFault? space position row := by
  induction row generalizing position with
  | nil => rfl
  | cons entry rest ih => cases entry <;> simp only [valueFault?, Space.count_congr h, ih]

theorem SeedRow.check_congr (row : SeedRow) (set : ExclusionSet) :
    row.check other set = row.check space set := by
  rw [check, check, Space.width_congr h, valueFault?_congr h, ExclusionSet.complete?_congr h]

theorem Table.ofPositions_congr : Table.ofPositions other = Table.ofPositions space := by
  funext positions
  have hcount : other.count = space.count := funext (Space.count_congr h)
  rw [ofPositions, ofPositions, hcount]

theorem addSubsets_congr (total : Nat) (choices : List (List Nat)) :
    addSubsets other total choices = addSubsets space total choices := by
  have hcount : other.count = space.count := funext (Space.count_congr h)
  induction choices generalizing total with
  | nil => rfl
  | cons positions rest ih => simp only [addSubsets, tupleCount, hcount, ih]

theorem obligationCount_congr (order : Nat) :
    obligationCount other order = obligationCount space order := by
  rw [obligationCount, obligationCount, Space.checkOrder_congr h, h]

section SameChoices

variable {order : Nat} {submodels others : List Submodel}
  (hchoices : extraSubsets order others = extraSubsets order submodels)

include hchoices

theorem obligationCountWith_congr :
    obligationCountWith other order others = obligationCountWith space order submodels := by
  rw [obligationCountWith, obligationCountWith, obligationCount_congr h, hchoices,
    funext (addSubsets_congr h · _)]

theorem trackedSubsets_congr :
    trackedSubsets other order others = trackedSubsets space order submodels := by
  rw [trackedSubsets, trackedSubsets, Space.width_congr h, hchoices]

/-- The ledger of a run sees counts and choices of positions. -/
theorem ledgerStart_congr (set : ExclusionSet) :
    Ledger.start other order others set = Ledger.start space order submodels set := by
  rw [Ledger.start, Ledger.start, trackedSubsets_congr h hchoices, Table.ofPositions_congr h]

end SameChoices

end SameCounts

section Draws

variable {space other : Space} (h : space.DrawsAlike other)

include h

/-- Filling position by position draws alike: what is offered are values that
    the position has. -/
theorem drawFrom_congr (set : ExclusionSet) (fixed : Partial) (positions : List Nat)
    (work : Partial) (random : Random) :
    drawFrom other set fixed positions work random =
      drawFrom space set fixed positions work random := by
  induction positions generalizing work random with
  | nil => rfl
  | cons position rest ih =>
      have hpick := h.pick position (allowedValues space set work position) random
        fun value hvalue => List.mem_range.1 (List.mem_filter.1 hvalue).1
      simp only [drawFrom, allowedValues_congr h.counts, ExclusionSet.complete?_congr h.counts,
        hpick, ih]

theorem draw_congr (set : ExclusionSet) (fixed : Partial) (random : Random) :
    draw other set fixed random = draw space set fixed random :=
  drawFrom_congr h set fixed _ fixed random

theorem drawPool_congr (set : ExclusionSet) (fixed : Partial) (n : Nat) (random : Random) :
    drawPool other set fixed n random = drawPool space set fixed n random := by
  induction n generalizing random with
  | zero => rfl
  | succ n ih => simp only [drawPool, draw_congr h, ih]

end Draws

namespace Generator

/-- Two requests that agree wherever a run looks. -/
structure Alike (g g' : Generator) : Prop where
  space : g.space.DrawsAlike g'.space
  order : g'.order = g.order
  exclusions : g'.exclusions = g.exclusions
  seedRows : g'.seedRows = g.seedRows
  choices : extraSubsets g.order g'.submodels = extraSubsets g.order g.submodels
  settings : g'.settings = g.settings

end Generator

namespace Run

variable {g g' : Generator} (h : g.Alike g')

include h

theorem start_congr (seed : Nat) : start g' seed = start g seed := by
  rw [start, start, h.order, h.exclusions, ledgerStart_congr h.space.counts h.choices]

theorem refineAndAccept_congr (run : Run) (pinned : Partial) (row : Row) :
    refineAndAccept g' run pinned row = refineAndAccept g run pinned row := by
  simp only [refineAndAccept, h.settings, h.exclusions, climb_congr h.space.counts]

theorem addSeeded_congr : addSeeded g' = addSeeded g := by
  funext run fixed
  simp only [addSeeded, h.settings, h.exclusions, drawPool_congr h.space,
    ExclusionSet.complete?_congr h.space.counts, refineAndAccept_congr h]

theorem drawAnchored_congr (n : Nat) (run : Run) :
    drawAnchored g' n run = drawAnchored g n run := by
  induction n generalizing run with
  | zero => rfl
  | succ n ih =>
      simp only [drawAnchored, h.exclusions, Space.width_congr h.space.counts,
        ExclusionSet.complete?_congr h.space.counts, draw_congr h.space, ih]

theorem addGreedy_congr (run : Run) : addGreedy g' run = addGreedy g run := by
  simp only [addGreedy, h.settings, drawAnchored_congr h, Space.width_congr h.space.counts,
    refineAndAccept_congr h]

theorem addCompletion_congr : addCompletion g' = addCompletion g := by
  funext run ref
  simp only [addCompletion, h.exclusions, Space.width_congr h.space.counts,
    ExclusionSet.complete?_congr h.space.counts]

theorem round_congr (run : Run) : round g' run = round g run := by
  simp only [round, addGreedy_congr h, addRemaining, addCompletion_congr h]

theorem finish_congr (rounds : Nat) (run : Run) : finish g' rounds run = finish g rounds run := by
  induction rounds generalizing run with
  | zero => rfl
  | succ rounds ih => simp only [finish, round_congr h, ih]

/-- Like requests go through the same states. -/
theorem complete_congr (seed : Nat) : complete g' seed = complete g seed := by
  simp only [complete, h.seedRows, addSeeded_congr h, start_congr h, finish_congr h]

end Run

namespace Generator

variable {g g' : Generator} (h : g.Alike g')

include h

/-- Like requests pass the same checks. -/
theorem check_congr : g'.check = g.check := by
  rw [check, check, h.seedRows, h.exclusions, h.order, h.settings,
    funext fun row => SeedRow.check_congr h.space.counts row g.exclusions,
    obligationCountWith_congr h.space.counts h.choices]

/-- Like requests are answered alike, errors included. Only the array records
    its own submodels. -/
theorem run_congr (seed : Nat) :
    g'.run seed =
      (g.run seed).map fun done => ({ done.1 with submodels := g'.submodels }, done.2) := by
  rw [run, run, check_congr h]
  cases g.check with
  | error e => rfl
  | ok _ =>
      -- Both are past their checks, and have the same rows to show.
      simp only [bind, Except.bind, pure, Except.pure, Except.map, Run.complete_congr h, h.order,
        h.space.counts]

end Generator

end Covering
