import Covering.CoveringArray
import Covering.Generator.Run

/-!
# The generator

Building a request step by step, and answering it. Each constraint is checked
when it is added; seed rows are checked when the generator runs, since
exclusions may still be added after them.

## Main definitions

* `Generator.ofSpace`: The request for an order, without constraints.
* `withExclusions`, `withSubmodel`, `withSeedRows`, `withSettings`: The parts
  of a request.
* `Generator.run`: The array of a seed, with statistics.
* `coveringRows`: Rows for plain counts.
-/

namespace Covering

namespace Generator

/-- The request to cover a space at an order. -/
def ofSpace (space : Space) (order : Nat) : Except InputFault Generator := do
  space.checkOrder order
  pure { space, order, exclusions := .empty space, seedRows := [], submodels := [],
         settings := .standard }

/-- Replaces the exclusions. -/
def withExclusions (g : Generator) (lists : List (List Binding)) :
    Except InputFault Generator := do
  pure { g with exclusions := ← ExclusionSet.ofLists g.space lists }

/-- Adds a submodel. -/
def withSubmodel (g : Generator) (positions : List Nat) (order : Nat) :
    Except InputFault Generator := do
  let submodel ← Submodel.ofPositions g.space positions order
  pure { g with submodels := g.submodels ++ [submodel] }

/-- Replaces the seed rows. -/
def withSeedRows (g : Generator) (seedRows : List SeedRow) : Generator :=
  { g with seedRows }

/-- Replaces the settings. -/
def withSettings (g : Generator) (settings : Settings) : Generator :=
  { g with settings }

/-- Refuses requests whose seed rows do not fit or that have more obligations
    than the settings allow. -/
def check (g : Generator) : Except CoverError Unit := do
  orInvalid (g.seedRows.forM fun row => SeedRow.check row g.space g.exclusions)
  let obligations ← obligationCountWith g.space g.order g.submodels
  if g.settings.maxObligations < obligations then
    throw (.overflow obligations g.settings.maxObligations)

/-- The array of the request for a seed, and what the run has to say. -/
def run (g : Generator) (seed : Nat) : Except CoverError (CoveringArray × Statistics) := do
  g.check
  let done := Run.complete g seed
  let array : CoveringArray :=
    { valueCounts := g.space.counts, order := g.order, seed, submodels := g.submodels,
      rows := done.rows }
  pure (array, { done.statistics with rows := done.rows.length })

end Generator

/-- Rows that cover the space of the given counts, without constraints. -/
def coveringRows (counts : List Nat) (order seed : Nat) : Except CoverError (List Row) := do
  let space ← orInvalid (Space.ofCounts counts)
  let g ← orInvalid (Generator.ofSpace space order)
  let (array, _) ← g.run seed
  pure array.rows

end Covering
