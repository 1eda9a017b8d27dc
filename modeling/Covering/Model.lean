import Covering.Generator
import Covering.ToolError

/-!
# Models

A model is a request as a user writes it down: a name, value counts, an order,
a seed, and constraints. Nothing in it has been checked; counts may even be
negative. Checking happens on the way from the model to a generator.

## Main definitions

* `Model`: A request as written.
* `Model.space`, `Model.exclusionSet`, `Model.generator`: Its checked parts.
* `Model.generate`: The array that it asks for.
-/

namespace Covering

/-- A request as a user writes it down. -/
structure Model where
  name : String
  valueCounts : List Int
  order : Nat := 2
  seed : Nat := 0
  exclusions : List (List Binding) := []
  seedRows : List SeedRow := []
  weights : Option (List (List Nat)) := none
  submodels : List Submodel := []
  /-- The code of the error that the request is expected to cause. -/
  expectError : Option String := none
deriving DecidableEq, Repr

namespace Model

/-- The space of the model. -/
def space (model : Model) : Except InputFault Space := do
  let space ← Space.ofSigned model.valueCounts
  match model.weights with
  | none => pure space
  | some weights => space.withWeights weights

/-- The exclusions of the model. -/
def exclusionSet (model : Model) : Except InputFault ExclusionSet := do
  ExclusionSet.ofLists (← model.space) model.exclusions

/-- The request of the model under the given settings. -/
def generator (model : Model) (settings : Settings) : Except InputFault Generator := do
  let g ← Generator.ofSpace (← model.space) model.order
  let g ← g.withExclusions model.exclusions
  let g := (g.withSeedRows model.seedRows).withSettings settings
  model.submodels.foldlM (fun g submodel => g.withSubmodel submodel.positions submodel.order) g

/-- The array of the model under the given settings, with its statistics. -/
def generate (model : Model) (settings : Settings) :
    Except CoverError (CoveringArray × Statistics) := do
  let g ← orInvalid (model.generator settings)
  g.run model.seed

end Model

end Covering
