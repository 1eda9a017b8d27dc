import Covering.Matrix

/-!
# Requests too large for any memory

Some requests name the size of a list outright: the width of a partial row, the
length of a subset, the candidates of a pool, the cells of a table. No memory
has room for a list of 2^63 bytes, so such a request has no answer. What is
asked for here is answered with nothing then, before anything is started on;
everywhere else lists may be as long as they come.

Sizes are those of the records themselves: eight bytes for a number, sixteen
for an entry of a partial row, twenty-four for a row in a pool, one for a cell.

## Main definitions

* `hasRoom`: Whether a list has a size that memory can have.
* `Obligation.toPartial?`, `SeedRow.ofBindings?`, `Subset.start?`: Lists of a
  width or length that is asked for.
* `Generator.hasRoom`, `Model.hasRoom`: Whether there is room for all lists that
  a run starts with.
* `Generator.run?`, `Model.run?`, `runMatrix?`: Runs, if there is.
-/

namespace Covering

/-- Whether there can be room for as many items of so many bytes. -/
def hasRoom (count size : Nat) : Bool := count * size < signedLimit

/-- The partial row of the given width that binds what the obligation binds, if the
    obligation fits and there is room for the row. -/
def Obligation.toPartial? (o : Obligation) (width : Nat) : Option Partial :=
  if hasRoom width 16 && o.fits width then some (o.toPartial width) else none

/-- The seed row of the given width with the given bindings, if there is room for
    it. -/
def SeedRow.ofBindings? (width : Nat) (bindings : List Binding) : Option SeedRow :=
  if hasRoom width 16 then some (SeedRow.ofBindings width bindings) else none

/-- What the enumeration of the ascending lists of `k` numbers below `n` starts
    with, if there is room for that. -/
def Subset.start? (n k : Nat) : Option (Option (List Nat)) :=
  if k = 0 || n < k || hasRoom k 8 then some (Subset.first? n k) else none

namespace Generator

/-- Whether there can be a table for each choice of positions. -/
def tablesHaveRoom (g : Generator) : Bool :=
  (trackedSubsets g.space g.order g.submodels).all fun positions =>
    Covering.hasRoom (tupleCount g.space positions) 1

/-- Whether a run draws candidates: for a seed row, or because obligations
    remain that contain no exclusion. -/
def drawsCandidates (g : Generator) : Bool :=
  !g.seedRows.isEmpty ||
    (Ledger.start g.space g.order g.submodels g.exclusions).remaining ≠ 0

/-- Whether there can be the lists that a run of the request starts with. A
    request that is refused has no run. -/
def hasRoom (g : Generator) : Bool :=
  match g.check with
  | .error _ => true
  | .ok () =>
    g.tablesHaveRoom && (Covering.hasRoom g.settings.candidatePool 24 || !g.drawsCandidates)

/-- The array of the request for a seed, if there is room for a run. -/
def run? (g : Generator) (seed : Nat) :
    Option (Except CoverError (CoveringArray × Statistics)) :=
  if g.hasRoom then some (g.run seed) else none

end Generator

/-- Whether there can be the lists that a run of the model starts with. A model
    without a request has no run. -/
def Model.hasRoom (model : Model) (settings : Settings) : Bool :=
  match model.generator settings with
  | .error _ => true
  | .ok g => g.hasRoom

/-- What becomes of the model, if there is room for its run. -/
def Model.run? (model : Model) (settings : Settings) : Option ScenarioResult :=
  if model.hasRoom settings then some (model.run settings) else none

/-- The report of models, if there is room for all of their runs. -/
def runMatrix? (models : List Model) (settings : Settings) (campaign : String) :
    Option MatrixReport := do
  pure (matrixOf (← models.mapM (·.run? settings)) settings campaign)

end Covering
