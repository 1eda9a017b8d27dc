import Covering.Coverage.Report

/-!
# Covering arrays

The rows of a run together with the request they answer: value counts, order,
seed and submodels. An array can be checked on its own, from what it records.

## Main definitions

* `CoveringArray`: Rows and their request.
* `CoveringArray.check`: Whether the array covers what it records.
-/

namespace Covering

/-- Rows, and the request they were generated for. -/
structure CoveringArray where
  valueCounts : List Nat
  order : Nat
  seed : Nat
  submodels : List Submodel
  rows : List Row
deriving DecidableEq, Repr

namespace CoveringArray

/-- The verdict on the array under the given exclusions. The recorded counts
    are checked first, since the array may come from anywhere. -/
def check (array : CoveringArray) (exclusions : Option ExclusionSet) :
    Except CoverError Report := do
  let space ← orInvalid (Space.ofCounts array.valueCounts)
  checkCoverage array.rows space array.order
    (exclusions.getD (ExclusionSet.empty space)) array.submodels

end CoveringArray

end Covering
