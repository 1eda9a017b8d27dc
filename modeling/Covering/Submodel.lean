import Covering.Arithmetic
import Covering.Count

/-!
# Submodels

A submodel raises the order of interaction within a group of parameters: each
choice of that many positions of the group has to be covered as well. Only
orders above the model's own add anything, since a smaller choice already lies
in one of the model's. Groups may overlap; a choice that several of them make
is covered once.

## Main definitions

* `Submodel`: A group of positions and its order.
* `Submodel.ofPositions`: A checked submodel of a space.
* `Submodel.check`: The first fault of a submodel.
* `extraSubsets`: The choices of positions that submodels add.
* `trackedSubsets`: All choices to be covered, in order.
* `obligationCountWith`, `rowLowerBoundWith`: Counts that include submodels.
-/

namespace Covering

/-- A group of parameters covered at an order of its own. -/
structure Submodel where
  positions : List Nat
  order : Nat
deriving DecidableEq, Repr

namespace Submodel

/-- The first neighbours that do not ascend. -/
def descent? : List Nat → Option (Nat × Nat)
  | a :: b :: rest => if a < b then descent? (b :: rest) else some (a, b)
  | _ => none

/-- The first fault of a submodel of the space: no positions, positions that do
    not ascend, a position outside the space, or an order outside the group. -/
def fault? (submodel : Submodel) (space : Space) : Option InputFault :=
  if submodel.positions.isEmpty then some .emptySubmodel
  else match descent? submodel.positions with
    | some (a, b) => some (.submodelNotAscending a b)
    | none =>
      match submodel.positions.find? (space.width ≤ ·) with
      | some position => some (.submodelPosition position space.width)
      | none =>
        if submodel.order = 0 ∨ submodel.positions.length < submodel.order then
          some (.submodelOrder submodel.order submodel.positions.length)
        else none

/-- Accepts the submodels that fit the space. -/
def check (submodel : Submodel) (space : Space) : Except InputFault Unit :=
  match submodel.fault? space with
  | some fault => .error fault
  | none => .ok ()

/-- The submodel of the given positions, in any order. -/
def ofPositions (space : Space) (positions : List Nat) (order : Nat) :
    Except InputFault Submodel := do
  let submodel : Submodel := ⟨positions.mergeSort fun a b => decide (a ≤ b), order⟩
  submodel.check space
  pure submodel

/-- The choices of positions that the submodel asks for. -/
def subsets (submodel : Submodel) : List (List Nat) :=
  if submodel.order = 0 then [] else choose submodel.order submodel.positions

end Submodel

/-- The choices of positions that the submodels add to a model of the given
    order, each once, in lexicographic order. -/
def extraSubsets (order : Nat) (submodels : List Submodel) : List (List Nat) :=
  let raised := submodels.filter (order < ·.order)
  ((raised.flatMap Submodel.subsets).mergeSort isLE).eraseReps

/-- The choices of positions to be covered: the model's own, then those that
    the submodels add. -/
def trackedSubsets (space : Space) (order : Nat) (submodels : List Submodel) : List (List Nat) :=
  subsets space.width order ++ extraSubsets order submodels

/-- The number of value tuples on the given positions. -/
def tupleCount (space : Space) (positions : List Nat) : Nat :=
  productOf (positions.map space.count)

/-- Adds the obligations on further choices of positions to a count. -/
def addSubsets (space : Space) (total : Nat) : List (List Nat) → Except CoverError Nat
  | [] => .ok total
  | positions :: rest =>
    match checkedCount (total + tupleCount space positions) with
    | .error e => .error e
    | .ok total => addSubsets space total rest

/-- The number of obligations of the space at the given order, with those that
    the submodels add. -/
def obligationCountWith (space : Space) (order : Nat) (submodels : List Submodel) :
    Except CoverError Nat := do
  let total ← obligationCount space order
  addSubsets space total (extraSubsets order submodels)

/-- A number of rows that every array has that covers the space at this order
    and the submodels. -/
def rowLowerBoundWith (space : Space) (order : Nat) (submodels : List Submodel) :
    Except CoverError Nat := do
  let base ← rowLowerBound space order
  let bounds := (extraSubsets order submodels).map fun positions =>
    saturatingProduct (positions.map space.count)
  pure (bounds.foldl max base)

end Covering
