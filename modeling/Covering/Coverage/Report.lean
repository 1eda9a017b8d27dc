import Covering.Completion
import Covering.Submodel

/-!
# Checking coverage

An independent verdict on rows from anywhere: whether they fit the space,
avoid the exclusions, and contain every obligation that an exclusion-free row
can contain. Nothing here knows how rows are generated.

Faults are looked for in a fixed order: the order of interaction, the
submodels, the rows one after the other (shape before exclusions), and only
then what is missing.

## Main definitions

* `Report`: The totals of a successful check.
* `Tally`: What has been counted so far.
* `rowError?`: The first faulty row.
* `tally`: Every obligation sorted into covered, excluded and missing.
* `checkCoverage`: The verdict.
-/

namespace Covering

/-- The totals of a successful check. -/
structure Report where
  rows : Nat
  order : Nat
  obligationsTotal : Nat
  obligationsCovered : Nat
  /-- Obligations that no exclusion-free row contains. -/
  obligationsExcluded : Nat
deriving DecidableEq, Repr

/-- At most this many missing obligations are named. -/
def reportedGaps : Nat := 16

/-- The fault of a row: its shape before its exclusions. -/
def rowError? (space : Space) (exclusions : ExclusionSet) (entry : Row × Nat) :
    Option CoverError :=
  match space.rowFault? entry.1 with
  | some fault => some (.malformedRow entry.2 fault)
  | none => (exclusions.violation? entry.1).map fun e => .excludedRow entry.2 e.bindings

/-- Obligations counted by what became of them. -/
structure Tally where
  covered : Nat := 0
  excluded : Nat := 0
  /-- The missing obligations, the last one first. -/
  missing : List Obligation := []
deriving DecidableEq, Repr

namespace Tally

/-- Counts one obligation. -/
def add (space : Space) (exclusions : ExclusionSet) (seen : List (List Nat))
    (tally : Tally) (o : Obligation) : Tally :=
  if seen.contains o.values then { tally with covered := tally.covered + 1 }
  else if !exclusions.isEmpty && !exclusions.feasible space o then
    { tally with excluded := tally.excluded + 1 }
  else { tally with missing := o :: tally.missing }

/-- The value tuples that the rows have at the given positions. -/
def project (rows : List Row) (positions : List Nat) : List (List Nat) :=
  rows.map fun row => positions.map fun position => row.getD position 0

/-- Counts all obligations on the given positions. -/
def addSubset (space : Space) (exclusions : ExclusionSet) (rows : List Row)
    (tally : Tally) (positions : List Nat) : Tally :=
  (obligationsOn space positions).foldl
    (add space exclusions (project rows positions)) tally

/-- The number of obligations counted. -/
def total (tally : Tally) : Nat :=
  tally.covered + tally.excluded + tally.missing.length

end Tally

/-- Every obligation, sorted into those that some row contains, those that no
    exclusion-free row contains, and those that are missing. -/
def tally (space : Space) (order : Nat) (exclusions : ExclusionSet)
    (submodels : List Submodel) (rows : List Row) : Tally :=
  (trackedSubsets space order submodels).foldl (Tally.addSubset space exclusions rows) {}

/-- The verdict on rows: a report when they cover the space, and otherwise what
    is wrong with them or with the request. -/
def checkCoverage (rows : List Row) (space : Space) (order : Nat) (exclusions : ExclusionSet)
    (submodels : List Submodel) : Except CoverError Report := do
  orInvalid (space.checkOrder order)
  orInvalid (submodels.forM (·.check space))
  match rows.zipIdx.findSome? (rowError? space exclusions) with
  | some e => throw e
  | none =>
    let counts := tally space order exclusions submodels rows
    if counts.missing.isEmpty then
      pure { rows := rows.length
             order
             obligationsTotal := counts.total
             obligationsCovered := counts.covered
             obligationsExcluded := counts.excluded }
    else
      throw (.coverageGap counts.missing.length (counts.missing.reverse.take reportedGaps))

end Covering
