import Covering.Obligation

/-!
# What can go wrong with a covering array

The five ways in which generating or checking an array fails, with the short
code that logs and scenario files use and the message a user reads.

## Main definitions

* `CoverError`: Why there is no array, or no verdict that it covers.
* `CoverError.code`: The stable code.
* `CoverError.message`: The text.
-/

namespace Covering

/-- Why an array was not generated, or was found wanting. -/
inductive CoverError where
  /-- The request itself is faulty. -/
  | invalidInput (fault : InputFault)
  /-- Some required obligations are in no row; the first of them are named. -/
  | coverageGap (total : Nat) (missing : List Obligation)
  /-- A row does not fit the space. -/
  | malformedRow (row : Nat) (fault : RowFault)
  /-- A row contains an excluded combination. -/
  | excludedRow (row : Nat) (exclusion : List Binding)
  /-- There are more obligations than may be handled. -/
  | overflow (obligations limit : Nat)
deriving DecidableEq, Repr

namespace CoverError

/-- The stable code of the error. -/
def code : CoverError → String
  | invalidInput _ => "invalid_input"
  | coverageGap _ _ => "coverage_gap"
  | malformedRow _ _ => "malformed_row"
  | excludedRow _ _ => "excluded_row"
  | overflow _ _ => "overflow"

/-- Bindings in an error message, such as `[(0, 1), (1, 1)]`. -/
def bindingList (bindings : List Binding) : String :=
  "[" ++ ", ".intercalate (bindings.map fun b => s!"({b.position}, {b.value})") ++ "]"

/-- The first of the missing obligations, in words. -/
def firstGap : List Obligation → String
  | [] => "<none recorded>"
  | o :: _ => o.display

/-- The text a user reads. -/
def message : CoverError → String
  | invalidInput fault => "invalid input: " ++ fault.message
  | coverageGap total missing =>
    s!"{total} obligation(s) uncovered, first: " ++ firstGap missing
  | malformedRow row fault => s!"row {row} is malformed: " ++ fault.message
  | excludedRow row exclusion =>
    s!"row {row} contains excluded combination " ++ bindingList exclusion
  | overflow obligations limit => s!"obligation count {obligations} exceeds limit {limit}"

end CoverError

/-- Reports the fault of a request as the reason there is no array. -/
def orInvalid {α : Type} (result : Except InputFault α) : Except CoverError α :=
  result.mapError .invalidInput

end Covering
