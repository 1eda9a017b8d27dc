/-!
# Faults of a request

Everything that can be wrong with a request before any row is drawn: a space
without parameters, an order that does not fit it, constraints that name
positions or values outside it. Each fault carries the numbers that its
message shows.

## Main definitions

* `InputFault`: Why a request is refused.
* `InputFault.message`: The reason in words.
* `RowFault`: Why a row does not fit a space.
-/

namespace Covering

/-- Why a request is refused. Positions and values are those of the request. -/
inductive InputFault where
  | noParameters
  | noValues (position : Nat)
  | negativeCount (position : Nat) (count : Int)
  | weightLists (expected got : Nat)
  | weightCount (position values weights : Nat)
  | zeroWeight (position : Nat)
  | zeroOrder
  | orderTooLarge (order width : Nat)
  | emptyObligation
  | repeatedInObligation (position : Nat)
  | emptyExclusion
  | repeatedInExclusion (position : Nat)
  | exclusionPosition (position width : Nat)
  | exclusionValue (value position : Nat)
  | seedRowWidth (got width : Nat)
  | seedRowValue (value position : Nat)
  | seedRowConflict
  | emptySubmodel
  | submodelNotAscending (first second : Nat)
  | submodelPosition (position width : Nat)
  | submodelOrder (order size : Nat)
deriving DecidableEq, Repr

/-- The reason, as a user reads it. -/
def InputFault.message : InputFault → String
  | .noParameters => "must have at least one parameter"
  | .noValues position => s!"parameter {position} has no values"
  | .negativeCount position count =>
    s!"parameter {position} has negative value count {count}"
  | .weightLists expected got => s!"expected weights for {expected} parameters, got {got}"
  | .weightCount position values weights =>
    s!"parameter {position} has {values} values but {weights} weights"
  | .zeroWeight position => s!"parameter {position} has a zero weight"
  | .zeroOrder => "order must be at least 1"
  | .orderTooLarge order width => s!"order {order} exceeds parameter count {width}"
  | .emptyObligation => "obligation binds no parameters"
  | .repeatedInObligation position => s!"obligation binds parameter {position} twice"
  | .emptyExclusion => "exclusion must name at least one value"
  | .repeatedInExclusion position => s!"exclusion binds parameter {position} twice"
  | .exclusionPosition position width =>
    s!"exclusion names parameter {position}, space has {width}"
  | .exclusionValue value position =>
    s!"exclusion value {value} out of range for parameter {position}"
  | .seedRowWidth got width => s!"seed row has {got} values, space has {width} parameters"
  | .seedRowValue value position => s!"seed value {value} out of range for parameter {position}"
  | .seedRowConflict => "seed row conflicts with the exclusions"
  | .emptySubmodel => "submodel has no parameters"
  | .submodelNotAscending first second =>
    s!"submodel positions must be distinct and ascending, got {first} then {second}"
  | .submodelPosition position width =>
    s!"submodel names parameter {position}, space has {width}"
  | .submodelOrder order size => s!"submodel order {order} outside 1..={size}"

/-- Why a row does not fit a space. -/
inductive RowFault where
  | wrongWidth (got expected : Nat)
  | outOfRange (value position count : Nat)
deriving DecidableEq, Repr

/-- The reason, as a user reads it. -/
def RowFault.message : RowFault → String
  | .wrongWidth got expected => s!"has {got} values, expected {expected}"
  | .outOfRange value position count => s!"value {value} at parameter {position} outside 0..{count}"

end Covering
