import Covering.Enumeration
import Covering.Space

/-!
# Obligations

An obligation is a choice of positions with one value for each: a combination
that some row has to contain. The obligations of a space at an order are all
choices of that many positions, each with all its value tuples, in
lexicographic order of positions and then of values.

## Main definitions

* `Obligation`: Positions and the values they are bound to.
* `Obligation.ofBindings`: An obligation from bindings in any order.
* `Obligation.satisfiedBy`, `Obligation.toPartial`: The rows that contain it.
* `Obligation.display`: `{p0=1, p2=0}`.
* `obligations`: Every obligation of a space at an order.
* `Obligation.first?`, `Obligation.next?`: The same, one at a time.
-/

namespace Covering

/-- A combination to cover. The bindings pair positions and values in order; a
    position or a value without partner binds nothing. -/
structure Obligation where
  positions : List Nat
  values : List Nat
deriving DecidableEq, Repr

namespace Obligation

/-- Obligations are ordered by positions, then by values. -/
instance : Ord Obligation :=
  ⟨compareLex (compareOn (·.positions)) (compareOn (·.values))⟩

/-- The bindings of the obligation. -/
def bindings (o : Obligation) : List Binding :=
  List.zipWith Binding.mk o.positions o.values

/-- The obligation with the given bindings, which must bind something and no
    position twice. -/
def ofBindings (bindings : List Binding) : Except InputFault Obligation :=
  if bindings.isEmpty then .error .emptyObligation
  else
    let sorted := sortBindings bindings
    match repeatedPosition? sorted with
    | some position => .error (.repeatedInObligation position)
    | none => .ok ⟨sorted.map (·.position), sorted.map (·.value)⟩

/-- The number of parameters bound. -/
def order (o : Obligation) : Nat := o.positions.length

/-- Whether the row contains the combination. -/
def satisfiedBy (o : Obligation) (row : Row) : Bool := row.agrees o.bindings

/-- Whether every bound position lies in rows of the given width. -/
def fits (o : Obligation) (width : Nat) : Bool :=
  o.bindings.all fun b => b.position < width

/-- The partial row that binds what the obligation binds and nothing else. -/
def toPartial (o : Obligation) (width : Nat) : Partial :=
  Partial.ofBindings width o.bindings

/-- The value bound at a position, if the position is bound. -/
def valueAt? (o : Obligation) (position : Nat) : Option Nat :=
  (o.bindings.find? (·.position == position)).map (·.value)

/-- The obligation as a user reads it, such as `{p0=1, p2=0}`. -/
def display (o : Obligation) : String :=
  "\x7b" ++ ", ".intercalate (o.bindings.map fun b => s!"p{b.position}={b.value}") ++ "\x7d"

/-- The first obligation whose positions come no earlier than the given ones:
    all its values are zero, and it exists as every parameter has a value. -/
def firstAt? (space : Space) : Option (List Nat) → Option Obligation
  | none => none
  | some positions =>
    (Tuple.first? (positions.map space.count)).map fun values => ⟨positions, values⟩

/-- The first obligation of the given order. -/
def first? (space : Space) (order : Nat) : Option Obligation :=
  firstAt? space (Subset.first? space.width order)

/-- The obligation after the given one: its next value tuple, or else the first
    one of the next positions. -/
def next? (space : Space) (o : Obligation) : Option Obligation :=
  match Tuple.next? (o.positions.map space.count) o.values with
  | some values => some ⟨o.positions, values⟩
  | none => firstAt? space (Subset.next? space.width o.positions)

end Obligation

/-- The obligations on the given positions, in order of values. -/
def obligationsOn (space : Space) (positions : List Nat) : List Obligation :=
  (tuples (positions.map space.count)).map fun values => ⟨positions, values⟩

/-- Every obligation of the space at the given order, in order. -/
def obligations (space : Space) (order : Nat) : List Obligation :=
  (subsets space.width order).flatMap (obligationsOn space)

end Covering
