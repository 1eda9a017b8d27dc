import Covering.Completion

/-!
# Seed rows

Partial rows that the caller wants at the head of an array, with the values
they bind held fixed. A seed row fits a space when it has the right width, its
values exist, and some exclusion-free row makes its bindings.

## Main definitions

* `SeedRow.ofBindings`: The seed row that makes the given bindings.
* `SeedRow.check`: Whether a seed row can lead an array.
-/

namespace Covering

/-- A partial row that an array shall start with. -/
abbrev SeedRow := Partial

namespace SeedRow

/-- The seed row of the given width with the given bindings. Later bindings
    win, and those outside the row are ignored. -/
def ofBindings (width : Nat) (bindings : List Binding) : SeedRow :=
  Partial.ofBindings width bindings

/-- The first bound value that its parameter does not have, from the given
    position on. -/
def valueFault? (space : Space) : Nat → SeedRow → Option InputFault
  | _, [] => none
  | position, none :: rest => valueFault? space (position + 1) rest
  | position, some value :: rest =>
    if value < space.count position then valueFault? space (position + 1) rest
    else some (.seedRowValue value position)

/-- Accepts the seed rows that an exclusion-free row of the space agrees with. -/
def check (row : SeedRow) (space : Space) (exclusions : ExclusionSet) : Except InputFault Unit :=
  if row.length ≠ space.width then .error (.seedRowWidth row.length space.width)
  else match valueFault? space 0 row with
    | some fault => .error fault
    | none =>
      if (exclusions.complete? space row).isSome then .ok () else .error .seedRowConflict

end SeedRow

end Covering
