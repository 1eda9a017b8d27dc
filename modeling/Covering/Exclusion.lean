import Covering.Obligation

/-!
# Exclusions

Combinations that no row may contain. An exclusion is a set of bindings of
distinct positions inside a space; a set of exclusions is kept in a normal form
that blocks the same rows with as few members as possible: ordered by size and
then by bindings, without any member that contains another.

A set also knows, for each position, its members that bind the position, so
that after a change at one position only those need a look.

## Main definitions

* `Exclusion`: A combination to avoid.
* `Exclusion.ofBindings`: An exclusion of a space, checked.
* `ExclusionSet`: Exclusions with their index by position.
* `ExclusionSet.ofLists`: The set that excludes the given combinations.
* `violation?`, `blocksPartial`, `blocksAt`, `rowBlockedAt`,
  `blocksObligation`: What a set blocks.

## Theorems

* `mem_of_mem_normalize`: A normal form adds no exclusion of its own.
-/

namespace Covering

/-- A combination to avoid, with its bindings in order. -/
structure Exclusion where
  bindings : List Binding
deriving DecidableEq, Repr

namespace Exclusion

/-- Exclusions are ordered by their bindings. -/
instance : Ord Exclusion := ⟨compareOn (·.bindings)⟩

/-- The fault of a binding that names no value of the space. -/
def bindingFault? (space : Space) (b : Binding) : Option InputFault :=
  if space.width ≤ b.position then some (.exclusionPosition b.position space.width)
  else if space.count b.position ≤ b.value then some (.exclusionValue b.value b.position)
  else none

/-- The exclusion of the given combination, which must bind something, no
    position twice, and only values of the space. -/
def ofBindings (space : Space) (bindings : List Binding) : Except InputFault Exclusion :=
  if bindings.isEmpty then .error .emptyExclusion
  else
    let sorted := sortBindings bindings
    match repeatedPosition? sorted with
    | some position => .error (.repeatedInExclusion position)
    | none =>
      match sorted.findSome? (bindingFault? space) with
      | some fault => .error fault
      | none => .ok ⟨sorted⟩

/-- Whether the row contains the combination. -/
def matchesRow (e : Exclusion) (row : Row) : Bool := row.agrees e.bindings

/-- Whether the partial row already contains the combination. -/
def matchesPartial (e : Exclusion) (work : Partial) : Bool := work.agrees e.bindings

/-- Whether the obligation contains the combination. -/
def matchesObligation (e : Exclusion) (o : Obligation) : Bool :=
  e.bindings.all fun b => o.valueAt? b.position == some b.value

/-- Whether the exclusion binds the position. -/
def binds (e : Exclusion) (position : Nat) : Bool :=
  e.bindings.any (·.position == position)

/-- Whether every row that contains `other` contains `e`, because `e` makes no
    binding that `other` does not make. -/
def subsumes (e other : Exclusion) : Bool :=
  e.bindings.length ≤ other.bindings.length &&
    e.bindings.all fun b => other.bindings.contains b

/-- The order of a normal form: shorter exclusions first, then by bindings. -/
def precedes (e other : Exclusion) : Bool :=
  (compareLex (compareOn (·.bindings.length)) compare e other).isLE

end Exclusion

/-- Exclusions in force, with those that bind each position. -/
structure ExclusionSet where
  members : List Exclusion
  byPosition : List (List Exclusion)
deriving DecidableEq, Repr

namespace ExclusionSet

/-- The members that bind each position below `width`. -/
def index (width : Nat) (members : List Exclusion) : List (List Exclusion) :=
  (List.range width).map fun position => members.filter (·.binds position)

/-- The set of the given members for rows of the given width. -/
def ofMembers (width : Nat) (members : List Exclusion) : ExclusionSet :=
  ⟨members, index width members⟩

/-- The set that excludes nothing. -/
def empty (space : Space) : ExclusionSet := ofMembers space.width []

/-- The exclusions that no earlier kept one subsumes. -/
def keepMinimal (kept : List Exclusion) : List Exclusion → List Exclusion
  | [] => kept
  | e :: rest =>
    if kept.any (·.subsumes e) then keepMinimal kept rest
    else keepMinimal (kept ++ [e]) rest

/-- The normal form of exclusions. Shorter ones come first, so whatever
    subsumes an exclusion has been met before it. -/
def normalize (exclusions : List Exclusion) : List Exclusion :=
  keepMinimal [] (exclusions.mergeSort Exclusion.precedes)

theorem mem_of_mem_keepMinimal {kept exclusions : List Exclusion} {e : Exclusion}
    (h : e ∈ keepMinimal kept exclusions) : e ∈ kept ∨ e ∈ exclusions := by
  induction exclusions generalizing kept with
  | nil => exact Or.inl h
  | cons a rest ih =>
    rw [keepMinimal] at h
    split at h
    · exact (ih h).imp_right (List.mem_cons_of_mem a)
    · rcases ih h with hk | hr
      · rcases List.mem_append.1 hk with hk | ha
        · exact Or.inl hk
        · exact Or.inr (List.mem_singleton.1 ha ▸ List.mem_cons_self)
      · exact Or.inr (List.mem_cons_of_mem a hr)

/-- Every member of a normal form was given. -/
theorem mem_of_mem_normalize {exclusions : List Exclusion} {e : Exclusion}
    (h : e ∈ normalize exclusions) : e ∈ exclusions := by
  rcases mem_of_mem_keepMinimal h with hk | hs
  · exact absurd hk List.not_mem_nil
  · exact List.mem_mergeSort.1 hs

/-- The set that excludes the given combinations. -/
def ofLists (space : Space) (lists : List (List Binding)) : Except InputFault ExclusionSet := do
  let exclusions ← lists.mapM (Exclusion.ofBindings space)
  pure (ofMembers space.width (normalize exclusions))

/-- Whether nothing is excluded. -/
def isEmpty (set : ExclusionSet) : Bool := set.members.isEmpty

/-- The first member that the row contains. -/
def violation? (set : ExclusionSet) (row : Row) : Option Exclusion :=
  set.members.find? (·.matchesRow row)

/-- Whether the partial row already contains a member. -/
def blocksPartial (set : ExclusionSet) (work : Partial) : Bool :=
  set.members.any (·.matchesPartial work)

/-- The members that bind a position. -/
def touching (set : ExclusionSet) (position : Nat) : List Exclusion :=
  set.byPosition.getD position []

/-- Whether the partial row contains a member that binds the position. -/
def blocksAt (set : ExclusionSet) (work : Partial) (position : Nat) : Bool :=
  (set.touching position).any (·.matchesPartial work)

/-- Whether the row contains a member that binds the position. -/
def rowBlockedAt (set : ExclusionSet) (row : Row) (position : Nat) : Bool :=
  (set.touching position).any (·.matchesRow row)

/-- Whether the obligation contains a member. -/
def blocksObligation (set : ExclusionSet) (o : Obligation) : Bool :=
  set.members.any (·.matchesObligation o)

end ExclusionSet

end Covering
