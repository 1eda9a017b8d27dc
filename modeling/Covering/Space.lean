import Covering.Binding
import Covering.Fault

/-!
# The parameter space

A space has a number of values for each of its parameters and may weigh them.
It is built only through checked constructors, and what they check stays in the
type: there is a parameter, every parameter has a value, and weights have the
shape of the counts and are positive.

## Main definitions

* `Space`: Value counts and optional weights.
* `Space.ofCounts`, `Space.ofSigned`: The space of given counts.
* `Space.withWeights`: A space with weights attached.
* `Space.checkOrder`: The orders that make sense for a space.
* `Space.admits`: The rows of a space.
* `Space.rowFault?`: The first fault of a row.

## Theorems

* `Space.width_pos`: A space has a parameter.
* `Space.count_pos`: A parameter has a value.
-/

namespace Covering

/-- The parameters that rows range over. -/
structure Space where
  /-- The number of values of each parameter. -/
  counts : List Nat
  /-- A weight for each value of each parameter, if values are weighed. -/
  weights : Option (List (List Nat))
  counts_ne_nil : counts ≠ []
  counts_pos : ∀ count ∈ counts, 0 < count
  weights_shape : ∀ lists, weights = some lists → lists.map List.length = counts
  weights_pos : ∀ lists, weights = some lists → ∀ list ∈ lists, ∀ weight ∈ list, 0 < weight

namespace Space

/-- The unweighted space of the given counts. -/
def ofCounts (counts : List Nat) : Except InputFault Space :=
  if hne : counts = [] then .error .noParameters
  else match hzero : counts.findIdx? (· == 0) with
    | some position => .error (.noValues position)
    | none => .ok {
        counts
        weights := none
        counts_ne_nil := hne
        counts_pos := fun count hmem => by
          have := List.findIdx?_eq_none_iff.1 hzero count hmem
          simp only [beq_eq_false_iff_ne, ne_eq] at this
          omega
        weights_shape := fun _ h => nomatch h
        weights_pos := fun _ h => nomatch h }

/-- The position and value of the first negative count. -/
def negativeCount? (counts : List Int) : Option (Int × Nat) :=
  counts.zipIdx.find? fun entry => entry.1 < 0

/-- The unweighted space of counts that may have come with a sign. -/
def ofSigned (counts : List Int) : Except InputFault Space :=
  match negativeCount? counts with
  | some (count, position) => .error (.negativeCount position count)
  | none => ofCounts (counts.map Int.toNat)

/-- The first fault of weights for the given counts, from the given position
    on: a list of the wrong length, or a weight of zero. -/
def weightFault? : Nat → List (List Nat) → List Nat → Option InputFault
  | position, list :: lists, count :: counts =>
    if list.length ≠ count then some (.weightCount position count list.length)
    else if list.contains 0 then some (.zeroWeight position)
    else weightFault? (position + 1) lists counts
  | _, _, _ => none

theorem shape_of_weightFault?_eq_none {position : Nat} {lists : List (List Nat)}
    {counts : List Nat} (hlen : lists.length = counts.length)
    (h : weightFault? position lists counts = none) : lists.map List.length = counts := by
  induction lists generalizing position counts with
  | nil => cases counts with
    | nil => rfl
    | cons _ _ => simp at hlen
  | cons list lists ih => cases counts with
    | nil => simp at hlen
    | cons count counts =>
      simp only [weightFault?] at h
      split at h
      · exact absurd h (by simp)
      · split at h
        · exact absurd h (by simp)
        · rename_i hcount _
          simp only [ne_eq, Decidable.not_not] at hcount
          simp only [List.length_cons, Nat.add_right_cancel_iff] at hlen
          simp only [List.map_cons, hcount, ih hlen h]

theorem pos_of_weightFault?_eq_none {position : Nat} {lists : List (List Nat)}
    {counts : List Nat} (hlen : lists.length = counts.length)
    (h : weightFault? position lists counts = none) :
    ∀ list ∈ lists, ∀ weight ∈ list, 0 < weight := by
  induction lists generalizing position counts with
  | nil => intro _ hmem; exact absurd hmem (by simp)
  | cons list lists ih => cases counts with
    | nil => simp at hlen
    | cons count counts =>
      simp only [weightFault?] at h
      split at h
      · exact absurd h (by simp)
      · split at h
        · exact absurd h (by simp)
        · rename_i _ hzero
          simp only [List.length_cons, Nat.add_right_cancel_iff] at hlen
          intro list' hmem weight hweight
          rcases List.mem_cons.1 hmem with rfl | hmem
          · simp only [List.contains_eq_mem, decide_eq_true_eq] at hzero
            exact Nat.pos_of_ne_zero fun h0 => hzero (h0 ▸ hweight)
          · exact ih hlen h list' hmem weight hweight

/-- The space with weights attached, which must give one positive weight to
    each value of each parameter. -/
def withWeights (space : Space) (lists : List (List Nat)) : Except InputFault Space :=
  if hlen : lists.length = space.counts.length then
    match hfault : weightFault? 0 lists space.counts with
    | some fault => .error fault
    | none => .ok {
        counts := space.counts
        weights := some lists
        counts_ne_nil := space.counts_ne_nil
        counts_pos := space.counts_pos
        weights_shape := fun lists' h => by
          cases h
          exact shape_of_weightFault?_eq_none hlen hfault
        weights_pos := fun lists' h => by
          cases h
          exact pos_of_weightFault?_eq_none hlen hfault }
  else .error (.weightLists space.counts.length lists.length)

/-- The number of parameters. -/
def width (space : Space) : Nat := space.counts.length

/-- The number of values at a position; none outside the space. -/
def count (space : Space) (position : Nat) : Nat := space.counts.getD position 0

/-- The weights of the values at a position, if values are weighed. -/
def weightsAt? (space : Space) (position : Nat) : Option (List Nat) :=
  space.weights.map fun lists => lists.getD position []

/-- The orders of interaction a space has: one up to its width. -/
def checkOrder (space : Space) (order : Nat) : Except InputFault Unit :=
  if order = 0 then .error .zeroOrder
  else if space.width < order then .error (.orderTooLarge order space.width)
  else .ok ()

/-- Whether the row has a value of the space for every parameter. -/
def admits (space : Space) (row : Row) : Bool :=
  row.length == space.width && (row.zip space.counts).all fun entry => entry.1 < entry.2

/-- The first value out of range, from the given position on. -/
def valueFault? : Nat → Row → List Nat → Option RowFault
  | position, value :: row, count :: counts =>
    if value < count then valueFault? (position + 1) row counts
    else some (.outOfRange value position count)
  | _, _, _ => none

/-- The first fault of a row: its width before its values. -/
def rowFault? (space : Space) (row : Row) : Option RowFault :=
  if row.length = space.width then valueFault? 0 row space.counts
  else some (.wrongWidth row.length space.width)

theorem width_pos (space : Space) : 0 < space.width :=
  List.length_pos_iff.2 space.counts_ne_nil

theorem count_pos (space : Space) {position : Nat} (h : position < space.width) :
    0 < space.count position := by
  unfold width at h
  unfold count
  rw [List.getD_eq_getElem?_getD, List.getElem?_eq_getElem h, Option.getD_some]
  exact space.counts_pos _ (List.getElem_mem h)

end Space

end Covering
