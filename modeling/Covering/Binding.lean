/-!
# Bindings, rows and partial rows

A binding gives one parameter one value. Obligations, exclusions and seed rows
are all made of bindings; a row binds every parameter, and a partial row leaves
some of them free. Parameters are named by their position, from zero, and
values by their number, from zero.

## Main definitions

* `Binding`: A position and a value, ordered by position first.
* `Row`, `Partial`: Full and partial assignments of all positions.
* `sortBindings`: Bindings in order.
* `repeatedPosition?`: The first position that sorted bindings bind twice.
* `Row.agrees`, `Partial.agrees`: An assignment makes all the given bindings.
* `Partial.ofBindings`: The partial row that makes the given bindings.

## Theorems

* `pairwise_mergeSort_isLE`: Sorting by a comparison puts a list in its order.
* `mem_sortBindings`, `pairwise_sortBindings`: Sorting keeps the bindings and
  puts them in order.
* `length_bind`, `length_ofBindings`: Binding keeps the width.
* `at?_bind_self`, `at?_bind_of_ne`: Binding changes one position.
-/

namespace Covering

/-- One parameter bound to one value. -/
structure Binding where
  position : Nat
  value : Nat
deriving DecidableEq, Repr, Inhabited

/-- Bindings are ordered by position, then by value. -/
instance : Ord Binding :=
  ⟨compareLex (compareOn (·.position)) (compareOn (·.value))⟩

instance : Std.TransOrd Binding :=
  inferInstanceAs (Std.TransCmp (compareLex _ _))

instance : Std.LawfulEqOrd Binding where
  eq_of_compare {a b} h := by
    obtain ⟨p, v⟩ := a
    obtain ⟨q, w⟩ := b
    have h' : compareLex (compareOn (·.position)) (compareOn (·.value))
        (⟨p, v⟩ : Binding) ⟨q, w⟩ = .eq := h
    rw [compareLex_eq_eq] at h'
    simp only [compareOn, Nat.compare_eq_eq] at h'
    rw [h'.1, h'.2]

/-- A value for every position. -/
abbrev Row := List Nat

/-- A value for some positions; the others are free. -/
abbrev Partial := List (Option Nat)

/-- Whether `a` comes no later than `b`. -/
def isLE {α : Type} [Ord α] (a b : α) : Bool := (compare a b).isLE

/-- The bindings in order. -/
def sortBindings (bindings : List Binding) : List Binding :=
  bindings.mergeSort isLE

@[simp] theorem mem_sortBindings {b : Binding} {bindings : List Binding} :
    b ∈ sortBindings bindings ↔ b ∈ bindings := List.mem_mergeSort

/-- Sorting by a comparison puts a list in its order. -/
theorem pairwise_mergeSort_isLE {α : Type} (cmp : α → α → Ordering) [Std.TransCmp cmp]
    (as : List α) :
    (as.mergeSort fun a b => (cmp a b).isLE).Pairwise fun a b => (cmp a b).isLE = true :=
  List.pairwise_mergeSort (fun _ _ _ => Std.TransCmp.isLE_trans)
    (fun a b => by
      rw [Bool.or_eq_true, @Std.OrientedCmp.eq_swap α cmp _ b]
      cases cmp a b <;> decide) as

/-- Sorting by the order of a type puts a list in that order. -/
theorem pairwise_mergeSort {α : Type} [Ord α] [Std.TransOrd α] (as : List α) :
    (as.mergeSort isLE).Pairwise (isLE · ·) := pairwise_mergeSort_isLE compare as

/-- Sorted bindings come in order. -/
theorem pairwise_sortBindings (bindings : List Binding) :
    (sortBindings bindings).Pairwise (isLE · ·) := pairwise_mergeSort bindings

/-- The first position that neighbours in the list both bind. In a sorted list
    this is the least position bound twice. -/
def repeatedPosition? : List Binding → Option Nat
  | a :: b :: rest =>
    if a.position = b.position then some a.position else repeatedPosition? (b :: rest)
  | _ => none

/-- Whether the row makes every one of the bindings. -/
def Row.agrees (row : Row) (bindings : List Binding) : Bool :=
  bindings.all fun b => row[b.position]? == some b.value

/-- What a partial row says about a position; a position outside it is free. -/
def Partial.at? (work : Partial) (position : Nat) : Option Nat :=
  work[position]?.join

/-- Whether the partial row already makes every one of the bindings. -/
def Partial.agrees (work : Partial) (bindings : List Binding) : Bool :=
  bindings.all fun b => work.at? b.position == some b.value

/-- Adds one binding to a partial row; a position outside the row is ignored. -/
def Partial.bind (work : Partial) (b : Binding) : Partial :=
  work.set b.position (some b.value)

/-- The partial row of the given width that makes the bindings, the last one
    where several bind a position. -/
def Partial.ofBindings (width : Nat) (bindings : List Binding) : Partial :=
  bindings.foldl Partial.bind (List.replicate width none)

/-- The positions a partial row leaves free, in order. -/
def Partial.free (work : Partial) : List Nat :=
  (List.range work.length).filter fun p => (work.at? p).isNone

/-- The row a partial row has become, if nothing is free. -/
def Partial.toRow? (work : Partial) : Option Row :=
  work.mapM id

namespace Partial

@[simp] theorem length_bind (work : Partial) (b : Binding) :
    (work.bind b).length = work.length := List.length_set

/-- The position that is bound has its value. -/
theorem at?_bind_self {work : Partial} {b : Binding} (h : b.position < work.length) :
    (work.bind b).at? b.position = some b.value := by
  simp only [at?, bind, List.getElem?_set_self h, Option.join_some]

/-- Every other position is what it was. -/
theorem at?_bind_of_ne {work : Partial} {b : Binding} {position : Nat}
    (h : b.position ≠ position) : (work.bind b).at? position = work.at? position := by
  simp only [at?, bind, List.getElem?_set_ne h]

@[simp] theorem length_ofBindings (width : Nat) (bindings : List Binding) :
    (ofBindings width bindings).length = width := by
  have hfold (work : Partial) : (bindings.foldl bind work).length = work.length := by
    induction bindings generalizing work with
    | nil => rfl
    | cons b bindings ih => rw [List.foldl_cons, ih, length_bind]
  rw [ofBindings, hfold, List.length_replicate]

end Partial

end Covering
