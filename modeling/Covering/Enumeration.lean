import Covering.Arithmetic

/-!
# Subsets and value tuples in order

What a covering array must contain is indexed by two kinds of lists: ascending
choices of positions, and tuples of values below given radices. Both come in
lexicographic order here, once as whole lists and once as successors. The lists
are what coverage is stated and computed over; the successors reach any window
of an enumeration too long to hold.

## Main definitions

* `choose`: The sublists of a given length, in order.
* `subsets`: The ascending lists of a given length below a bound.
* `tuples`: The value tuples below a list of radices.
* `Subset.first?`, `Subset.next?`, `Tuple.first?`, `Tuple.next?`: The same
  enumerations one element at a time.
* `walk`: A stretch of an enumeration that is given by its successor.

## Theorems

* `choose_zero`, `subsets_zero`, `tuples_nil`: There is one empty choice from a
  list, but an empty subset or tuple binds nothing and is not enumerated.
* `mem_choose_iff`: The choices from a list are its sublists of that length.
* `mem_product_cons`, `length_of_mem_product`: A tuple has one value below each
  radix.
* `length_product`: There are as many tuples as the product of the radices.
-/

namespace Covering

/-- The sublists of `xs` with `k` members, those that use earlier members
    first. -/
def choose {α : Type} : Nat → List α → List (List α)
  | 0, _ => [[]]
  | _ + 1, [] => []
  | k + 1, x :: xs =>
    if xs.length < k then [] else (choose k xs).map (x :: ·) ++ choose (k + 1) xs

/-- The ascending lists of `k` numbers below `n`, in lexicographic order. The
    empty list is no subset: a subset binds at least one position. -/
def subsets (n k : Nat) : List (List Nat) :=
  if k = 0 then [] else choose k (List.range n)

/-- The lists with one value below each radix, the last running fastest. -/
def product : List Nat → List (List Nat)
  | [] => [[]]
  | r :: rs => (List.range r).flatMap fun v => (product rs).map (v :: ·)

/-- The value tuples below `radices` in lexicographic order; none when there
    are no radices. -/
def tuples (radices : List Nat) : List (List Nat) :=
  if radices.isEmpty then [] else product radices

@[simp] theorem choose_zero {α : Type} (xs : List α) : choose 0 xs = [[]] := by
  cases xs <;> rfl

@[simp] theorem subsets_zero (n : Nat) : subsets n 0 = [] := rfl

@[simp] theorem tuples_nil : tuples [] = [] := rfl

/-- The choices from a list are its sublists of the given length. The guard of
    `choose` only saves the search where too few members are left. -/
theorem mem_choose_iff {α : Type} {k : Nat} {xs ys : List α} :
    ys ∈ choose k xs ↔ ys.Sublist xs ∧ ys.length = k := by
  induction xs generalizing k ys with
  | nil => cases k with
    | zero =>
      rw [choose_zero, List.mem_singleton, List.sublist_nil]
      exact ⟨fun h => ⟨h, h ▸ rfl⟩, fun h => h.1⟩
    | succ k =>
      rw [choose, List.sublist_nil]
      refine ⟨fun h => absurd h List.not_mem_nil, fun h => ?_⟩
      rw [h.1] at h
      exact absurd h.2 (Nat.succ_ne_zero k).symm
  | cons x xs ih => cases k with
    | zero =>
      rw [choose_zero, List.mem_singleton, List.length_eq_zero_iff]
      exact ⟨fun h => ⟨h ▸ List.nil_sublist _, h⟩, fun h => h.2⟩
    | succ k =>
      rw [choose]
      split
      · -- Too few members are left for a choice of this length.
        rename_i hlt
        refine ⟨fun h => absurd h List.not_mem_nil, fun h => ?_⟩
        have := h.1.length_le
        rw [h.2, List.length_cons] at this
        omega
      · rw [List.mem_append, List.mem_map, ih, List.sublist_cons_iff]
        constructor
        · rintro (⟨zs, hzs, rfl⟩ | h)
          · rw [ih] at hzs
            exact ⟨.inr ⟨zs, rfl, hzs.1⟩, by rw [List.length_cons, hzs.2]⟩
          · exact ⟨.inl h.1, h.2⟩
        · rintro ⟨h | ⟨zs, rfl, hzs⟩, hlen⟩
          · exact .inr ⟨h, hlen⟩
          · refine .inl ⟨zs, ih.2 ⟨hzs, ?_⟩, rfl⟩
            rwa [List.length_cons, Nat.add_right_cancel_iff] at hlen

/-- A tuple has a first value below the first radix, and a tuple of the others
    behind it. -/
theorem mem_product_cons {r v : Nat} {rs vs : List Nat} :
    v :: vs ∈ product (r :: rs) ↔ v < r ∧ vs ∈ product rs := by
  simp only [product, List.mem_flatMap, List.mem_range, List.mem_map, List.cons.injEq]
  constructor
  · rintro ⟨w, hw, us, hus, rfl, rfl⟩
    exact ⟨hw, hus⟩
  · rintro ⟨hv, hvs⟩
    exact ⟨v, hv, vs, hvs, rfl, rfl⟩

theorem length_of_mem_product {rs vs : List Nat} (h : vs ∈ product rs) :
    vs.length = rs.length := by
  induction rs generalizing vs with
  | nil =>
    simp only [product, List.mem_singleton] at h
    rw [h]
  | cons r rs ih =>
    simp only [product, List.mem_flatMap, List.mem_map] at h
    obtain ⟨_, _, us, hus, rfl⟩ := h
    rw [List.length_cons, List.length_cons, ih hus]

theorem length_flatMap_of_length {α β : Type} {f : α → List β} {n : Nat}
    (h : ∀ a, (f a).length = n) (xs : List α) : (xs.flatMap f).length = xs.length * n := by
  induction xs with
  | nil => rw [List.flatMap_nil, List.length_nil, List.length_nil, Nat.zero_mul]
  | cons x xs ih =>
    rw [List.flatMap_cons, List.length_append, h, ih, List.length_cons, Nat.add_mul,
      Nat.one_mul, Nat.add_comm]

/-- There are as many tuples as the product of the radices. -/
theorem length_product (rs : List Nat) : (product rs).length = productOf rs := by
  induction rs with
  | nil => rfl
  | cons r rs ih =>
    have htail (v : Nat) : ((product rs).map (v :: ·)).length = productOf rs := by
      rw [List.length_map, ih]
    rw [product, length_flatMap_of_length htail, List.length_range, productOf]

namespace Subset

/-- The first ascending list of `k` numbers below `n`. -/
def first? (n k : Nat) : Option (List Nat) :=
  if 0 < k ∧ k ≤ n then some (List.range k) else none

/-- The list after the given one among the ascending lists of its length below
    `n`: the rightmost number that still can moves up by one, and those after
    it follow as closely as they can. -/
def next? (n : Nat) : List Nat → Option (List Nat)
  | [] => none
  | p :: rest =>
    match next? n rest with
    | some rest' => some (p :: rest')
    | none =>
      if p + 1 + rest.length < n then some (List.range' (p + 1) (rest.length + 1)) else none

end Subset

namespace Tuple

/-- The tuple of zeros, if every radix leaves room for it. -/
def first? (radices : List Nat) : Option (List Nat) :=
  if radices.isEmpty || radices.contains 0 then none
  else some (List.replicate radices.length 0)

/-- The tuple after the given one: the rightmost value that still can grows by
    one, and those after it return to zero. -/
def next? : List Nat → List Nat → Option (List Nat)
  | r :: rs, v :: vs =>
    match next? rs vs with
    | some vs' => some (v :: vs')
    | none => if v + 1 < r then some ((v + 1) :: vs.map fun _ => 0) else none
  | _, _ => none

end Tuple

/-- Moves `n` elements along an enumeration. -/
def advance {α : Type} (next? : α → Option α) : Nat → Option α → Option α
  | 0, at? => at?
  | _ + 1, none => none
  | n + 1, some a => advance next? n (next? a)

/-- The next `n` elements of an enumeration, or as many as there are. -/
def walk {α : Type} (next? : α → Option α) : Nat → Option α → List α
  | 0, _ => []
  | _ + 1, none => []
  | n + 1, some a => a :: walk next? n (next? a)

/-- The elements of an enumeration from number `skip` on, at most `take` of
    them. -/
def window {α : Type} (next? : α → Option α) (first? : Option α) (skip take : Nat) : List α :=
  walk next? take (advance next? skip first?)

end Covering
