import Covering.Proofs.Succession

/-!
# Each element once, in order

The successors enumerate what they are meant to: every ascending list of
positions, every value tuple, every obligation, each once, in lexicographic order,
and then they end.

A successor looks at one element only, so it cannot see that it leaves none out.
The lists can. Which elements they have is known by the recursion that makes them,
and the same recursion puts them in order, since the blocks that it joins differ in
the first entry and each block has it in common (`ascending_choose`,
`ascending_product`). Obligations are blocks of tuples, one for each choice of
positions, and are compared by positions first, so their order comes from the order
of the two (`ascending_obligations`). `Visits` then says that successors go through
these lists.

Elements are compared by the orders of their types. On lists of numbers this is
the lexicographic order, and on obligations it compares positions and then values.

## Main definitions

* `Enumerates`: Successors run through all that has a property, in order.
* `Obligation.AtOrder`: What an obligation of an order is.

## Theorems

* `compare_cons_eq_lt_iff`: The lexicographic order, one entry at a time.
* `ascending_choose`, `ascending_product`, `ascending_obligations`: The lists are
  in order.
* `mem_subsets_iff_ascending`, `mem_tuples_iff`, `mem_obligations_iff`: What is in
  them.
* `enumerates_subsets`, `enumerates_tuples`, `enumerates_obligations`: Successors
  run through them.
* `enumerated_in_order`: All three.
-/

namespace Covering

/-- Going on by successors runs through all that has a property. There is a list
    of which any number of steps gives the front, or all of it once there are
    enough, and the list has the elements with the property, each of them once,
    in strictly increasing order. -/
structure Enumerates {α : Type} [Ord α] (next? : α → Option α) (first? : Option α)
    (P : α → Prop) (as : List α) : Prop where
  walk_eq : ∀ n, walk next? n first? = as.take n
  mem_iff : ∀ a, a ∈ as ↔ P a
  nodup : as.Nodup
  ascending : as.Pairwise fun a b => compare a b = .lt

/-- What precedes is different, so a list in order has nothing twice. -/
theorem Visits.enumerates {α : Type} [Ord α] [Std.ReflOrd α] {next? : α → Option α}
    {first? : Option α} {P : α → Prop} {as : List α} (h : Visits next? first? as none)
    (hmem : ∀ a, a ∈ as ↔ P a) (hascending : as.Pairwise fun a b => compare a b = .lt) :
    Enumerates next? first? P as := by
  refine ⟨h.walk_eq, hmem, hascending.imp fun {a b} hlt => ?_, hascending⟩
  rintro rfl
  rw [Std.ReflOrd.compare_self] at hlt
  exact absurd hlt (by decide)

/-- The first entry that differs decides. -/
theorem compare_cons_eq_lt_iff {a b : Nat} {as bs : List Nat} :
    compare (a :: as) (b :: bs) = .lt ↔ a < b ∨ a = b ∧ compare as bs = .lt := by
  rw [List.compare_cons_cons, Ordering.then_eq_lt, Nat.compare_eq_lt, Nat.compare_eq_eq]

section Subsets

/-- Choices from an ascending list come in order: those with the first element
    before those without it. -/
theorem ascending_choose {xs : List Nat} (h : xs.Pairwise (· < ·)) (k : Nat) :
    (choose k xs).Pairwise fun a b => compare a b = .lt := by
  induction xs generalizing k with
  | nil => cases k with
    | zero => exact List.pairwise_singleton ..
    | succ k => exact List.Pairwise.nil
  | cons x xs ih => cases k with
    | zero => exact List.pairwise_singleton ..
    | succ k =>
        rw [List.pairwise_cons] at h
        rw [choose_succ_cons, List.pairwise_append]
        refine ⟨(ih h.2 k).map _ fun as bs hlt => ?_, ih h.2 (k + 1), ?_⟩
        · exact compare_cons_eq_lt_iff.2 (.inr ⟨rfl, hlt⟩)
        · intro as has bs hbs
          rcases List.mem_map.1 has with ⟨as, _, rfl⟩
          rcases mem_choose_iff.1 hbs with ⟨hsub, hlen⟩
          rcases List.exists_cons_of_length_eq_add_one hlen with ⟨y, bs, rfl⟩
          -- A choice without the first element starts with a later one.
          exact compare_cons_eq_lt_iff.2 (.inl (h.1 y (hsub.subset List.mem_cons_self)))

theorem ascending_subsets (n k : Nat) :
    (subsets n k).Pairwise fun a b => compare a b = .lt := by
  rw [subsets]
  split
  · exact List.Pairwise.nil
  · exact ascending_choose List.pairwise_lt_range k

theorem mem_subsets_iff_ascending {n k : Nat} {positions : List Nat} :
    positions ∈ subsets n k ↔
      0 < k ∧ positions.length = k ∧ positions.Pairwise (· < ·) ∧ ∀ p ∈ positions, p < n := by
  rw [mem_subsets_iff, sublist_range_iff, and_comm (b := positions.length = k)]

theorem enumerates_subsets (n k : Nat) :
    Enumerates (Subset.next? n) (Subset.first? n k)
      (fun positions => 0 < k ∧ positions.length = k ∧ positions.Pairwise (· < ·) ∧
        ∀ p ∈ positions, p < n)
      (subsets n k) :=
  (visits_subsets n k).enumerates (fun _ => mem_subsets_iff_ascending) (ascending_subsets n k)

end Subsets

section Tuples

/-- Tuples come in order: one block after the other, by the first value. -/
theorem ascending_product (rs : List Nat) :
    (product rs).Pairwise fun a b => compare a b = .lt := by
  induction rs with
  | nil => exact List.pairwise_singleton ..
  | cons r rs ih =>
      rw [product, List.pairwise_flatMap]
      -- A block has its first value in common, and the next one has a greater.
      refine ⟨fun v _ => ih.map _ fun as bs hlt => ?_, List.pairwise_lt_range.imp ?_⟩
      · exact compare_cons_eq_lt_iff.2 (.inr ⟨rfl, hlt⟩)
      · intro v w hlt as has bs hbs
        rcases List.mem_map.1 has with ⟨as, _, rfl⟩
        rcases List.mem_map.1 hbs with ⟨bs, _, rfl⟩
        exact compare_cons_eq_lt_iff.2 (.inl hlt)

theorem ascending_tuples (radices : List Nat) :
    (tuples radices).Pairwise fun a b => compare a b = .lt := by
  rw [tuples]
  split
  · exact List.Pairwise.nil
  · exact ascending_product radices

theorem mem_product_iff_forall₂ {rs vs : List Nat} :
    vs ∈ product rs ↔ List.Forall₂ (· < ·) vs rs := by
  induction rs generalizing vs with
  | nil => rw [product, List.mem_singleton, List.forall₂_nil_right_iff]
  | cons r rs ih =>
      cases vs with
      | nil =>
          refine ⟨fun h => ?_, fun h => ?_⟩
          · exact absurd (length_of_mem_product h) (Nat.succ_ne_zero _).symm
          · exact absurd h.length_eq (Nat.succ_ne_zero _).symm
      | cons v vs => rw [mem_product_cons, ih, List.forall₂_cons]

theorem mem_product_map_iff {ps vs : List Nat} {f : Nat → Nat} :
    vs ∈ product (ps.map f) ↔ List.Forall₂ (fun v p => v < f p) vs ps := by
  rw [mem_product_iff_forall₂, List.forall₂_map_right_iff]

theorem mem_tuples_iff {radices values : List Nat} :
    values ∈ tuples radices ↔ radices ≠ [] ∧ List.Forall₂ (· < ·) values radices := by
  rw [tuples, ← mem_product_iff_forall₂]
  split
  · rename_i hempty
    exact ⟨fun h => absurd h List.not_mem_nil, fun h => absurd (List.isEmpty_iff.1 hempty) h.1⟩
  · rename_i hempty
    rw [List.isEmpty_iff] at hempty
    exact (and_iff_right hempty).symm

theorem enumerates_tuples (radices : List Nat) :
    Enumerates (Tuple.next? radices) (Tuple.first? radices)
      (fun values => radices ≠ [] ∧ List.Forall₂ (· < ·) values radices) (tuples radices) :=
  (visits_tuples radices).enumerates (fun _ => mem_tuples_iff) (ascending_tuples radices)

end Tuples

section Obligations

namespace Obligation

/-- An obligation of the space at an order: as many positions of the space, in
    ascending order, and for each of them one of its values. -/
structure AtOrder (space : Space) (order : Nat) (o : Obligation) : Prop where
  length_eq : o.positions.length = order
  ascending : o.positions.Pairwise (· < ·)
  lt_width : ∀ p ∈ o.positions, p < space.width
  values_lt : List.Forall₂ (fun v p => v < space.count p) o.values o.positions

instance : Std.ReflOrd Obligation := inferInstanceAs (Std.ReflCmp (compareLex _ _))

/-- Positions decide before values do. -/
theorem compare_eq_lt_iff {a b : Obligation} :
    compare a b = .lt ↔ compare a.positions b.positions = .lt ∨
      a.positions = b.positions ∧ compare a.values b.values = .lt := by
  have hthen : compare a b =
      (compare a.positions b.positions).then (compare a.values b.values) := rfl
  rw [hthen, Ordering.then_eq_lt, Std.LawfulEqCmp.compare_eq_iff_eq]

end Obligation

variable (space : Space) (order : Nat)

/-- Obligations come in order, since the choices of positions do, and the tuples
    on each of them. -/
theorem ascending_obligations :
    (obligations space order).Pairwise fun a b => compare a b = .lt := by
  rw [obligations, List.pairwise_flatMap]
  refine ⟨fun positions _ => ?_, (ascending_subsets space.width order).imp ?_⟩
  · exact (ascending_tuples _).map _ fun as bs hlt =>
      Obligation.compare_eq_lt_iff.2 (.inr ⟨rfl, hlt⟩)
  · intro positions others hlt a ha b hb
    rcases List.mem_map.1 ha with ⟨values, _, rfl⟩
    rcases List.mem_map.1 hb with ⟨values, _, rfl⟩
    exact Obligation.compare_eq_lt_iff.2 (.inl hlt)

variable {space order}

theorem mem_obligations_iff (h : 1 ≤ order) {o : Obligation} :
    o ∈ obligations space order ↔ o.AtOrder space order := by
  rw [obligations, List.mem_flatMap]
  constructor
  · rintro ⟨positions, hpositions, ho⟩
    rcases (mem_obligationsOn_iff (choice_of_mem_subsets hpositions)).1 ho with ⟨rfl, hproduct⟩
    rcases mem_subsets_iff_ascending.1 hpositions with ⟨-, hlen, hascending, hlt⟩
    exact ⟨hlen, hascending, hlt, mem_product_map_iff.1 hproduct⟩
  · intro ho
    -- It stands in the block of its own positions.
    have hpositions : o.positions ∈ subsets space.width order :=
      mem_subsets_iff_ascending.2 ⟨h, ho.length_eq, ho.ascending, ho.lt_width⟩
    exact ⟨o.positions, hpositions, (mem_obligationsOn_iff (choice_of_mem_subsets hpositions)).2
      ⟨rfl, mem_product_map_iff.2 ho.values_lt⟩⟩

theorem enumerates_obligations (h : 1 ≤ order) :
    Enumerates (Obligation.next? space) (Obligation.first? space order)
      (Obligation.AtOrder space order) (obligations space order) :=
  (visits_obligations space order).enumerates (fun _ => mem_obligations_iff h)
    (ascending_obligations space order)

end Obligations

theorem Subset.first?_eq_none_iff {n k : Nat} : first? n k = none ↔ k = 0 ∨ n < k := by
  rw [first?]
  split
  · simp only [reduceCtorEq, false_iff]
    omega
  · simp only [true_iff]
    omega

theorem Tuple.first?_eq_none_iff {radices : List Nat} :
    first? radices = none ↔ radices = [] ∨ 0 ∈ radices := by
  rw [first?]
  split
  · rename_i h
    rw [Bool.or_eq_true, List.isEmpty_iff, List.contains_iff_mem] at h
    exact ⟨fun _ => h, fun _ => rfl⟩
  · rename_i h
    rw [Bool.or_eq_true, List.isEmpty_iff, List.contains_iff_mem] at h
    exact ⟨fun hsome => absurd hsome (by simp only [reduceCtorEq, not_false_eq_true]),
      fun hnone => absurd hnone h⟩

/-- The successors enumerate every element once, in order, and end. For
    all bounds and lengths, those of positions run through the ascending lists of
    that length below the bound; there is nothing to start from when the length is
    zero or exceeds the bound. For all radices, those of values run through the
    tuples with one value below each radix; there is nothing to start from when
    there are no radices or one of them is zero. And at every order that a space
    has, those of obligations run through the obligations of that order. -/
theorem enumerated_in_order :
    (∀ n k : Nat,
      (Subset.first? n k = none ↔ k = 0 ∨ n < k) ∧
      Enumerates (Subset.next? n) (Subset.first? n k)
        (fun positions => 0 < k ∧ positions.length = k ∧ positions.Pairwise (· < ·) ∧
          ∀ p ∈ positions, p < n)
        (subsets n k)) ∧
    (∀ radices : List Nat,
      (Tuple.first? radices = none ↔ radices = [] ∨ 0 ∈ radices) ∧
      Enumerates (Tuple.next? radices) (Tuple.first? radices)
        (fun values => radices ≠ [] ∧ List.Forall₂ (· < ·) values radices) (tuples radices)) ∧
    ∀ (space : Space) (order : Nat), 1 ≤ order → order ≤ space.width →
      space.checkOrder order = .ok () ∧
      Enumerates (Obligation.next? space) (Obligation.first? space order)
        (Obligation.AtOrder space order) (obligations space order) := by
  refine ⟨fun n k => ⟨Subset.first?_eq_none_iff, enumerates_subsets n k⟩,
    fun radices => ⟨Tuple.first?_eq_none_iff, enumerates_tuples radices⟩,
    fun space order hpos hle => ⟨?_, enumerates_obligations hpos⟩⟩
  exact Space.checkOrder_eq_ok_iff.2 ⟨hpos, hle⟩

/-- Of three bits in pairs, the fifth obligation is on the next choice of
    positions, and the last one is the twelfth. -/
theorem enumerated_in_order_bits :
    1 ≤ 2 ∧ 2 ≤ (Space.uniform 2 1).width ∧
      (walk (Obligation.next? (.uniform 2 1)) 5 (Obligation.first? (.uniform 2 1) 2)).getLast? =
        some ⟨[0, 2], [0, 0]⟩ ∧
      (walk (Obligation.next? (.uniform 2 1)) 13 (Obligation.first? (.uniform 2 1) 2)).length = 12 ∧
      ⟨[1, 2], [1, 1]⟩ ∈ obligations (.uniform 2 1) 2 := by
  rcases enumerated_in_order with ⟨_, _, hobligations⟩
  rcases hobligations (.uniform 2 1) 2 (by decide) (by decide) with ⟨_, h⟩
  refine ⟨by decide, by decide, ?_, ?_, (h.mem_iff _).2 ⟨rfl, by decide, by decide, ?_⟩⟩
  · rw [h.walk_eq]
    decide
  · rw [h.walk_eq]
    decide
  · exact .cons (by decide) (.cons (by decide) .nil)

end Covering
