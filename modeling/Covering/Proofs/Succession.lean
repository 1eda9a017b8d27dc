import Covering.Proofs.Obligation
import Mathlib.Algebra.BigOperators.Ring.List
import Mathlib.Algebra.Ring.Nat

/-!
# One after the other

Enumerations that are given by a first element and a successor go through the
same elements, in the same order, as the lists.

The successors are made for windows of enumerations too long to hold, so they
know no more than the element they come from. What has to be seen is where one
block of the list ends and the next one begins: a successor that finds nothing
to change behind the first entry changes the first entry, and starts over
behind it. `Visits` is stated between two places for this reason. A block ends
at the place where the next one starts (`Visits.append`), and a block that
prefixes each element of another ends where that other has no successor
(`Visits.map`). Subsets, value tuples and obligations are all blocks of blocks
in this sense, so each of them follows from the one below it.

## Main definitions

* `Visits`: Going on by successors goes through a list, from place to place.

## Theorems

* `Visits.walk_eq`, `Visits.window_eq`: Stretches of an enumeration are those
  of its list.
* `Visits.append`, `Visits.map`, `Visits.flatMap`: Blocks, and blocks of blocks.
* `visits_subsets`: The ascending lists, by successors.
* `visits_tuples`: The value tuples, by successors.
* `visits_obligations`, `window_obligations`: The obligations of a space, by
  successors.
-/

namespace Covering

variable {α β : Type} {next? : α → Option α} {at? to? via? : Option α} {as bs : List α}

/-- Going on by successors from `at?` goes through the elements of a list, in
    order, and comes to `to?`. A place is an element, or the end. -/
inductive Visits (next? : α → Option α) : Option α → List α → Option α → Prop where
  | done (at? : Option α) : Visits next? at? [] at?
  | step {a : α} {as : List α} {to? : Option α} (rest : Visits next? (next? a) as to?) :
      Visits next? (some a) (a :: as) to?

namespace Visits

theorem append (h : Visits next? at? as via?) (h' : Visits next? via? bs to?) :
    Visits next? at? (as ++ bs) to? := by
  induction h with
  | done _ => exact h'
  | step _ ih => exact .step (ih h')

/-- A block whose elements are made from those of another. Its successors follow
    the other's, and go on from `after?` where the other has none. -/
theorem map {next' : β → Option β} (f : α → β) (after? : Option β) (h : Visits next? at? as to?)
    (hf : ∀ a ∈ as, next' (f a) = (next? a).elim after? fun b => some (f b)) :
    Visits next' (at?.elim after? fun b => some (f b)) (as.map f)
      (to?.elim after? fun b => some (f b)) := by
  induction h with
  | done _ => exact .done _
  | step _ ih =>
      rw [List.forall_mem_cons] at hf
      refine .step ?_
      rw [hf.1]
      exact ih hf.2

/-- A block of blocks, one for each element of an enumeration, each of which ends
    where the block of the next element starts. -/
theorem flatMap {next' : β → Option β} (start : Option α → Option β) {f : α → List β}
    (h : Visits next? at? as to?)
    (hf : ∀ a ∈ as, Visits next' (start (some a)) (f a) (start (next? a))) :
    Visits next' (start at?) (as.flatMap f) (start to?) := by
  induction h with
  | done _ => exact .done _
  | step _ ih =>
      rw [List.forall_mem_cons] at hf
      rw [List.flatMap_cons]
      exact hf.1.append (ih hf.2)

/-- Walking an enumeration gives the elements that it goes through. -/
theorem walk_eq (h : Visits next? at? as none) (n : Nat) : walk next? n at? = as.take n := by
  generalize hto : (none : Option α) = to? at h
  induction h generalizing n with
  | done _ =>
      rw [← hto, List.take_nil]
      cases n <;> rfl
  | step _ ih =>
      cases n with
      | zero => rfl
      | succ n => rw [walk, List.take_succ_cons, ih n hto]

/-- What is still ahead after some elements. -/
theorem drop (h : Visits next? at? as none) (n : Nat) :
    Visits next? (advance next? n at?) (as.drop n) none := by
  generalize hto : (none : Option α) = to? at h
  induction h generalizing n with
  | done _ =>
      rw [List.drop_nil, ← hto]
      cases n <;> exact .done none
  | step rest ih =>
      cases n with
      | zero => exact .step rest
      | succ n => exact ih n hto

/-- Any stretch of an enumeration is that stretch of the list. -/
theorem window_eq (h : Visits next? at? as none) (skip take : Nat) :
    window next? at? skip take = (as.drop skip).take take :=
  (h.drop skip).walk_eq take

end Visits

section Subsets

/-- The successor of an ascending list changes what is behind the first number
    where it can. -/
theorem Subset.next?_cons (n p : Nat) (rest : List Nat) :
    Subset.next? n (p :: rest) = (Subset.next? n rest).elim
      (if p + 1 + rest.length < n then some (List.range' (p + 1) (rest.length + 1)) else none)
      fun rest' => some (p :: rest') := by
  rw [Subset.next?]
  cases Subset.next? n rest <;> rfl

/-- The first ascending list of `k` numbers from `s` on. -/
def Subset.firstFrom? (n s k : Nat) : Option (List Nat) :=
  if s + k ≤ n then some (List.range' s k) else none

/-- The choices of `k` of the numbers from `s` on, by successors. -/
theorem visits_choose (n : Nat) {s left k : Nat} (h : s + left = n) :
    Visits (Subset.next? n) (Subset.firstFrom? n s k) (choose k (List.range' s left)) none := by
  induction left generalizing s k with
  | zero =>
      rw [Subset.firstFrom?]
      cases k with
      | zero =>
          rw [choose_zero, if_pos (by omega)]
          exact .step (.done none)
      | succ k =>
          rw [if_neg (by omega)]
          exact .done none
  | succ left ih =>
      have hrest : s + 1 + left = n := by omega
      rw [Subset.firstFrom?]
      cases k with
      | zero =>
          rw [choose_zero, if_pos (by omega)]
          exact .step (.done none)
      | succ k =>
          rw [List.range'_succ, List.range'_succ, choose, List.length_range']
          by_cases hleft : left < k
          · -- Too few numbers are left for a choice of this length.
            rw [if_neg (by omega), if_pos hleft]
            exact .done none
          · rw [if_pos (by omega), if_neg hleft]
            -- The lists with `s` end where those without it begin.
            have hwith : Visits (Subset.next? n) (some (s :: List.range' (s + 1) k))
                ((choose k (List.range' (s + 1) left)).map (s :: ·))
                (Subset.firstFrom? n (s + 1) (k + 1)) := by
              have hblock : Visits (Subset.next? n) _ _ _ := (ih hrest (k := k)).map (s :: ·)
                (Subset.firstFrom? n (s + 1) (k + 1)) fun rest hmem => by
                  rw [Subset.next?_cons, (mem_choose_iff.1 hmem).2]
                  rfl
              rwa [Subset.firstFrom?, if_pos (by omega)] at hblock
            exact hwith.append (ih hrest)

/-- The ascending lists, by successors. -/
theorem visits_subsets (n k : Nat) :
    Visits (Subset.next? n) (Subset.first? n k) (subsets n k) none := by
  rcases Nat.eq_zero_or_pos k with rfl | hpos
  · exact .done none
  · have hchoose := visits_choose n (Nat.zero_add n) (k := k)
    rw [Subset.firstFrom?, Nat.zero_add, ← List.range_eq_range', ← List.range_eq_range'] at hchoose
    rw [subsets, if_neg (Nat.ne_of_gt hpos), Subset.first?]
    simp only [hpos, true_and]
    exact hchoose

end Subsets

section Tuples

/-- The successor of a tuple changes what is behind the first value where it
    can. -/
theorem Tuple.next?_cons {r v : Nat} {rs vs : List Nat} (h : vs.length = rs.length) :
    Tuple.next? (r :: rs) (v :: vs) = (Tuple.next? rs vs).elim
      (if v + 1 < r then some ((v + 1) :: List.replicate rs.length 0) else none)
      fun vs' => some (v :: vs') := by
  rw [Tuple.next?, ← h, List.map_const']
  cases Tuple.next? rs vs <;> rfl

/-- The numbers from `v` on that are below `r`, by adding one. -/
theorem visits_range' {r v left : Nat} (h : v + (left + 1) = r) :
    Visits (fun v => if v + 1 < r then some (v + 1) else none) (some v)
      (List.range' v (left + 1)) none := by
  induction left generalizing v with
  | zero =>
      refine .step ?_
      rw [if_neg (by omega)]
      exact .done none
  | succ left ih =>
      rw [List.range'_succ]
      refine .step ?_
      rw [if_pos (by omega)]
      exact ih (by omega)

/-- The tuples below positive radices, by successors. -/
theorem visits_product {rs : List Nat} (h : ∀ r ∈ rs, 0 < r) :
    Visits (Tuple.next? rs) (some (List.replicate rs.length 0)) (product rs) none := by
  induction rs with
  | nil => exact .step (.done none)
  | cons r rs ih =>
      rw [List.forall_mem_cons] at h
      have hdigits := visits_range' (show 0 + (r - 1 + 1) = r by omega)
      rw [Nat.sub_add_cancel h.1, ← List.range_eq_range'] at hdigits
      -- One block for each first value, which starts with zeros behind it.
      refine hdigits.flatMap (Option.map (· :: List.replicate rs.length 0)) fun v _ => ?_
      have hblock : Visits (Tuple.next? (r :: rs)) _ _ _ := (ih h.2).map (v :: ·)
        (if v + 1 < r then some ((v + 1) :: List.replicate rs.length 0) else none)
        fun vs hvs => Tuple.next?_cons (length_of_mem_product hvs)
      rw [apply_ite (Option.map _)]
      exact hblock

theorem Tuple.first?_of_pos {radices : List Nat} (hne : radices ≠ [])
    (hpos : ∀ r ∈ radices, 0 < r) :
    Tuple.first? radices = some (List.replicate radices.length 0) := by
  rw [Tuple.first?, if_neg]
  rw [Bool.or_eq_true, List.isEmpty_iff, List.contains_iff_mem]
  exact fun h => h.elim hne fun hzero => Nat.lt_irrefl 0 (hpos 0 hzero)

/-- The value tuples, by successors. A radix of zero leaves none. -/
theorem visits_tuples (radices : List Nat) :
    Visits (Tuple.next? radices) (Tuple.first? radices) (tuples radices) none := by
  by_cases hnil : radices = []
  · rw [hnil]
    exact .done none
  · rw [tuples_of_ne_nil hnil]
    by_cases hzero : 0 ∈ radices
    · have hempty : product radices = [] := by
        rw [← List.length_eq_zero_iff, length_product, productOf_eq_prod]
        exact List.prod_eq_zero hzero
      rw [Tuple.first?, hempty, if_pos (by rw [List.contains_iff_mem.2 hzero, Bool.or_true])]
      exact .done none
    · have hpos (r : Nat) (hr : r ∈ radices) : 0 < r :=
        Nat.pos_of_ne_zero fun h => hzero (h ▸ hr)
      rw [Tuple.first?_of_pos hnil hpos]
      exact visits_product hpos

end Tuples

section Obligations

/-- The obligations on a choice of positions end where those on the next one
    start. -/
theorem visits_obligationsOn {space : Space} {positions : List Nat}
    (hpos : space.Choice positions) :
    Visits (Obligation.next? space) (Obligation.firstAt? space (some positions))
      (obligationsOn space positions)
      (Obligation.firstAt? space (Subset.next? space.width positions)) := by
  have hblock : Visits (Obligation.next? space) _ _ _ :=
    (visits_tuples (positions.map space.count)).map (Obligation.mk positions)
      (Obligation.firstAt? space (Subset.next? space.width positions)) fun values _ => by
        rw [Obligation.next?]
        cases Tuple.next? (positions.map space.count) values <;> rfl
  -- There is a first tuple, since every parameter has a value.
  have hne : positions.map space.count ≠ [] :=
    fun hmap => hpos.ne_nil (List.map_eq_nil_iff.1 hmap)
  have hfirst := Tuple.first?_of_pos hne fun r hr => by
    rcases List.mem_map.1 hr with ⟨p, hp, rfl⟩
    exact space.count_pos (hpos.lt_width p hp)
  rw [hfirst] at hblock
  rw [Obligation.firstAt?, hfirst]
  exact hblock

/-- The obligations of a space, by successors. -/
theorem visits_obligations (space : Space) (order : Nat) :
    Visits (Obligation.next? space) (Obligation.first? space order) (obligations space order)
      none := by
  have hsubsets := visits_subsets space.width order
  exact hsubsets.flatMap (Obligation.firstAt? space) fun positions hmem =>
    visits_obligationsOn (choice_of_mem_subsets hmem)

/-- Any window of the obligations can be reached without listing those before
    it. -/
theorem window_obligations (space : Space) (order skip take : Nat) :
    window (Obligation.next? space) (Obligation.first? space order) skip take =
      ((obligations space order).drop skip).take take :=
  (visits_obligations space order).window_eq skip take

end Obligations

end Covering
