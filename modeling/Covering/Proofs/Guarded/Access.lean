import Covering.Completion

/-!
# Guarded computations

The definitions that run read lists with a value for what is not there, and
take numbers away from smaller ones. They are total for it, but a faulty access
does not show in them. To say that there is none, a computation is written a
second time with a guard at each access: an entry that is not there and a
difference below zero end it with nothing. A guarded computation that gives the
same as the plain one has met no fault on the way, and the plain one has never
used a value that stands in for a missing one.

Guards are put together as the computations are. The lemmas here say so for
what computations are made of: a list that is mapped, filtered, searched or
folded meets no fault when its members do not, and a fold may rely on what it
has kept so far.

## Main definitions

* `Guarded.minus?`, `Guarded.write?`: A difference, and a replaced entry.
* `Guarded.bind?`: A partial row with one more binding.
* `Guarded.filter?`, `Guarded.firstFrom?`: Lists filtered and numbers searched
  with a guard.

## Theorems

* `mapM_eq_some`, `anyM_eq_some`, `allM_eq_some`, `filter?_eq_some`: Members without
  fault.
* `foldlM_eq_some`: Folds that keep an invariant.
* `firstFrom?_eq_some`: Searches.
-/

namespace Covering

namespace Guarded

/-- One number taken from another that is no less. -/
def minus? (a b : Nat) : Option Nat := if b ≤ a then some (a - b) else none

theorem minus?_eq_some {a b : Nat} (h : b ≤ a) : minus? a b = some (a - b) := if_pos h

section Lists

variable {α β : Type}

/-- The list with an entry that is there replaced. -/
def write? (as : List α) (i : Nat) (a : α) : Option (List α) :=
  if i < as.length then some (as.set i a) else none

theorem write?_eq_some {as : List α} {i : Nat} (h : i < as.length) (a : α) :
    write? as i a = some (as.set i a) := if_pos h

/-- The members that a guarded test keeps. -/
def filter? (test : α → Option Bool) : List α → Option (List α)
  | [] => some []
  | a :: as => do
    let keep ← test a
    let rest ← filter? test as
    pure (if keep then a :: rest else rest)

/-- A list of which no member is at fault. -/
theorem mapM_eq_some {f : α → Option β} {g : α → β} {as : List α}
    (h : ∀ a ∈ as, f a = some (g a)) : as.mapM f = some (as.map g) := by
  induction as with
  | nil => rfl
  | cons a as ih =>
      rw [List.forall_mem_cons] at h
      rw [List.mapM_cons, h.1, ih h.2]
      rfl

/-- A list that is read at indices that it has. -/
theorem mapM_getElem?_eq_some {as : List α} {indices : List Nat} (standIn : α)
    (h : ∀ i ∈ indices, i < as.length) :
    indices.mapM (as[·]?) = some (indices.map fun i => as.getD i standIn) := by
  refine mapM_eq_some fun i hi => ?_
  rw [List.getD_eq_getElem?_getD, List.getElem?_eq_getElem (h i hi), Option.getD_some]

theorem anyM_eq_some {f : α → Option Bool} {g : α → Bool} {as : List α}
    (h : ∀ a ∈ as, f a = some (g a)) : as.anyM f = some (as.any g) := by
  induction as with
  | nil => rfl
  | cons a as ih =>
      rw [List.forall_mem_cons] at h
      rw [List.anyM, h.1, List.any_cons]
      cases g a with
      | true => rfl
      | false => exact ih h.2

theorem allM_eq_some {f : α → Option Bool} {g : α → Bool} {as : List α}
    (h : ∀ a ∈ as, f a = some (g a)) : as.allM f = some (as.all g) := by
  induction as with
  | nil => rfl
  | cons a as ih =>
      rw [List.forall_mem_cons] at h
      rw [List.allM, h.1, List.all_cons]
      cases g a with
      | true => exact ih h.2
      | false => rfl

theorem filter?_eq_some {f : α → Option Bool} {g : α → Bool} {as : List α}
    (h : ∀ a ∈ as, f a = some (g a)) : filter? f as = some (as.filter g) := by
  induction as with
  | nil => rfl
  | cons a as ih =>
      rw [List.forall_mem_cons] at h
      rw [filter?, h.1, ih h.2, List.filter_cons]
      rfl

/-- A fold meets no fault when no step does, from states that satisfy an
    invariant. The invariant may speak of the members still to come. -/
theorem foldlM_eq_some {step : β → α → Option β} {plain : β → α → β} (P : List α → β → Prop)
    (hstep : ∀ a rest b, P (a :: rest) b → step b a = some (plain b a) ∧ P rest (plain b a))
    {as : List α} {b : β} (h : P as b) : as.foldlM step b = some (as.foldl plain b) := by
  induction as generalizing b with
  | nil => rfl
  | cons a as ih =>
      rcases hstep a as b h with ⟨hfirst, hrest⟩
      rw [List.foldlM_cons, hfirst, List.foldl_cons]
      exact ih hrest

/-- The first success of `f` among `remaining` numbers from `start` on. -/
def firstFrom? (f : Nat → Option (Option α)) : (remaining start : Nat) → Option (Option α)
  | 0, _ => some none
  | remaining + 1, start => do
    match ← f start with
    | some a => pure (some a)
    | none => firstFrom? f remaining (start + 1)

theorem firstFrom?_eq_some {f : Nat → Option (Option α)} {g : Nat → Option α}
    {remaining start : Nat} (h : ∀ n, n < start + remaining → f n = some (g n)) :
    firstFrom? f remaining start = some (Covering.firstFrom? g remaining start) := by
  induction remaining generalizing start with
  | zero => rfl
  | succ remaining ih =>
      rw [firstFrom?, h start (by omega), Covering.firstFrom?]
      cases g start with
      | none => exact ih fun n hn => h n (by omega)
      | some a => rfl

end Lists

/-- A partial row with one more binding, at a position that it has. -/
def bind? (work : Partial) (b : Binding) : Option Partial :=
  write? work b.position (some b.value)

theorem bind?_eq_some {work : Partial} {b : Binding} (h : b.position < work.length) :
    bind? work b = some (work.bind b) := write?_eq_some h _

/-- The number of values at a position that the space has. -/
theorem counts_getElem?_eq_some {space : Space} {p : Nat} (h : p < space.width) :
    space.counts[p]? = some (space.count p) := by
  unfold Space.width at h
  rw [Space.count, List.getD_eq_getElem?_getD, List.getElem?_eq_getElem h, Option.getD_some]

/-- The numbers of values at positions that the space has. -/
theorem mapM_counts_eq_some {space : Space} {positions : List Nat}
    (h : ∀ p ∈ positions, p < space.width) :
    positions.mapM (space.counts[·]?) = some (positions.map space.count) :=
  mapM_eq_some fun p hp => counts_getElem?_eq_some (h p hp)

end Guarded

end Covering
