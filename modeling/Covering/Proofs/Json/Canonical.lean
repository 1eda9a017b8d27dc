import Covering.Json.Value
import Mathlib.Logic.Basic

/-!
# Members of objects

A member is looked up by its name, and of several with the same name the last
one counts. The canonical form of an object has its members in the order of
their names, each name once. Looking them up there gives what it gave before, in
canonical form (`member?_canonical`).

The order of the names plays no part in this. Putting a member in its place
leaves it in front of any other of its name, and leaves it out where there is
one, so the others go on being found (`member?_insertMember`).

## Theorems

* `member?_append`, `member?_cons`, `member?_optionalMember`: Looking up members
  in objects that are put together.
* `member?_canonical`: The members of a canonical form.
* `member?_canonical_of_forall`: Where the members are canonical already, they
  are found as they are.
-/

namespace Covering

namespace Json

variable {name : String} {ms ms' : List (String × Json)}

theorem member?_nil : member? name (.object []) = none := rfl

/-- Members of the second part hide those of the first. -/
theorem member?_append :
    member? name (.object (ms ++ ms')) =
      (member? name (.object ms')).or (member? name (.object ms)) := by
  simp only [member?, List.reverse_append, List.find?_append, Option.map_or]

theorem member?_cons {m : String × Json} :
    member? name (.object (m :: ms)) =
      (member? name (.object ms)).or (if m.1 = name then some m.2 else none) := by
  rw [← List.singleton_append, member?_append]
  congr 1
  simp only [member?, List.reverse_singleton, List.find?_singleton, beq_iff_eq]
  split <;> rfl

theorem member?_optionalMember {α : Type} (other : String) (f : α → Json) (o : Option α) :
    member? name (.object (optionalMember other f o)) =
      if other = name then o.map f else none := by
  cases o with
  | none => exact (ite_self none).symm
  | some a => rw [optionalMember, member?_cons, member?_nil, Option.none_or, Option.map_some]

/-- A member that is put in its place is found unless there is another of its
    name. -/
theorem member?_insertMember {m : String × Json} :
    member? name (.object (insertMember m ms)) =
      (member? name (.object ms)).or (if m.1 = name then some m.2 else none) := by
  induction ms with
  | nil => rw [insertMember, member?_cons]
  | cons head rest ih =>
      rw [insertMember]
      split
      · exact member?_cons
      · split
        · -- The member is left out, and the one that is there hides it anyway.
          rename_i heq
          rw [member?_cons, heq, Option.or_assoc]
          congr 1
          split <;> rfl
        · rename_i hne
          rw [member?_cons, ih, member?_cons, Option.or_assoc, Option.or_assoc]
          congr 1
          by_cases hhead : head.1 = name
          · rw [if_pos hhead, if_neg fun h => hne (h.trans hhead.symm), Option.none_or,
              Option.or_none]
          · rw [if_neg hhead, Option.or_none, Option.none_or]

/-- The members of a canonical form are those of the value, in canonical form. -/
theorem member?_canonical (v : Json) :
    member? name (canonical v) = (member? name v).map canonical := by
  cases v with
  | object ms =>
      rw [canonical]
      induction ms with
      | nil => rfl
      | cons m rest ih =>
          rw [canonicalMembers, member?_insertMember, ih, member?_cons, Option.map_or]
          congr 1
          split <;> rfl
  | _ => rfl

/-- A value is found as it is where all members are canonical. -/
theorem member?_canonical_of_forall (h : ∀ m ∈ ms, canonical m.2 = m.2) :
    member? name (canonical (.object ms)) = member? name (.object ms) := by
  rw [member?_canonical, member?, Option.map_map]
  cases hfind : ms.reverse.find? (·.1 == name) with
  | none => rfl
  | some m =>
      rw [Option.map_some, Option.map_some, Function.comp_apply,
        h m (List.mem_reverse.1 (List.mem_of_find?_eq_some hfind))]

end Json

end Covering
