import Covering.Document.Array
import Covering.Proofs.Json.Decode

/-!
# The document of an array is read back

Writing an array as JSON and reading it again gives the same array, as long as
its numbers are words. The numbers of an array that was generated always are,
since they come from options and documents that are read as words; the record
itself does not say so.

What is written is an exact value, so the text is parsed as the document. Its
members then have to be found under their names. The one member that may be
missing is that for the submodels, and a missing one reads as none.

## Main definitions

* `CoveringArray.InWords`: Every number of an array is a word.

## Theorems

* `nats?_ofNats`, `rowsOfJson?_rowsToJson`, `Submodel.ofJson?_toJson`: The parts
  of the document are read back.
* `CoveringArray.ofJson?_toJson`: So is the document.
* `CoveringArray.exact_toJson`, `CoveringArray.nesting_toJson_le`: Its text is
  parsed, strictly too.
* `CoveringArray.ofJson?_rowsToJson`: A bare list of rows is no document of an
  array.
-/

namespace Covering

open Json

section Rows

variable {rows : List Row}

theorem rowsOfJson?_rowsToJson (h : ∀ row ∈ rows, ∀ v ∈ row, v < wordLimit) :
    rowsOfJson? (rowsToJson rows) = some rows :=
  list?_array_map fun row hrow => nats?_ofNats (h row hrow)

theorem exact_rowsToJson (h : ∀ row ∈ rows, ∀ v ∈ row, v < wordLimit) :
    Exact (rowsToJson rows) := exact_array_map fun row hrow => exact_ofNats (h row hrow)

theorem nesting_rowsToJson_le (rows : List Row) : (rowsToJson rows).nesting ≤ 2 :=
  nesting_array_map_le nesting_ofNats_le rows

end Rows

namespace Submodel

variable {s : Submodel}

/-- The order and the positions of the submodel are words. -/
def InWords (s : Submodel) : Prop := s.order < wordLimit ∧ ∀ p ∈ s.positions, p < wordLimit

instance (s : Submodel) : Decidable s.InWords :=
  inferInstanceAs (Decidable (s.order < wordLimit ∧ ∀ p ∈ s.positions, p < wordLimit))

theorem ofJson?_toJson (h : s.InWords) : ofJson? s.toJson = some s := by
  have hfields : fields? ["positions", "order"] s.toJson =
      some [some (ofNats s.positions), some (Json.ofNat s.order)] := rfl
  rw [ofJson?, hfields]
  simp only [Option.bind_eq_bind, Option.bind_some, required, nats?_ofNats h.2, nat?_ofNat h.1,
    Option.pure_def]

theorem yields_ofJson? : Yields ofJson? InWords := by
  intro v s h
  rcases Option.bind_eq_some_iff.1 h with ⟨fields, _, h⟩
  split at h
  · rcases Option.bind_eq_some_iff.1 h with ⟨positions, hpositions, h⟩
    rcases Option.bind_eq_some_iff.1 h with ⟨order, horder, h⟩
    rw [← Option.some.inj h]
    exact ⟨yields_nat?.required horder, yields_nat?.list?.required hpositions⟩
  · exact absurd h (by simp only [reduceCtorEq, not_false_eq_true])

theorem exact_toJson (h : s.InWords) : Exact s.toJson := by
  refine .object ?_
  rw [List.forall_mem_cons, List.forall_mem_singleton]
  exact ⟨exact_ofNats h.2, .natural h.1⟩

theorem nesting_toJson_le (s : Submodel) : s.toJson.nesting ≤ 2 := by
  refine Nat.succ_le_succ (nestingOfMembers_le ?_)
  rw [List.forall_mem_cons, List.forall_mem_singleton]
  exact ⟨nesting_ofNats_le s.positions, Nat.zero_le 1⟩

end Submodel

section Submodels

variable {submodels : List Submodel}

theorem exact_submodelsToJson (h : ∀ s ∈ submodels, s.InWords) :
    Exact (submodelsToJson submodels) := exact_array_map fun s hs => s.exact_toJson (h s hs)

theorem nesting_submodelsToJson_le (submodels : List Submodel) :
    (submodelsToJson submodels).nesting ≤ 3 :=
  nesting_array_map_le Submodel.nesting_toJson_le submodels

/-- What holds of a member for submodels. -/
theorem forall_mem_submodelsMember {P : String × Json → Prop}
    (h : P ("submodels", submodelsToJson submodels)) : ∀ m ∈ submodelsMember submodels, P m := by
  rw [submodelsMember]
  split
  · exact fun m hm => absurd hm List.not_mem_nil
  · exact List.forall_mem_singleton.2 h

/-- A member for submodels that is left out is read as none. -/
theorem optional_submodels (h : ∀ s ∈ submodels, s.InWords) :
    Json.optional [] (list? Submodel.ofJson?)
      (if submodels.isEmpty then none else some (submodelsToJson submodels)) = some submodels := by
  by_cases hempty : submodels.isEmpty
  · rw [if_pos hempty, Json.optional, List.isEmpty_iff.1 hempty]
  · rw [if_neg hempty, Json.optional]
    exact list?_array_map fun s hs => Submodel.ofJson?_toJson (h s hs)

end Submodels

namespace CoveringArray

/-- Every number of the array is a word. -/
structure InWords (array : CoveringArray) : Prop where
  counts : ∀ n ∈ array.valueCounts, n < wordLimit
  order : array.order < wordLimit
  seed : array.seed < wordLimit
  submodels : ∀ s ∈ array.submodels, s.InWords
  rows : ∀ row ∈ array.rows, ∀ v ∈ row, v < wordLimit

variable {array : CoveringArray}

/-- The members of the document are found under their names. -/
theorem fields?_toJson (array : CoveringArray) :
    array.toJson.fields? fieldNames =
      some [some (ofNats array.valueCounts), some (Json.ofNat array.order),
        some (Json.ofNat array.seed),
        if array.submodels.isEmpty then none else some (submodelsToJson array.submodels),
        some (rowsToJson array.rows)] := by
  rw [toJson, submodelsMember]
  cases array.submodels.isEmpty with
  | true => rfl
  | false => rfl

/-- The document of an array is read back. -/
theorem ofJson?_toJson (h : array.InWords) : ofJson? array.toJson = some array := by
  rw [ofJson?, fields?_toJson]
  simp only [Option.bind_eq_bind, Option.bind_some, required, nats?_ofNats h.counts,
    nat?_ofNat h.order, nat?_ofNat h.seed, optional_submodels h.submodels,
    rowsOfJson?_rowsToJson h.rows, Option.pure_def]

/-- What holds of all its parts holds of every member of the document. -/
theorem forall_members {P : Json → Prop} (hcounts : P (ofNats array.valueCounts))
    (horder : P (Json.ofNat array.order)) (hseed : P (Json.ofNat array.seed))
    (hsubmodels : P (submodelsToJson array.submodels)) (hrows : P (rowsToJson array.rows)) :
    ∀ m ∈ [("value_counts", ofNats array.valueCounts), ("order", Json.ofNat array.order),
        ("seed", Json.ofNat array.seed)] ++ submodelsMember array.submodels ++
          [("rows", rowsToJson array.rows)], P m.2 := by
  simp only [List.forall_mem_append, List.forall_mem_cons, List.not_mem_nil, false_implies,
    implies_true, and_true]
  exact ⟨⟨⟨hcounts, horder, hseed⟩, forall_mem_submodelsMember hsubmodels⟩, hrows⟩

theorem exact_toJson (h : array.InWords) : Exact array.toJson :=
  .object (forall_members (exact_ofNats h.counts) (.natural h.order) (.natural h.seed)
    (exact_submodelsToJson h.submodels) (exact_rowsToJson h.rows))

theorem nesting_toJson_le (array : CoveringArray) : array.toJson.nesting ≤ 4 := by
  have hcounts := nesting_ofNats_le array.valueCounts
  have hrows := nesting_rowsToJson_le array.rows
  refine Nat.succ_le_succ (nestingOfMembers_le
    (forall_members (P := fun v => v.nesting ≤ 3) ?_ ?_ ?_ (nesting_submodelsToJson_le _) ?_))
  · omega
  · exact Nat.zero_le 3
  · exact Nat.zero_le 3
  · omega

/-- A bare list of rows is no document of an array. As the values of its fields
    in order, it would have a row where the order is expected, or nothing. -/
theorem ofJson?_rowsToJson (rows : List Row) : ofJson? (rowsToJson rows) = none := by
  rw [Option.eq_none_iff_forall_ne_some]
  intro array h
  rcases Option.bind_eq_some_iff.1 h with ⟨fields, hfields, h⟩
  split at h
  · rename_i order _ _ _
    have hnone : required nat? order = none := by
      rw [rowsToJson, Json.fields?] at hfields
      split at hfields
      · match rows with
        | [] => rw [← (List.cons.inj (List.cons.inj (Option.some.inj hfields)).2).1]; rfl
        | [row] => rw [← (List.cons.inj (List.cons.inj (Option.some.inj hfields)).2).1]; rfl
        | row :: second :: rest =>
            rw [← (List.cons.inj (List.cons.inj (Option.some.inj hfields)).2).1]
            rfl
      · exact absurd hfields (by simp only [reduceCtorEq, not_false_eq_true])
    rcases Option.bind_eq_some_iff.1 h with ⟨_, _, h⟩
    rcases Option.bind_eq_some_iff.1 h with ⟨n, horder, _⟩
    exact absurd (hnone.symm.trans horder) (by simp only [reduceCtorEq, not_false_eq_true])
  · exact absurd h (by simp only [reduceCtorEq, not_false_eq_true])

end CoveringArray

end Covering
