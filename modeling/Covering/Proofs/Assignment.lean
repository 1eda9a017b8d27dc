import Covering.Space
import Mathlib.Data.List.GetD
import Mathlib.Tactic.ByContra

/-!
# Rows that extend partial rows

What it means for a row to keep the bindings of a partial row, and what
changes when one position is bound or one value is replaced.

Rows and partial rows are compared position by position, through `row[p]?` and
`Partial.at?`, since every definition of the library reads them that way. A
full row is the partial row `row.map some`, which is how a search over partial
rows hands over its result.

## Main definitions

* `Partial.ExtendedBy`: A row keeps what a partial row binds.
* `Space.AdmitsPartial`: A partial row has the width and values of a space.

## Theorems

* `agrees_iff`: An assignment makes all bindings of a list.
* `admits_iff`: The rows of a space, position by position.
* `admits_set`: Replacing a value by another of its parameter.
* `toRow?_eq_some_iff`: A partial row without free position is a row.
* `FreeWithin.skip`, `FreeWithin.bind`: Fewer positions are free.
* `FreeWithin.exists_toRow?`: Binding every position makes a row.
* `exists_admits_of_admitsPartial`: Every partial row of a space extends to one
  of its rows.
-/

namespace Covering

theorem Row.agrees_iff {row : Row} {bindings : List Binding} :
    row.agrees bindings = true ↔ ∀ b ∈ bindings, row[b.position]? = some b.value := by
  simp only [Row.agrees, List.all_eq_true, beq_iff_eq]

/-- The value at a position, where the row has one. -/
theorem Row.getElem?_eq_getD {row : Row} {p : Nat} (h : p < row.length) :
    row[p]? = some (row.getD p 0) := by
  rw [List.getD_eq_getElem?_getD, List.getElem?_eq_getElem h, Option.getD_some]

namespace Partial

theorem agrees_iff {work : Partial} {bindings : List Binding} :
    work.agrees bindings = true ↔ ∀ b ∈ bindings, work.at? b.position = some b.value := by
  simp only [agrees, List.all_eq_true, beq_iff_eq]

/-- A full row, read as a partial row, binds what it holds. -/
@[simp] theorem at?_map_some (row : Row) (p : Nat) : at? (row.map some) p = row[p]? := by
  rw [at?, List.getElem?_map]
  cases row[p]? <;> rfl

/-- A position outside a partial row is free. -/
theorem lt_length_of_at? {work : Partial} {p v : Nat} (h : work.at? p = some v) :
    p < work.length := by
  by_contra hc
  rw [at?, List.getElem?_eq_none (Nat.le_of_not_lt hc)] at h
  exact absurd h (by simp only [Option.join_none, reduceCtorEq, not_false_eq_true])

theorem at?_bind {work : Partial} {b : Binding} (h : b.position < work.length) (p : Nat) :
    (work.bind b).at? p = if b.position = p then some b.value else work.at? p := by
  split
  · rename_i heq
    rw [← heq, at?_bind_self h]
  · rename_i hne
    exact at?_bind_of_ne hne

/-- Binding a position frees none. -/
theorem isSome_at?_bind {work : Partial} {p : Nat} (b : Binding)
    (h : (work.at? p).isSome = true) : ((work.bind b).at? p).isSome = true := by
  rcases Option.isSome_iff_exists.1 h with ⟨v, hv⟩
  by_cases hb : b.position = p
  · have hlt := lt_length_of_at? hv
    rw [← hb] at hlt ⊢
    rw [at?_bind_self hlt, Option.isSome_some]
  · rw [at?_bind_of_ne hb, h]

theorem mem_free_iff {work : Partial} {p : Nat} :
    p ∈ work.free ↔ p < work.length ∧ work.at? p = none := by
  rw [free, List.mem_filter, List.mem_range, Option.isNone_iff_eq_none]

theorem nodup_free (work : Partial) : work.free.Nodup := List.nodup_range.filter _

/-- No position is free but the given ones. -/
def FreeWithin (work : Partial) (positions : List Nat) : Prop :=
  ∀ p, p < work.length → p ∈ positions ∨ (work.at? p).isSome = true

theorem freeWithin_free (work : Partial) : work.FreeWithin work.free := by
  intro p hp
  cases hat : work.at? p with
  | none => exact .inl (mem_free_iff.2 ⟨hp, hat⟩)
  | some v => exact .inr Option.isSome_some

theorem freeWithin_range (work : Partial) : work.FreeWithin (List.range work.length) :=
  fun _ hp => .inl (List.mem_range.2 hp)

/-- A position that is bound need not be given. -/
theorem FreeWithin.skip {work : Partial} {p : Nat} {rest : List Nat}
    (h : work.FreeWithin (p :: rest)) (hp : (work.at? p).isSome = true) :
    work.FreeWithin rest := by
  intro q hq
  rcases h q hq with hmem | hsome
  · rcases List.mem_cons.1 hmem with rfl | hmem
    · exact .inr hp
    · exact .inl hmem
  · exact .inr hsome

/-- A position that was given need not be, once it is bound. -/
theorem FreeWithin.bind {work : Partial} {p : Nat} {rest : List Nat}
    (h : work.FreeWithin (p :: rest)) (hp : p < work.length) (v : Nat) :
    (work.bind ⟨p, v⟩).FreeWithin rest := by
  have hgiven : (work.bind ⟨p, v⟩).FreeWithin (p :: rest) := by
    intro q hq
    rw [length_bind] at hq
    exact (h q hq).imp_right (isSome_at?_bind _)
  refine hgiven.skip ?_
  rw [at?_bind_self hp, Option.isSome_some]

/-- The row has the width of the partial row and every value it binds. -/
def ExtendedBy (work : Partial) (row : Row) : Prop :=
  row.length = work.length ∧ ∀ p v, work.at? p = some v → row[p]? = some v

theorem extendedBy_bind {work : Partial} {row : Row} {p : Nat}
    (h : work.ExtendedBy row) (hp : p < work.length) :
    (work.bind ⟨p, row.getD p 0⟩).ExtendedBy row := by
  refine ⟨by rw [length_bind, h.1], fun q v hq => ?_⟩
  rw [at?_bind hp] at hq
  split at hq
  · rename_i heq
    rw [← heq, ← hq]
    exact Row.getElem?_eq_getD (by rw [h.1]; exact hp)
  · exact h.2 q v hq

/-- What a partial row matches, the rows that extend it match. -/
theorem agrees_of_extendedBy {work : Partial} {row : Row} {bindings : List Binding}
    (hext : work.ExtendedBy row) (h : work.agrees bindings = true) :
    row.agrees bindings = true :=
  Row.agrees_iff.2 fun b hb => hext.2 _ _ (agrees_iff.1 h b hb)

@[simp] theorem agrees_map_some (row : Row) (bindings : List Binding) :
    agrees (row.map some) bindings = row.agrees bindings := by
  rw [Bool.eq_iff_iff, agrees_iff, Row.agrees_iff]
  simp only [at?_map_some]

theorem toRow?_cons (entry : Option Nat) (work : Partial) :
    toRow? (entry :: work) = entry.bind fun v => (toRow? work).map (v :: ·) := by
  rw [toRow?, List.mapM_cons]
  cases entry with
  | none => rfl
  | some v => cases h : toRow? work <;> rw [toRow?] at h <;> simp only [h] <;> rfl

theorem toRow?_eq_some_iff {work : Partial} {row : Row} :
    work.toRow? = some row ↔ work = row.map some := by
  induction work generalizing row with
  | nil =>
      rw [toRow?, List.mapM_nil, eq_comm (a := []), List.map_eq_nil_iff]
      exact ⟨fun h => (Option.some.inj h).symm, fun h => by rw [h]; rfl⟩
  | cons entry work ih =>
      rw [toRow?_cons]
      cases entry with
      | none => cases row <;> simp only [Option.bind_none, List.map_nil, List.map_cons,
          reduceCtorEq, List.cons.injEq, false_and]
      | some v =>
          simp only [Option.bind_some, Option.map_eq_some_iff, ih]
          constructor
          · rintro ⟨rest, rfl, rfl⟩
            rfl
          · cases row with
            | nil => exact fun h => absurd h (by simp only [List.map_nil, reduceCtorEq,
                not_false_eq_true])
            | cons w rest =>
                intro h
                simp only [List.map_cons, List.cons.injEq, Option.some.injEq] at h
                exact ⟨rest, h.2, by rw [h.1]⟩

/-- A partial row that binds every position is a row. -/
theorem FreeWithin.exists_toRow? {work : Partial} (h : work.FreeWithin []) :
    ∃ row, work.toRow? = some row := by
  refine ⟨work.map (·.getD 0), toRow?_eq_some_iff.2 ?_⟩
  rw [List.map_map]
  refine List.ext_getElem (by rw [List.length_map]) fun p hp _ => ?_
  have hsome := (h p hp).resolve_left List.not_mem_nil
  rw [at?, List.getElem?_eq_getElem hp, Option.join_some] at hsome
  rw [List.getElem_map, Function.comp_apply]
  rcases Option.isSome_iff_exists.1 hsome with ⟨v, hv⟩
  rw [hv, Option.getD_some]

end Partial

namespace Space

theorem pos_of_mem_replicate {n v : Nat} : ∀ c ∈ List.replicate n (v + 1), 0 < c := by
  intro c hc
  rw [List.eq_of_mem_replicate hc]
  exact Nat.succ_pos v

theorem weights_shape_none (counts : List Nat) :
    ∀ lists, (none : Option (List (List Nat))) = some lists → lists.map List.length = counts := by
  intro lists h
  exact absurd h (by simp only [reduceCtorEq, not_false_eq_true])

theorem weights_pos_none :
    ∀ lists, (none : Option (List (List Nat))) = some lists →
      ∀ list ∈ lists, ∀ weight ∈ list, 0 < weight := by
  intro lists h
  exact absurd h (by simp only [reduceCtorEq, not_false_eq_true])

/-- The unweighted space of `n + 1` parameters with `v + 1` values each. -/
def uniform (n v : Nat) : Space where
  counts := List.replicate (n + 1) (v + 1)
  weights := none
  counts_ne_nil := List.cons_ne_nil _ _
  counts_pos := pos_of_mem_replicate
  weights_shape := weights_shape_none _
  weights_pos := weights_pos_none

theorem admits_iff {space : Space} {row : Row} :
    space.admits row = true ↔
      row.length = space.width ∧ ∀ p, p < space.width → row.getD p 0 < space.count p := by
  simp only [admits, Bool.and_eq_true, beq_iff_eq, List.all_eq_true, decide_eq_true_eq]
  refine and_congr_right fun hlen => ?_
  constructor
  · intro h p hp
    have hrow : p < row.length := by rw [hlen]; exact hp
    have hmem : (row[p], space.counts[p]) ∈ row.zip space.counts :=
      List.mem_iff_getElem.2 ⟨p, by rw [List.length_zip, hlen]; exact Nat.lt_min.2 ⟨hp, hp⟩,
        List.getElem_zip⟩
    rw [count, List.getD_eq_getElem _ _ hrow, List.getD_eq_getElem _ _ hp]
    exact h _ hmem
  · intro h entry hentry
    rcases List.mem_iff_getElem.1 hentry with ⟨p, hp, rfl⟩
    rw [List.length_zip] at hp
    have hp' : p < space.width := (Nat.lt_min.1 hp).2
    have hlt := h p hp'
    rw [count, List.getD_eq_getElem _ _ (by rw [hlen]; exact hp'), List.getD_eq_getElem _ _ hp']
      at hlt
    rw [List.getElem_zip]
    exact hlt

theorem length_of_admits {space : Space} {row : Row} (h : space.admits row = true) :
    row.length = space.width := (admits_iff.1 h).1

theorem getD_lt_of_admits {space : Space} {row : Row} (h : space.admits row = true) {p : Nat}
    (hp : p < space.width) : row.getD p 0 < space.count p := (admits_iff.1 h).2 p hp

/-- Only the positions of a space have values. -/
theorem lt_width_of_lt_count {space : Space} {p v : Nat} (h : v < space.count p) :
    p < space.width := by
  by_contra hge
  rw [count, List.getD_eq_default _ _ (Nat.le_of_not_lt hge)] at h
  exact Nat.not_lt_zero v h

/-- A row of the space stays one when a value is replaced by another of its
    parameter. -/
theorem admits_set {space : Space} {row : Row} {p v : Nat} (h : space.admits row = true)
    (hv : v < space.count p) : space.admits (row.set p v) = true := by
  rw [admits_iff] at h ⊢
  refine ⟨by rw [List.length_set, h.1], fun q hq => ?_⟩
  rw [List.getD_eq_getElem?_getD, List.getElem?_set]
  split
  · rename_i heq
    rw [if_pos (by rw [heq, h.1]; exact hq), Option.getD_some, ← heq]
    exact hv
  · rw [← List.getD_eq_getElem?_getD]
    exact h.2 q hq

/-- The partial row has the width of the space and only values of it. -/
def AdmitsPartial (space : Space) (work : Partial) : Prop :=
  work.length = space.width ∧ ∀ p v, work.at? p = some v → v < space.count p

theorem admitsPartial_bind {space : Space} {work : Partial} {p v : Nat}
    (h : space.AdmitsPartial work) (hp : p < space.width) (hv : v < space.count p) :
    space.AdmitsPartial (work.bind ⟨p, v⟩) := by
  refine ⟨by rw [Partial.length_bind, h.1], fun q w hq => ?_⟩
  rw [Partial.at?_bind (by rw [h.1]; exact hp)] at hq
  split at hq
  · rename_i heq
    rw [Option.some.injEq] at hq
    rw [← heq, ← hq]
    exact hv
  · exact h.2 q w hq

/-- The row that a partial row of the space has become is one of the space. -/
theorem admits_of_admitsPartial {space : Space} {row : Row}
    (h : space.AdmitsPartial (row.map some)) : space.admits row = true := by
  rcases h with ⟨hlen, hval⟩
  rw [List.length_map] at hlen
  refine admits_iff.2 ⟨hlen, fun p hp => hval p _ ?_⟩
  rw [Partial.at?_map_some]
  exact Row.getElem?_eq_getD (by rw [hlen]; exact hp)

/-- Free positions can be filled with the first values of their parameters. -/
theorem exists_admits_of_admitsPartial {space : Space} {work : Partial}
    (h : space.AdmitsPartial work) : ∃ row, space.admits row = true ∧ work.ExtendedBy row := by
  -- What is bound is kept, and what is free gets the first value.
  have hvalue (p : Nat) : List.getD (work.map (·.getD 0)) p 0 = (work.at? p).getD 0 := by
    rw [List.getD_eq_getElem?_getD, List.getElem?_map, Partial.at?]
    cases work[p]? <;> rfl
  have hlen : (work.map (·.getD 0)).length = space.width := by rw [List.length_map, h.1]
  refine ⟨work.map (·.getD 0), admits_iff.2 ⟨hlen, fun p hp => ?_⟩,
    by rw [List.length_map], fun p v hv => ?_⟩
  · rw [hvalue]
    cases hat : work.at? p with
    | none => exact count_pos space hp
    | some v => exact h.2 p v hat
  · have hp := Partial.lt_length_of_at? hv
    rw [Row.getElem?_eq_getD (by rw [List.length_map]; exact hp), hvalue, hv, Option.getD_some]

end Space

end Covering
