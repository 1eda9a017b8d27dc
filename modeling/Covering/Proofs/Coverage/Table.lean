import Covering.Coverage.Table
import Covering.Proofs.Obligation

/-!
# Cells and obligations

A table says of each obligation on its positions what is known of it, and the
arithmetic that finds the cell of a row finds the obligation the row satisfies.

Cells are addressed in mixed radix. Going through the indices in order and
decoding each of them gives the value tuples in order (`map_decode_range`), so
a table can be read as a list of obligations with a cell for each
(`Table.entries`), and everything that happens to a table is stated on that
list. Two things happen: a cell is closed, which replaces one entry
(`entries_close`), and a row is marked, which covers the open entries whose
obligation the row satisfies (`entries_mark`). There is one such entry in a
table at most, the one that `indexOf` finds (`satisfiedBy_obligationAt_iff`).

## Main definitions

* `Table.encode`: The index of a value tuple under given strides.
* `Table.entries`: The obligations of a table, each with its cell.
* `cellCount`: How many entries have a given cell.
* `coverEntry`: What marking a row does to an entry.
* `Table.Shaped`: A table addresses its cells as its positions require and
  counts the open ones.

## Theorems

* `map_decode_range`: Indices in order are tuples in order.
* `encode_lt`, `decode_encode`, `encode_decode`: Indices and tuples correspond.
* `map_fst_entries`: The obligations of a table are those on its positions.
* `satisfiedBy_obligationAt_iff`: A row satisfies the obligation of its cell.
* `entries_close`, `entries_mark`: The two ways a table changes.
* `shaped_ofPositions`, `shaped_close`, `shaped_mark`: Tables stay in shape.
-/

namespace Covering

namespace Table

/-- The index of a value tuple under the given strides. -/
def encode (values strides : List Nat) : Nat :=
  sumOf (List.zipWith (fun v s => v * s) values strides)

theorem indexOf_eq_encode (table : Table) (row : Row) :
    table.indexOf row = encode (row.valuesAt table.positions) table.strides := by
  rw [indexOf, encode, Row.valuesAt, List.zipWith_map_left]

theorem range_mul (m n : Nat) :
    List.range (m * n) = (List.range m).flatMap fun i => (List.range n).map (i * n + ·) := by
  induction m with
  | zero => rw [Nat.zero_mul, List.range_zero, List.flatMap_nil]
  | succ m ih =>
      rw [Nat.succ_mul, List.range_add, ih, List.range_succ, List.flatMap_append,
        List.flatMap_singleton]

/-- Going through the indices in order goes through the tuples in order. -/
theorem map_decode_range (rs : List Nat) :
    (List.range (productOf rs)).map (decode · (stridesOf rs)) = product rs := by
  induction rs with
  | nil => rfl
  | cons r rs ih =>
      rw [productOf, range_mul, List.map_flatMap, product]
      refine List.flatMap_congr fun v _ => ?_
      rw [← ih, List.map_map, List.map_map]
      refine List.map_congr_left fun j hj => ?_
      rw [List.mem_range] at hj
      have hpos : 0 < productOf rs := Nat.lt_of_le_of_lt (Nat.zero_le j) hj
      -- The quotient is the first value, and the remainder stands for the others.
      simp only [Function.comp_apply, stridesOf, decode]
      rw [Nat.mul_comm, Nat.mul_add_div hpos, Nat.div_eq_of_lt hj, Nat.add_zero, Nat.mul_add_mod,
        Nat.mod_eq_of_lt hj]

theorem decode_mem_product {rs : List Nat} {i : Nat} (h : i < productOf rs) :
    decode i (stridesOf rs) ∈ product rs := by
  rw [← map_decode_range]
  exact List.mem_map.2 ⟨i, List.mem_range.2 h, rfl⟩

theorem encode_lt {rs vs : List Nat} (h : vs ∈ product rs) :
    encode vs (stridesOf rs) < productOf rs := by
  induction rs generalizing vs with
  | nil =>
      rw [List.mem_singleton.1 h]
      exact Nat.zero_lt_one
  | cons r rs ih =>
      cases vs with
      | nil => exact absurd (length_of_mem_product h) (Nat.succ_ne_zero _).symm
      | cons v vs =>
          rcases mem_product_cons.1 h with ⟨hv, hvs⟩
          have hlt := ih hvs
          rw [encode] at hlt
          rw [encode, stridesOf, List.zipWith_cons_cons, sumOf, productOf]
          calc v * productOf rs + sumOf (List.zipWith (fun v s => v * s) vs (stridesOf rs))
              < v * productOf rs + productOf rs := Nat.add_lt_add_left hlt _
            _ = (v + 1) * productOf rs := (Nat.succ_mul v _).symm
            _ ≤ r * productOf rs := Nat.mul_le_mul_right _ hv

theorem decode_encode {rs vs : List Nat} (h : vs ∈ product rs) :
    decode (encode vs (stridesOf rs)) (stridesOf rs) = vs := by
  induction rs generalizing vs with
  | nil =>
      rw [List.mem_singleton.1 h]
      rfl
  | cons r rs ih =>
      cases vs with
      | nil => exact absurd (length_of_mem_product h) (Nat.succ_ne_zero _).symm
      | cons v vs =>
          rcases mem_product_cons.1 h with ⟨_, hvs⟩
          have hlt := encode_lt hvs
          have hpos : 0 < productOf rs := Nat.lt_of_le_of_lt (Nat.zero_le _) hlt
          have hencode : encode (v :: vs) (stridesOf (r :: rs)) =
              productOf rs * v + encode vs (stridesOf rs) := by
            rw [encode, stridesOf, List.zipWith_cons_cons, sumOf, encode, Nat.mul_comm]
          rw [hencode, stridesOf, decode, Nat.mul_add_div hpos, Nat.div_eq_of_lt hlt,
            Nat.add_zero, Nat.mul_add_mod, Nat.mod_eq_of_lt hlt, ih hvs]

theorem encode_decode {rs : List Nat} {i : Nat} (h : i < productOf rs) :
    encode (decode i (stridesOf rs)) (stridesOf rs) = i := by
  induction rs generalizing i with
  | nil =>
      rw [productOf] at h
      rw [Nat.lt_one_iff.1 h]
      rfl
  | cons r rs ih =>
      rw [productOf] at h
      have hpos : 0 < productOf rs :=
        Nat.pos_of_ne_zero fun hzero => by rw [hzero, Nat.mul_zero] at h; omega
      have hrest := ih (Nat.mod_lt i hpos)
      rw [encode] at hrest
      rw [stridesOf, decode, encode, List.zipWith_cons_cons, sumOf, hrest]
      exact Nat.div_add_mod' i (productOf rs)

/-- The obligations of a table, in order, each with its cell. -/
def entries (table : Table) : List (Obligation × Cell) :=
  (List.range table.cells.size).map fun i => (table.obligationAt i, table.cells[i]?.getD .uncovered)

/-- The table addresses the cells of a choice of positions of the space, and
    counts those that are uncovered. -/
structure Shaped (space : Space) (table : Table) : Prop where
  choice : space.Choice table.positions
  strides : table.strides = stridesOf (table.positions.map space.count)
  size : table.cells.size = productOf (table.positions.map space.count)
  uncovered : table.uncovered = table.openCells.length

end Table

/-- How many of the entries have the given cell. -/
def cellCount (cell : Cell) (entries : List (Obligation × Cell)) : Nat :=
  entries.countP fun entry => entry.2 = cell

/-- What marking a row does to an entry: it covers an open one whose obligation
    the row satisfies. -/
def coverEntry (row : Row) (entry : Obligation × Cell) : Obligation × Cell :=
  if entry.2 = .uncovered ∧ entry.1.satisfiedBy row = true then (entry.1, .covered) else entry

@[simp] theorem coverEntry_fst (row : Row) (entry : Obligation × Cell) :
    (coverEntry row entry).1 = entry.1 := by
  rw [coverEntry]
  split <;> rfl

/-- Marking covers what was covered, and what is open and satisfied. -/
theorem coverEntry_covered_iff {row : Row} {entry : Obligation × Cell} :
    (coverEntry row entry).2 = .covered ↔
      entry.2 = .covered ∨ entry.2 = .uncovered ∧ entry.1.satisfiedBy row = true := by
  rw [coverEntry]
  split
  · rename_i h
    exact ⟨fun _ => .inr h, fun _ => rfl⟩
  · rename_i h
    exact ⟨.inl, fun hc => hc.resolve_right h⟩

/-- Marking excludes nothing. -/
theorem coverEntry_excluded_iff {row : Row} {entry : Obligation × Cell} :
    (coverEntry row entry).2 = .excluded ↔ entry.2 = .excluded := by
  rw [coverEntry]
  split
  · rename_i h
    simp only [h.1, reduceCtorEq]
  · rfl

theorem cellCount_append (cell : Cell) (as bs : List (Obligation × Cell)) :
    cellCount cell (as ++ bs) = cellCount cell as + cellCount cell bs := List.countP_append

namespace Table

section Shaped

variable {space : Space} {table : Table} {row : Row} {i : Nat}

/-- The obligations of a table are those on its positions. -/
theorem map_fst_entries (h : table.Shaped space) :
    table.entries.map (·.1) = obligationsOn space table.positions := by
  rw [obligationsOn, h.choice.tuples, ← map_decode_range, entries, List.map_map, List.map_map,
    h.size, ← h.strides]
  rfl

theorem indexOf_lt (h : table.Shaped space) (hrow : space.admits row = true) :
    table.indexOf row < table.cells.size := by
  rw [indexOf_eq_encode, h.strides, h.size]
  exact encode_lt (valuesAt_mem_product hrow h.choice.lt_width)

/-- A row satisfies the obligation of its cell, and no other of the table. -/
theorem satisfiedBy_obligationAt_iff (h : table.Shaped space) (hrow : space.admits row = true)
    (hi : i < table.cells.size) :
    (table.obligationAt i).satisfiedBy row = true ↔ i = table.indexOf row := by
  rw [h.size] at hi
  have hvalues := valuesAt_mem_product hrow h.choice.lt_width
  have hlen : (decode i table.strides).length = table.positions.length := by
    rw [h.strides, length_of_mem_product (decode_mem_product hi), List.length_map]
  rw [obligationAt, Obligation.satisfiedBy_iff hlen
    (fun p hp => by rw [Space.length_of_admits hrow]; exact h.choice.lt_width p hp),
    indexOf_eq_encode, h.strides]
  constructor
  · intro heq
    rw [heq, encode_decode hi]
  · intro heq
    rw [heq, decode_encode hvalues]

theorem isOpen_close (table : Table) {cell : Cell} (hcell : cell ≠ .uncovered) (index i : Nat) :
    (table.close index cell).isOpen i = (table.isOpen i && i != index) := by
  rw [Bool.eq_iff_iff, Bool.and_eq_true, bne_iff_ne, isOpen_iff, isOpen_iff, close]
  simp only [Array.getElem?_setIfInBounds]
  by_cases hi : index = i
  · rw [if_pos hi, hi]
    refine ⟨fun h => ?_, fun h => absurd rfl h.2⟩
    split at h
    · exact absurd (Option.some.inj h) hcell
    · exact absurd h (by simp only [reduceCtorEq, not_false_eq_true])
  · rw [if_neg hi]
    exact ⟨fun h => ⟨h, fun hi' => hi hi'.symm⟩, fun h => h.1⟩

theorem lt_size_of_isOpen (h : table.isOpen i = true) : i < table.cells.size := by
  by_contra hge
  rw [isOpen, dif_neg hge] at h
  exact absurd h (by decide)

/-- Marking a row closes the cell whose obligation the row satisfies. -/
theorem isOpen_mark (h : table.Shaped space) (hrow : space.admits row = true) (i : Nat) :
    (table.mark row).isOpen i =
      (table.isOpen i && !(table.obligationAt i).satisfiedBy row) := by
  -- Of the open cells, the row satisfies the one it has.
  have hindex (hi : table.isOpen i = true) :
      (table.obligationAt i).satisfiedBy row = (i == table.indexOf row) := by
    rw [Bool.eq_iff_iff, beq_iff_eq]
    exact satisfiedBy_obligationAt_iff h hrow (lt_size_of_isOpen hi)
  rw [mark]
  split
  · rw [isOpen_close table (by decide)]
    cases hi : table.isOpen i with
    | false => rfl
    | true => rw [hindex hi]; rfl
  · rename_i hclosed
    -- The cell of the row was closed before, so no open cell is its.
    cases hi : table.isOpen i with
    | false => rfl
    | true =>
        rw [hindex hi, Bool.true_and, eq_comm, Bool.not_eq_true', beq_eq_false_iff_ne]
        rintro rfl
        exact hclosed hi

/-- Closing an open cell replaces one entry. -/
theorem entries_close (h : table.isOpen i = true) (cell : Cell) :
    ∃ before after,
      table.entries = before ++ (table.obligationAt i, .uncovered) :: after ∧
        (table.close i cell).entries = before ++ (table.obligationAt i, cell) :: after := by
  have hlt := lt_size_of_isOpen h
  -- The indices before the closed one, itself, and those behind it.
  have hsplit : List.range table.cells.size =
      List.range i ++ i :: List.range' (i + 1) (table.cells.size - (i + 1)) := by
    have hsum : table.cells.size = i + (table.cells.size - (i + 1) + 1) := by omega
    rw [← List.range'_succ, List.range_eq_range', List.range_eq_range']
    conv => lhs; rw [hsum, ← List.range'_append_1, Nat.zero_add]
  have hopen : table.cells[i]?.getD .uncovered = .uncovered := by
    rw [isOpen_iff.1 h, Option.getD_some]
  have hclose (j : Nat) : (table.close i cell).cells[j]?.getD .uncovered =
      if i = j then cell else table.cells[j]?.getD .uncovered := by
    rw [close, Array.getElem?_setIfInBounds, if_pos hlt]
    split <;> rfl
  refine ⟨(List.range i).map fun j => (table.obligationAt j, table.cells[j]?.getD .uncovered),
    (List.range' (i + 1) (table.cells.size - (i + 1))).map fun j =>
      (table.obligationAt j, table.cells[j]?.getD .uncovered), ?_, ?_⟩
  · rw [entries, hsplit, List.map_append, List.map_cons, hopen]
  · rw [entries, size_cells_close, hsplit, List.map_append, List.map_cons, hclose, if_pos rfl]
    congr 1
    · refine List.map_congr_left fun j hj => ?_
      rw [List.mem_range] at hj
      rw [hclose, if_neg (by omega)]
      rfl
    · congr 1
      refine List.map_congr_left fun j hj => ?_
      rw [List.mem_range'_1] at hj
      rw [hclose, if_neg (by omega)]
      rfl

/-- Marking a row covers the open entries whose obligation the row satisfies. -/
theorem entries_mark (h : table.Shaped space) (hrow : space.admits row = true) :
    (table.mark row).entries = table.entries.map (coverEntry row) := by
  have hget (j : Nat) (hj : j < table.cells.size) :
      table.isOpen j = true ↔ table.cells[j]?.getD .uncovered = .uncovered := by
    rw [isOpen_iff, Array.getElem?_eq_getElem hj, Option.getD_some, Option.some.injEq]
  rw [entries, entries, List.map_map, size_cells_mark]
  refine List.map_congr_left fun j hj => ?_
  rw [List.mem_range] at hj
  have hobligation : (table.mark row).obligationAt j = table.obligationAt j := by
    rw [obligationAt, obligationAt, positions_mark, strides_mark]
  rw [hobligation, Function.comp_apply, coverEntry]
  simp only [← hget j hj, satisfiedBy_obligationAt_iff h hrow hj]
  rw [mark]
  split
  · rename_i hopen
    -- The row covers the cell it has, and that was open.
    rw [close, Array.getElem?_setIfInBounds, if_pos (lt_size_of_isOpen hopen)]
    by_cases hjrow : table.indexOf row = j
    · rw [if_pos hjrow, if_pos ⟨hjrow ▸ hopen, hjrow.symm⟩, Option.getD_some]
    · rw [if_neg hjrow, if_neg fun hc => hjrow hc.2.symm]
  · rename_i hclosed
    -- The cell of the row was not open, so no entry changes.
    rw [if_neg]
    rintro ⟨hopen, rfl⟩
    exact hclosed hopen

/-- The open cells are the uncovered entries. -/
theorem length_openCells (table : Table) :
    table.openCells.length = cellCount .uncovered table.entries := by
  rw [openCells, ← List.countP_eq_length_filter, cellCount, entries, List.countP_map]
  refine List.countP_congr fun i hi => ?_
  rw [List.mem_range] at hi
  rw [isOpen_iff, Function.comp_apply, decide_eq_true_eq, Array.getElem?_eq_getElem hi,
    Option.getD_some, Option.some.injEq]

/-- A table starts in shape. -/
theorem shaped_ofPositions {positions : List Nat} (h : space.Choice positions) :
    (ofPositions space positions).Shaped space := by
  refine ⟨h, rfl, Array.size_replicate, ?_⟩
  have hopen : ∀ i ∈ List.range (ofPositions space positions).cells.size,
      (ofPositions space positions).isOpen i = true := by
    intro i hi
    rw [List.mem_range] at hi
    rw [isOpen_iff, Array.getElem?_eq_getElem hi]
    simp only [ofPositions, Array.getElem_replicate]
  rw [openCells, List.filter_eq_self.2 hopen, List.length_range]
  exact Array.size_replicate.symm

/-- Closing an open cell keeps a table in shape. -/
theorem shaped_close (h : table.Shaped space) (hi : table.isOpen i = true) {cell : Cell}
    (hcell : cell ≠ .uncovered) : (table.close i cell).Shaped space := by
  refine ⟨h.choice, h.strides, by rw [size_cells_close, h.size]; rfl, ?_⟩
  -- One uncovered entry gives way to one that is not.
  rcases entries_close hi cell with ⟨before, after, hbefore, hafter⟩
  have huncovered := h.uncovered
  rw [length_openCells, hbefore] at huncovered
  rw [length_openCells, hafter]
  simp only [cellCount, List.countP_append, List.countP_cons, decide_true, if_true,
    hcell, decide_false, Bool.false_eq_true, if_false] at huncovered ⊢
  rw [close]
  simp only [huncovered]
  omega

/-- Marking a row keeps a table in shape. -/
theorem shaped_mark (h : table.Shaped space) (row : Row) : (table.mark row).Shaped space := by
  rw [mark]
  split
  · rename_i hopen
    exact shaped_close h hopen (by decide)
  · exact h

/-- Marking a row lowers the count of open cells by one where it finds its cell
    open. -/
theorem uncovered_mark (h : table.Shaped space) (row : Row) :
    (table.mark row).uncovered + (if table.isOpenFor row then 1 else 0) = table.uncovered := by
  rw [mark]
  split
  · rename_i hopen
    -- The open cell is counted, so there is one to take away.
    have hpos : 0 < table.uncovered := by
      rw [h.uncovered, List.length_pos_iff_exists_mem]
      exact ⟨_, List.mem_filter.2 ⟨List.mem_range.2 (lt_size_of_isOpen hopen), hopen⟩⟩
    rw [close]
    simp only
    omega
  · rfl

end Shaped

end Table

end Covering
