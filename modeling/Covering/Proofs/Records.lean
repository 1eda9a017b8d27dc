import Covering.Proofs.Delimited

/-!
# Which records are rows

Delimited text is read as all of its rows or not at all. Of the records that are not
blank, those with a number in every cell are rows. No other record may stand among
them, but for the first one, if it has no number in it: that one is a header.

So no record is dropped for what is wrong with it. A first record with some numbers
and some other cells is neither a row nor a header, wherever blank records stand in
front of it. A number that has no room is no number, so a row with a cell that is too
large is an error as long as another cell of it, or a record before it, is in order.

## Main definitions

* `Record.Writes`: The row that a record writes.
* `Record.IsRow`, `Record.IsWordless`: Records of numbers, and records without one.
* `nonblank`, `contents`: The records that are not blank.
* `Readable`: Records that are rows, but for a header in front.

## Theorems

* `isHeader_iff`: Records without a number are taken for headers.
* `mapM_rowOfRecord_eq_ok_iff`: Records are read as the rows that they write.
* `rowsOfRecords_eq_ok_iff`: What is read of records.
* `exists_of_rowsOfRecords_eq_error`: What is reported of other ones.
* `readRows_exact`: Which texts are read, and as which rows.
-/

namespace Covering

open Text

section Cells

variable {cell : List Char}

theorem exists_writesWord_iff :
    (∃ v, WritesWord cell v) ↔ (readWord cell).toOption.isSome = true := by
  simp only [← readWord_eq_ok_iff]
  cases readWord cell with
  | error fault => exact ⟨fun ⟨_, h⟩ => (nomatch h), (nomatch ·)⟩
  | ok v => exact ⟨fun _ => rfl, fun _ => ⟨v, rfl⟩⟩

instance (cell : List Char) : Decidable (∃ v, WritesWord cell v) :=
  decidable_of_iff _ exists_writesWord_iff.symm

end Cells

namespace Record

/-- The cells write the numbers of the row, in their order. -/
def Writes (r : Record) (row : Row) : Prop := List.Forall₂ WritesWord r.cells row

/-- Every cell is a number. -/
def IsRow (r : Record) : Prop := ∀ cell ∈ r.cells, ∃ v, WritesWord cell v

/-- No cell is a number. -/
def IsWordless (r : Record) : Prop := ∀ cell ∈ r.cells, ¬ ∃ v, WritesWord cell v

instance (r : Record) : Decidable r.IsRow :=
  inferInstanceAs (Decidable (∀ cell ∈ r.cells, ∃ v, WritesWord cell v))

instance (r : Record) : Decidable r.IsWordless :=
  inferInstanceAs (Decidable (∀ cell ∈ r.cells, ¬ ∃ v, WritesWord cell v))

variable {r : Record} {row : Row}

theorem row_eq_ok_iff : r.row = .ok row ↔ r.Writes row := by
  rw [Record.row, mapM_eq_ok_iff, Writes]
  simp only [readWord_eq_ok_iff]

theorem rowOfRecord_eq_ok_iff : rowOfRecord r = .ok row ↔ r.Writes row := by
  rw [rowOfRecord, mapError_eq_ok_iff, row_eq_ok_iff]

/-- What is wrong with a record is reported under its line. -/
theorem rowOfRecord_eq_error_iff {e : ToolError} :
    rowOfRecord r = .error e ↔
      ∃ fault, r.row = .error fault ∧ e = .unreadable s!"line {r.line}: {fault.message}" := by
  rw [rowOfRecord]
  cases r.row with
  | error fault => simp only [Except.mapError, Except.error.injEq, exists_eq_left', eq_comm]
  | ok row => simp only [Except.mapError, reduceCtorEq, false_and, exists_false]

/-- A record of numbers writes a row. -/
theorem isRow_iff_exists_writes : r.IsRow ↔ ∃ row, r.Writes row := by
  simp only [IsRow, ← row_eq_ok_iff, ← readWord_eq_ok_iff]
  refine ⟨exists_mapM_eq_ok, fun ⟨row, h⟩ cell hcell => ?_⟩
  rcases (mem_of_mapM_ok h).2 cell hcell with ⟨v, _, hv⟩
  exact ⟨v, hv⟩

/-- A record that is at fault writes none. -/
theorem not_isRow_of_error {e : ToolError} (h : rowOfRecord r = .error e) : ¬ r.IsRow := by
  intro hrow
  rcases isRow_iff_exists_writes.1 hrow with ⟨row, hwrites⟩
  rw [rowOfRecord_eq_ok_iff.2 hwrites] at h
  exact absurd h (by simp only [reduceCtorEq, not_false_eq_true])

/-- Records without a number are taken for headers. -/
theorem isHeader_iff : r.isHeader = true ↔ r.IsWordless := by
  simp only [isHeader, IsWordless, List.all_eq_true, exists_writesWord_iff,
    Option.isNone_iff_eq_none, ← Option.not_isSome_iff_eq_none]

/-- A record that is not blank has a cell. -/
theorem ne_nil_of_not_isBlank (h : r.isBlank = false) : r.cells ≠ [] := by
  intro hnil
  rw [isBlank, hnil] at h
  exact absurd h (by decide)

/-- It is not both a row and without a number. -/
theorem not_isRow_of_isWordless (hblank : r.isBlank = false) (h : r.IsWordless) : ¬ r.IsRow := by
  rcases List.exists_mem_of_ne_nil _ (ne_nil_of_not_isBlank hblank) with ⟨cell, hcell⟩
  exact fun hrow => h cell hcell (hrow cell hcell)

end Record

section Contents

/-- The records that are not blank. -/
def nonblank (rs : List Record) : List Record := rs.filter fun r => !r.isBlank

/-- The records of a text that are not blank. -/
def contents (delimiter : Char) (text : String) : List Record :=
  nonblank (records delimiter text.toList)

/-- Each of the records is a row, but the first one may be a header. -/
def Readable : List Record → Prop
  | [] => True
  | first :: rest => (first.IsRow ∨ first.IsWordless) ∧ ∀ r ∈ rest, r.IsRow

instance : DecidablePred Readable
  | [] => inferInstanceAs (Decidable True)
  | first :: rest =>
      inferInstanceAs (Decidable ((first.IsRow ∨ first.IsWordless) ∧ ∀ r ∈ rest, r.IsRow))

variable {rs : List Record} {rows : List Row}

theorem not_isBlank_of_mem_nonblank {r : Record} (h : r ∈ nonblank rs) : r.isBlank = false := by
  have hkept := (List.mem_filter.1 h).2
  rwa [Bool.not_eq_true'] at hkept

/-- Records are read as the rows that they write. -/
theorem mapM_rowOfRecord_eq_ok_iff :
    rs.mapM rowOfRecord = .ok rows ↔ List.Forall₂ Record.Writes rs rows := by
  rw [mapM_eq_ok_iff]
  simp only [Record.rowOfRecord_eq_ok_iff]

/-- So all of them are rows, and none is left out. -/
theorem forall₂_writes_iff :
    List.Forall₂ Record.Writes rs rows ↔
      (∀ r ∈ rs, r.IsRow) ∧ List.Forall₂ Record.Writes (rs.filter (·.IsRow)) rows := by
  have hkept (h : ∀ r ∈ rs, r.IsRow) : rs.filter (·.IsRow) = rs :=
    List.filter_eq_self.2 fun r hr => decide_eq_true (h r hr)
  constructor
  · intro h
    have hrows : ∀ r ∈ rs, r.IsRow := by
      rw [← mapM_rowOfRecord_eq_ok_iff] at h
      intro r hr
      rcases (mem_of_mapM_ok h).2 r hr with ⟨row, _, hrow⟩
      exact Record.isRow_iff_exists_writes.2 ⟨row, Record.rowOfRecord_eq_ok_iff.1 hrow⟩
    exact ⟨hrows, by rwa [hkept hrows]⟩
  · rintro ⟨hrows, h⟩
    rwa [hkept hrows] at h

/-- Rows are read of the records that are not blank. -/
theorem rowsOfRecords_eq (rs : List Record) : rowsOfRecords rs = match nonblank rs with
    | [] => .ok []
    | first :: rest => (if first.isHeader then rest else first :: rest).mapM rowOfRecord := rfl

/-- Records are read when they are readable, as the rows among those that are not
    blank. -/
theorem rowsOfRecords_eq_ok_iff :
    rowsOfRecords rs = .ok rows ↔
      Readable (nonblank rs) ∧
        List.Forall₂ Record.Writes ((nonblank rs).filter (·.IsRow)) rows := by
  rw [rowsOfRecords_eq]
  cases hkept : nonblank rs with
  | nil =>
      simp only [Readable, true_and, List.filter_nil, List.forall₂_nil_left_iff, Except.ok.injEq]
      exact eq_comm
  | cons first rest =>
      have hblank : first.isBlank = false :=
        not_isBlank_of_mem_nonblank (hkept ▸ List.mem_cons_self)
      by_cases hwordless : first.IsWordless
      · -- The first record is a header, and what is read is read of the others.
        have hfirst := Record.not_isRow_of_isWordless hblank hwordless
        simp only [Record.isHeader_iff.2 hwordless, if_true, mapM_rowOfRecord_eq_ok_iff, Readable,
          hwordless, or_true, true_and, List.filter_cons, hfirst, decide_false,
          Bool.false_eq_true, if_false]
        exact forall₂_writes_iff
      · have hheader : ¬ first.isHeader = true := mt Record.isHeader_iff.1 hwordless
        simp only [hheader, mapM_rowOfRecord_eq_ok_iff, Readable, hwordless, or_false,
          ← List.forall_mem_cons]
        exact forall₂_writes_iff

theorem readable_of_forall (h : ∀ r ∈ rs, r.IsRow) : Readable rs := by
  cases rs with
  | nil => trivial
  | cons first rest => exact (List.forall_mem_cons.1 h).imp_left .inl

/-- A record that is no row makes records unreadable, unless it is a header in front
    of them. -/
theorem not_readable_concat {before : List Record} {r : Record} (hrow : ¬ r.IsRow)
    (hheader : before = [] → ¬ r.IsWordless) : ¬ Readable (before ++ [r]) := by
  cases before with
  | nil => exact fun h => h.1.elim hrow (hheader rfl)
  | cons first rest => exact fun h => hrow (h.2 r (List.mem_append_right _ List.mem_cons_self))

theorem nonblank_append (as bs : List Record) :
    nonblank (as ++ bs) = nonblank as ++ nonblank bs := List.filter_append ..

/-- Where the records that are not blank are parted at one of them, all records are. -/
theorem exists_of_nonblank_eq_append {before after : List Record} {r : Record}
    (h : nonblank rs = before ++ r :: after) :
    ∃ earlier later, rs = earlier ++ r :: later ∧ nonblank earlier = before ∧
      nonblank [r] = [r] := by
  rcases List.filter_eq_append_iff.1 h with ⟨front, others, rfl, hfront, hothers⟩
  rcases List.filter_eq_cons_iff.1 hothers with ⟨passed, later, rfl, hpassed, hkeep, _⟩
  refine ⟨front ++ passed, later, (List.append_assoc ..).symm, ?_, ?_⟩
  · have hblanks : nonblank passed = [] := List.filter_eq_nil_iff.2 hpassed
    rw [nonblank_append, hblanks, List.append_nil]
    exact hfront
  · rw [nonblank, List.filter_cons, if_pos hkeep, List.filter_nil]

/-- Of records that are not readable, the first one with which they are not has its
    fault reported. -/
theorem exists_of_rowsOfRecords_eq_error {e : ToolError} (h : rowsOfRecords rs = .error e) :
    ∃ earlier r later, rs = earlier ++ r :: later ∧ Readable (nonblank earlier) ∧
      ¬ Readable (nonblank (earlier ++ [r])) ∧ rowOfRecord r = .error e := by
  -- It is enough to find the record among those that are not blank.
  suffices hkept : ∃ before r after, nonblank rs = before ++ r :: after ∧ Readable before ∧
      ¬ Readable (before ++ [r]) ∧ rowOfRecord r = .error e by
    rcases hkept with ⟨before, r, after, hkept, hbefore, hr, hfault⟩
    rcases exists_of_nonblank_eq_append hkept with ⟨earlier, later, hsplit, hearlier, hself⟩
    refine ⟨earlier, r, later, hsplit, hearlier ▸ hbefore, ?_, hfault⟩
    rwa [nonblank_append, hearlier, hself]
  rw [rowsOfRecords_eq] at h
  cases hkept : nonblank rs with
  | nil =>
      rw [hkept] at h
      exact absurd h (by simp only [reduceCtorEq, not_false_eq_true])
  | cons first rest =>
      rw [hkept] at h
      have hrows {before : List Record}
          (hbefore : ∀ r ∈ before, ∃ row, rowOfRecord r = .ok row) : ∀ r ∈ before, r.IsRow :=
        fun r hr => Record.isRow_iff_exists_writes.2
          ((hbefore r hr).imp fun _ => Record.rowOfRecord_eq_ok_iff.1)
      by_cases hwordless : first.IsWordless
      · simp only [Record.isHeader_iff.2 hwordless, if_true] at h
        rcases exists_of_mapM_eq_error h with ⟨before, r, after, rfl, hbefore, hfault⟩
        refine ⟨first :: before, r, after, rfl, ⟨.inr hwordless, hrows hbefore⟩, ?_, hfault⟩
        exact not_readable_concat (Record.not_isRow_of_error hfault) (nomatch ·)
      · simp only [mt Record.isHeader_iff.1 hwordless] at h
        rcases exists_of_mapM_eq_error h with ⟨before, r, after, hsplit, hbefore, hfault⟩
        refine ⟨before, r, after, hsplit, readable_of_forall (hrows hbefore), ?_, hfault⟩
        refine not_readable_concat (Record.not_isRow_of_error hfault) ?_
        rintro rfl
        rwa [(List.cons.inj hsplit).1] at hwordless

/-- There are rows to be read of readable records. -/
theorem exists_rowsOfRecords (h : Readable (nonblank rs)) :
    ∃ rows, rowsOfRecords rs = .ok rows := by
  have hrows : ∀ r ∈ (nonblank rs).filter (·.IsRow), ∃ row, rowOfRecord r = .ok row := by
    intro r hr
    have hrow : r.IsRow := of_decide_eq_true (List.mem_filter.1 hr).2
    exact (Record.isRow_iff_exists_writes.1 hrow).imp fun _ => Record.rowOfRecord_eq_ok_iff.2
  rcases exists_mapM_eq_ok hrows with ⟨rows, hread⟩
  exact ⟨rows, rowsOfRecords_eq_ok_iff.2 ⟨h, mapM_rowOfRecord_eq_ok_iff.1 hread⟩⟩

/-- A header is all that readable records have besides rows. -/
theorem Readable.exists_header (hblank : ∀ r ∈ rs, r.isBlank = false) (h : Readable rs) :
    ∃ header, rs = header ++ rs.filter (·.IsRow) ∧ header.length ≤ 1 ∧
      ∀ r ∈ header, r.IsWordless := by
  have hkept {rs : List Record} (h : ∀ r ∈ rs, r.IsRow) : rs.filter (·.IsRow) = rs :=
    List.filter_eq_self.2 fun r hr => decide_eq_true (h r hr)
  cases rs with
  | nil => exact ⟨[], rfl, Nat.zero_le 1, fun r hr => absurd hr List.not_mem_nil⟩
  | cons first rest =>
      rcases h with ⟨hrow | hwordless, hrest⟩
      · refine ⟨[], ?_, Nat.zero_le 1, fun r hr => absurd hr List.not_mem_nil⟩
        rw [hkept (List.forall_mem_cons.2 ⟨hrow, hrest⟩), List.nil_append]
      · have hfirst := Record.not_isRow_of_isWordless (hblank first List.mem_cons_self) hwordless
        refine ⟨[first], ?_, Nat.le_refl 1, List.forall_mem_singleton.2 hwordless⟩
        rw [List.filter_cons, if_neg (by rwa [decide_eq_true_eq]), hkept hrest,
          List.singleton_append]

end Contents

/-- Delimited text is read exactly when its records are readable, and no row of it is
    lost. In either delimited format, a text has rows when each of its records that
    are not blank has numbers only, apart from the first of them, which may have no
    number at all. What is read then are the numbers of all records that have nothing
    else, in their order, so that one record at most is left out, and that one is the
    header. Of every other text there are no rows to be had, but a report on what
    cannot be read. -/
theorem readRows_exact {format : Format} {delimiter : Char}
    (hformat : format.delimiter? = some delimiter) (text : String) :
    ((∃ rows, readRows text format = .ok rows) ↔ Readable (contents delimiter text)) ∧
    (∀ rows, readRows text format = .ok rows →
      List.Forall₂ Record.Writes ((contents delimiter text).filter (·.IsRow)) rows ∧
      ∃ header, contents delimiter text = header ++ (contents delimiter text).filter (·.IsRow) ∧
        header.length ≤ 1 ∧ ∀ r ∈ header, r.IsWordless) ∧
    (¬ Readable (contents delimiter text) →
      ∃ reason, readRows text format = .error (.unreadable reason)) := by
  rw [readRows_eq hformat]
  refine ⟨⟨fun ⟨rows, h⟩ => (rowsOfRecords_eq_ok_iff.1 h).1, exists_rowsOfRecords⟩,
    fun rows h => ?_, fun hother => ?_⟩
  · rcases rowsOfRecords_eq_ok_iff.1 h with ⟨hreadable, hrows⟩
    exact ⟨hrows, hreadable.exists_header fun r hr => not_isBlank_of_mem_nonblank hr⟩
  · cases hread : rowsOfRecords (records delimiter text.toList) with
    | ok rows => exact absurd (rowsOfRecords_eq_ok_iff.1 hread).1 hother
    | error e =>
        rcases exists_of_rowsOfRecords_eq_error hread with ⟨_, r, _, _, _, _, hfault⟩
        rcases Record.rowOfRecord_eq_error_iff.1 hfault with ⟨fault, _, rfl⟩
        exact ⟨_, rfl⟩

/-- Names behind blank records are a header, and a name beside a number is an error,
    as is a number that is too large behind a row. -/
theorem readRows_exact_sample :
    (∃ rows, readRows "\n , \np0,p1\r\n0, +1 \n" .csv = .ok rows) ∧
      (∃ reason, readRows "p0,1\n0,1\n" .csv = .error (.unreadable reason)) ∧
      ∃ reason, readRows "0\n18446744073709551616" .tsv = .error (.unreadable reason) := by
  have hcsv : Format.csv.delimiter? = some ',' := rfl
  have htsv : Format.tsv.delimiter? = some '\t' := rfl
  exact ⟨(readRows_exact hcsv _).1.2 (by decide +kernel),
    (readRows_exact hcsv _).2.2 (by decide +kernel),
    (readRows_exact htsv _).2.2 (by decide +kernel)⟩

end Covering
