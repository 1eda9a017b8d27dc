import Covering.Proofs.Delimited
import Covering.Proofs.Document.Array

/-!
# Rows are read back

An array written in one of the three formats that can be read has its rows read
back from the text, all of them and nothing else.

Delimited text is written in one of the many ways in which rows may be written:
numbers without zeros in front, nothing around them, and a line feed behind every
line. So the text is one that the grammar has (`recordsText_lines`), and what is
read does not depend on the way. The header has the names of the parameters. This
needs an array to have one: without any, the header would be blank, and the reader
would pass over it.

For JSON the document is read back, and what is read is taken for an array
before it would be taken for a list of rows. A bare list of rows is never taken
for an array, since an array has its order in the place of the second row.

## Theorems

* `recordText_intercalate`, `recordsText_lines`: What is written is in the grammar.
* `rowsOfRecords_renderRecords`: The rows of delimited text.
* `exists_render`, `render_ne_empty`: There is a text for every format.
* `readRows_render`: The rows of a written array are read back.
* `readRows_rowsToJson`: So are those of a bare list.
* `render_read_back`: Arrays and rows are read as what was written.
-/

namespace Covering

open Decimal Text

section Lines

variable {delimiter : Char} {cells : List (List Char)}

/-- Cells can be written as they are, with the delimiter between them. -/
theorem recordText_intercalate (hne : cells ≠ []) :
    RecordText delimiter cells ([delimiter].intercalate cells) := by
  have hself (cell : List Char) : CellText cell cell := by
    have h : CellText cell _ := .plain 0 0
    rwa [List.replicate_zero, List.nil_append, List.append_nil] at h
  induction cells with
  | nil => exact absurd rfl hne
  | cons cell others ih =>
      cases others with
      | nil =>
          rw [List.intercalate_singleton]
          exact .last (hself cell)
      | cons next others =>
          rw [List.intercalate_cons_cons, List.append_assoc, List.singleton_append]
          exact .cons (hself cell) (ih (List.cons_ne_nil _ _))

/-- Lines of them are lines of records. -/
theorem recordsText_recordLines (delimiter : Char) {lines : List (List (List Char))}
    (h : ∀ line ∈ lines, line ≠ [] ∧ ∀ cell ∈ line, cell ≠ []) :
    RecordsText delimiter lines (lines.flatMap (recordLine delimiter)) := by
  induction lines with
  | nil => exact .blankEnd fun _ hc => absurd hc List.not_mem_nil
  | cons line lines ih =>
      rw [List.forall_mem_cons] at h
      rcases List.exists_cons_of_ne_nil h.1.1 with ⟨cell, cells, hline⟩
      -- The line has a character, so it is written as it is.
      have hchar : ([delimiter].intercalate line).isEmpty = false := by
        have hcell := h.1.2 cell (by rw [hline]; exact List.mem_cons_self)
        rcases List.exists_cons_of_ne_nil hcell with ⟨c, cs, hcell⟩
        rw [hline, hcell, List.intercalate_cons_cons_left]
        rfl
      rw [List.flatMap_cons, recordLine, hchar]
      exact .record (recordText_intercalate h.1.1) .feed (ih h.2)

/-- The names of parameters are names. -/
theorem name_of_mem_parameterNames {width : Nat} {name : List Char}
    (h : name ∈ parameterNames width) : Name name := by
  rcases List.mem_map.1 h with ⟨p, _, rfl⟩
  refine ⟨'p', digits p, rfl, rfl, fun c hc => ?_⟩
  rw [Char.isAlphanum, isDigit_of_mem_digits hc, Bool.or_true]

/-- The lines of an array are a header of names and its rows in numerals. -/
theorem recordsText_lines {rows : List Row} {width : Nat} (hwidth : width ≠ 0)
    (hrows : ∀ row ∈ rows, row.length = width) :
    RecordsText delimiter (parameterNames width :: rows.map (List.map digits))
      (recordLine delimiter (parameterNames width) ++
        rows.flatMap fun row => recordLine delimiter (row.map digits)) := by
  have hlines : ∀ line ∈ parameterNames width :: rows.map (List.map digits),
      line ≠ [] ∧ ∀ cell ∈ line, cell ≠ [] := by
    rw [List.forall_mem_cons, List.forall_mem_map]
    refine ⟨⟨fun hnil => ?_, fun name hname => (name_of_mem_parameterNames hname).ne_nil⟩,
      fun row hrow => ⟨fun hnil => hwidth ?_, ?_⟩⟩
    · rw [parameterNames, List.map_eq_nil_iff, List.range_eq_nil] at hnil
      exact hwidth hnil
    · rw [← hrows row hrow, List.map_eq_nil_iff.1 hnil]
      rfl
    · rw [List.forall_mem_map]
      exact fun v _ => digits_ne_nil v
  have htext := recordsText_recordLines delimiter hlines
  rwa [List.flatMap_cons, List.flatMap_map] at htext

/-- Delimited text of an array has its rows. -/
theorem rowsOfRecords_renderRecords (hdelimiter : Delimits delimiter) {array : CoveringArray}
    (h : array.InWords) (hcounts : array.valueCounts ≠ []) {text : List Char}
    (htext : renderRecords delimiter array = .ok text) :
    rowsOfRecords (records delimiter text) = .ok array.rows := by
  have hwidth : array.valueCounts.length ≠ 0 := fun hzero =>
    hcounts (List.eq_nil_of_length_eq_zero hzero)
  have hnames : ∀ names ∈ some (parameterNames array.valueCounts.length),
      ∀ name ∈ names, Name name := by
    rintro names ⟨⟩ name hname
    exact name_of_mem_parameterNames hname
  have hnumerals : List.Forall₂ (List.Forall₂ Numeral) array.rows
      (array.rows.map (List.map digits)) := by
    rw [List.forall₂_map_right_iff, List.forall₂_same]
    intro row _
    rw [List.forall₂_map_right_iff, List.forall₂_same]
    exact fun v _ => ⟨0, rfl⟩
  rw [renderRecords] at htext
  split at htext
  · rename_i hall
    have hlength : ∀ row ∈ array.rows, row.length = array.valueCounts.length := fun row hrow =>
      beq_iff_eq.1 (List.all_eq_true.1 hall row hrow)
    -- Nothing is written in front.
    have hread := rowsOfRecords_of_spelling hdelimiter hnames hnumerals h.rows
      (recordsText_lines hwidth hlength) (.inl (rfl : ([] : List Char) = []))
    rw [← Except.ok.inj htext]
    rwa [List.nil_append] at hread
  · exact absurd htext (by simp only [reduceCtorEq, not_false_eq_true])

end Lines

/-- An array can be written in every format when its rows are as wide as it
    says. -/
theorem exists_render {array : CoveringArray}
    (hwidth : ∀ row ∈ array.rows, row.length = array.valueCounts.length) (format : Format) :
    ∃ text, render array format = .ok text := by
  have hall : (array.rows.all fun row => row.length == array.valueCounts.length) = true :=
    List.all_eq_true.2 fun row hrow => beq_iff_eq.2 (hwidth row hrow)
  cases format with
  | json => exact ⟨_, rfl⟩
  | table => exact ⟨_, rfl⟩
  | csv =>
      rw [render, renderRecords, if_pos hall]
      exact ⟨_, rfl⟩
  | tsv =>
      rw [render, renderRecords, if_pos hall]
      exact ⟨_, rfl⟩

/-- There is something to write in every format, if only a header. -/
theorem render_ne_empty {array : CoveringArray} {format : Format} {text : String}
    (h : render array format = .ok text) : text ≠ "" := by
  have hrecords {delimiter : Char}
      (h : (renderRecords delimiter array).map String.ofList = .ok text) : text ≠ "" := by
    rw [renderRecords] at h
    split at h
    · rw [← Except.ok.inj h]
      refine mt String.ofList_eq_empty_iff.1 (List.append_ne_nil_of_left_ne_nil ?_ _)
      exact List.append_ne_nil_of_right_ne_nil _ (List.cons_ne_nil _ _)
    · exact absurd h (by simp only [Except.map, reduceCtorEq, not_false_eq_true])
  cases format with
  | csv => exact hrecords h
  | tsv => exact hrecords h
  | json =>
      rw [← Except.ok.inj h]
      exact mt String.append_eq_empty_iff.1 fun hempty => absurd hempty.2 (by decide)
  | table =>
      rw [← Except.ok.inj h]
      refine mt String.ofList_eq_empty_iff.1 (List.append_ne_nil_of_left_ne_nil ?_ _)
      exact List.append_ne_nil_of_right_ne_nil _ (List.cons_ne_nil _ _)

section Documents

variable {array : CoveringArray} {rows : List Row}

theorem toList_render_json {text : String} (h : render array .json = .ok text) :
    text.toList = Json.write (.pretty 0) array.toJson ++ ['\n'] := by
  rw [← Except.ok.inj h, String.toList_append, Json.pretty, String.toList_ofList]
  rfl

/-- A line feed is a blank. -/
theorem isSpace_lineFeed : ∀ c ∈ ['\n'], Json.Scanner.isSpace c = true :=
  List.forall_mem_singleton.2 rfl

/-- The text of an array's document is read back as the array. -/
theorem ofText?_render (h : array.InWords) {text : String} (htext : render array .json = .ok text) :
    CoveringArray.ofText? text = some array := by
  rw [CoveringArray.ofText?, toList_render_json htext,
    Json.parse?_write (array.exact_toJson h) _ isSpace_lineFeed, Option.bind_some,
    array.ofJson?_toJson h]

/-- The text of a bare list of rows is read back as these rows. -/
theorem readRows_rowsToJson (h : ∀ row ∈ rows, ∀ v ∈ row, v < wordLimit) (layout : Json.Layout) :
    readRows (String.ofList (Json.write layout (rowsToJson rows))) .json = .ok rows := by
  have hnesting : (rowsToJson rows).nesting ≤ Json.nestingLimit :=
    Nat.le_trans (nesting_rowsToJson_le rows) (by decide)
  have hparse := Json.parseStrict?_write (exact_rowsToJson h) hnesting layout
    fun c (hc : c ∈ []) => absurd hc List.not_mem_nil
  rw [List.append_nil] at hparse
  rw [readRows, String.toList_ofList, hparse, Option.bind_some, rowsOfDocument?,
    CoveringArray.ofJson?_rowsToJson]
  simp only [rowsOfJson?_rowsToJson h]

/-- It is no document of an array. -/
theorem ofText?_rowsToJson (h : ∀ row ∈ rows, ∀ v ∈ row, v < wordLimit) (layout : Json.Layout) :
    CoveringArray.ofText? (String.ofList (Json.write layout (rowsToJson rows))) = none := by
  have hparse := Json.parse?_write (exact_rowsToJson h) layout
    fun c (hc : c ∈ []) => absurd hc List.not_mem_nil
  rw [List.append_nil] at hparse
  rw [CoveringArray.ofText?, String.toList_ofList, hparse, Option.bind_some,
    CoveringArray.ofJson?_rowsToJson]

/-- The rows of a written array are read back, in every format but the table. -/
theorem readRows_render (h : array.InWords) (hcounts : array.valueCounts ≠ []) {format : Format}
    (hformat : format ≠ .table) {text : String} (htext : render array format = .ok text) :
    readRows text format = .ok array.rows := by
  cases format with
  | table => exact absurd rfl hformat
  | json =>
      have hnesting : array.toJson.nesting ≤ Json.nestingLimit :=
        Nat.le_trans array.nesting_toJson_le (by decide)
      rw [readRows, toList_render_json htext,
        Json.parseStrict?_write (array.exact_toJson h) hnesting _ isSpace_lineFeed,
        Option.bind_some, rowsOfDocument?, array.ofJson?_toJson h]
  | csv =>
      rcases map_eq_ok_iff.1 htext with ⟨chars, hchars, rfl⟩
      have hdelimiter := Format.delimits (show Format.csv.delimiter? = some ',' from rfl)
      rw [readRows, String.toList_ofList]
      exact rowsOfRecords_renderRecords hdelimiter h hcounts hchars
  | tsv =>
      rcases map_eq_ok_iff.1 htext with ⟨chars, hchars, rfl⟩
      have hdelimiter := Format.delimits (show Format.tsv.delimiter? = some '\t' from rfl)
      rw [readRows, String.toList_ofList]
      exact rowsOfRecords_renderRecords hdelimiter h hcounts hchars

end Documents

section Sample

/-- An array with a submodel that is not in order, which a document may have. -/
def sampleDocument : CoveringArray where
  valueCounts := [2, 11]
  order := 1
  seed := 18446744073709551615
  submodels := [⟨[1, 0], 2⟩]
  rows := [[0, 10], [1, 3]]

/-- Rows that could pass for the counts and more of an array. -/
def sampleRows : List Row := [[2, 2], [2], [0], [], [0, 1]]

end Sample

/-- What is written is read as what it was, for arrays and rows whose numbers are
    words. An array of at least one parameter, with rows of its width, can be
    written in every format, and its rows are read back from every format but the
    table. The document of any array is read back as the array, whatever its rows
    are like. A bare list of rows is read back as these rows, and it is no document
    of an array. -/
theorem render_read_back {array : CoveringArray} {rows : List Row} (h : array.InWords)
    (hrows : ∀ row ∈ rows, ∀ v ∈ row, v < wordLimit) :
    (array.valueCounts ≠ [] → (∀ row ∈ array.rows, row.length = array.valueCounts.length) →
      ∀ format ≠ .table, ∃ text, render array format = .ok text ∧
        readRows text format = .ok array.rows) ∧
    (∃ text, render array .json = .ok text ∧ CoveringArray.ofText? text = some array) ∧
    ∀ layout,
      readRows (String.ofList (Json.write layout (rowsToJson rows))) .json = .ok rows ∧
      CoveringArray.ofText? (String.ofList (Json.write layout (rowsToJson rows))) = none := by
  refine ⟨fun hcounts hwidth format hformat => ?_, ⟨_, rfl, ofText?_render h rfl⟩,
    fun layout => ⟨readRows_rowsToJson hrows layout, ofText?_rowsToJson hrows layout⟩⟩
  rcases exists_render hwidth format with ⟨text, htext⟩
  exact ⟨text, htext, readRows_render h hcounts hformat htext⟩

theorem render_read_back_sample :
    (∃ text, render sampleDocument .csv = .ok text ∧ readRows text .csv = .ok [[0, 10], [1, 3]]) ∧
      (∃ text, render sampleDocument .json = .ok text ∧
        CoveringArray.ofText? text = some sampleDocument) ∧
      readRows (Json.compact (rowsToJson sampleRows)) .json = .ok sampleRows := by
  have hwords : sampleDocument.InWords :=
    ⟨by decide, by decide, by decide, by decide, by decide⟩
  rcases @render_read_back sampleDocument sampleRows hwords (by decide) with
    ⟨hread, hdocument, hbare⟩
  exact ⟨hread (by decide) (by decide) .csv (by decide), hdocument, (hbare .compact).1⟩

end Covering
