import Covering.Document.Array
import Covering.Json.Printer
import Covering.Rows.Format
import Covering.Rows.Record
import Covering.ToolError

/-!
# Writing and reading rows

An array written in one of the four formats, and rows read back from three of
them. Records have a header of parameter names `p0`, `p1` and so on; what is
read back may have any header or none. Only the first record that is not blank
can be a header, and only when no cell of it is a number, so that no row is
taken for one.

## Main definitions

* `render`: The text of an array.
* `readRows`: The rows of a text.
-/

namespace Covering

open Decimal

/-- The names of the parameters. -/
def parameterNames (width : Nat) : List (List Char) :=
  (List.range width).map fun p => 'p' :: digits p

/-- A record on a line of its own. A record without any character is written as
    a pair of quotes, since an empty line is no record. -/
def recordLine (delimiter : Char) (cells : List (List Char)) : List Char :=
  let line := [delimiter].intercalate cells
  (if line.isEmpty then ['"', '"'] else line) ++ ['\n']

/-- A header and the rows as records, which must all be as wide as the
    header. -/
def renderRecords (delimiter : Char) (array : CoveringArray) : Except ToolError (List Char) :=
  if array.rows.all fun row => row.length == array.valueCounts.length then
    .ok (recordLine delimiter (parameterNames array.valueCounts.length) ++
      array.rows.flatMap fun row => recordLine delimiter (row.map digits))
  else .error .raggedRows

/-- The lines of the table: the header, then the rows with their numbers. -/
def tableLines (array : CoveringArray) : List (List (List Char)) :=
  (['#'] :: parameterNames array.valueCounts.length) ::
    array.rows.zipIdx.map fun entry => digits (entry.2 + 1) :: entry.1.map digits

/-- The width of each column of a table of `columns` columns. -/
def columnWidths (columns : Nat) (lines : List (List (List Char))) : List Nat :=
  (List.range columns).map fun column =>
    (lines.map fun line => (line.getD column []).length).foldl max 0

/-- The table: columns aligned to the right, two blanks apart. Cells outside
    the columns of the header are left out. -/
def renderTable (array : CoveringArray) : List Char :=
  let lines := tableLines array
  let widths := columnWidths (array.valueCounts.length + 1) lines
  lines.flatMap fun line =>
    [' ', ' '].intercalate (List.zipWith padLeft widths line) ++ ['\n']

/-- The text of an array in a format. -/
def render (array : CoveringArray) (format : Format) : Except ToolError String :=
  match format with
  | .json => .ok (Json.pretty array.toJson ++ "\n")
  | .csv => (renderRecords ',' array).map String.ofList
  | .tsv => (renderRecords '\t' array).map String.ofList
  | .table => .ok (String.ofList (renderTable array))

/-- The row of a record, or what is wrong with it and on which line. -/
def rowOfRecord (r : Record) : Except ToolError Row :=
  r.row.mapError fun fault => .unreadable s!"line {r.line}: {fault.message}"

/-- The rows of records: of those that are not blank, all but a header. -/
def rowsOfRecords (rs : List Record) : Except ToolError (List Row) :=
  match rs.filter (!·.isBlank) with
  | [] => .ok []
  | first :: rest => (if first.isHeader then rest else first :: rest).mapM rowOfRecord

/-- The rows of a document: those of an array, or a bare list of rows. -/
def rowsOfDocument? (v : Json) : Option (List Row) :=
  match CoveringArray.ofJson? v with
  | some array => some array.rows
  | none => rowsOfJson? v

/-- The rows of a text in a format. Whether they fit a space is for the check of
    coverage to say. -/
def readRows (text : String) (format : Format) : Except ToolError (List Row) :=
  match format with
  | .json =>
    match (Json.parseStrict? text.toList).bind rowsOfDocument? with
    | some rows => .ok rows
    | none => .error .document
  | .csv => rowsOfRecords (records ',' text.toList)
  | .tsv => rowsOfRecords (records '\t' text.toList)
  | .table => .error (.unreadable s!"{format.name} output cannot be read back")

end Covering
