import Covering.Path
import Covering.Text.Blank

/-!
# Formats of rows

The four forms in which rows are written, three of which can be read back.

## Main definitions

* `Format`: The forms.
* `Format.ofText?`, `Format.ofPath?`: The form that a name or a path asks for.
* `Format.delimiter?`: The character between the cells of a record.
-/

namespace Covering

/-- A form of rows. -/
inductive Format where
  /-- The document of the array. -/
  | json
  /-- Records with commas between their cells. -/
  | csv
  /-- Records with tabs between their cells. -/
  | tsv
  /-- Aligned columns, for reading by eye only. -/
  | table
deriving DecidableEq, Repr

namespace Format

/-- The name of the form. -/
def name : Format → String
  | json => "json"
  | csv => "csv"
  | tsv => "tsv"
  | table => "table"

/-- The form of a name, in any case and with blank ends forgiven. -/
def ofText? (text : String) : Option Format :=
  match String.ofList ((Text.trim text.toList).map Char.toLower) with
  | "json" => some json
  | "csv" => some csv
  | "tsv" => some tsv
  | "tab" => some tsv
  | "table" => some table
  | "text" => some table
  | _ => none

/-- The form that the extension of a path names. -/
def ofPath? (path : String) : Option Format := (Path.extension? path).bind ofText?

/-- The character between cells, for the forms that have records. -/
def delimiter? : Format → Option Char
  | csv => some ','
  | tsv => some '\t'
  | _ => none

end Format

end Covering
