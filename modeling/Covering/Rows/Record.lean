import Covering.Text.Blank
import Covering.Text.Integer

/-!
# Delimited records

Text as records of cells. A delimiter ends a cell, and a line feed or a
carriage return ends a record; line ends before a record belong to no record.
A cell that starts with a quote goes on to the next quote, delimiters and line
ends included; two quotes in it stand for one, and whatever follows the closing
quote is appended. A quote anywhere else is an ordinary character. Cells are
trimmed when all this is done.

A record remembers the line at which the reader stood when it set out for it:
directly after the character that ended the record before. Line ends that are
passed over on the way are not counted.

## Main definitions

* `Record`: Cells and a line number.
* `Reader`: The state between two characters.
* `Reader.step`, `records`: Reading one character, and a whole text.
-/

namespace Covering

open Text

/-- The cells of a record, and the line it is reported at. -/
structure Record where
  line : Nat
  cells : List (List Char)
deriving DecidableEq, Repr

/-- Where in a record the reader is. -/
inductive Place where
  /-- Before a record. -/
  | between
  /-- Before the first character of a cell. -/
  | cellStart
  /-- In a cell that did not start with a quote, or behind the quotes of one
      that did. -/
  | plain
  /-- Between the quotes of a cell. -/
  | quoted
  /-- Just behind a quote between quotes. -/
  | quote
deriving DecidableEq, Repr

/-- The state of the reader. The cell and the cells before it come last
    first. -/
structure Reader where
  place : Place
  cell : List Char
  cells : List (List Char)
  /-- The line of the record. -/
  line : Nat
  /-- The line of the next character. -/
  here : Nat
deriving DecidableEq, Repr

namespace Reader

/-- The state before the first record. -/
def start : Reader := ⟨.between, [], [], 1, 1⟩

/-- Ends the cell. -/
def endCell (r : Reader) : Reader :=
  { r with place := .cellStart, cell := [], cells := trim r.cell.reverse :: r.cells }

/-- The record that ends with the cell. -/
def record (r : Reader) : Record := ⟨r.line, r.endCell.cells.reverse⟩

/-- Ends the record, with the next one to be reported at `line`. -/
def endRecord (r : Reader) (line : Nat) : Reader × List Record :=
  (⟨.between, [], [], line, line⟩, [r.record])

/-- Adds a character to the cell. -/
def add (r : Reader) (place : Place) (c : Char) : Reader :=
  { r with place, cell := c :: r.cell }

/-- Whether the character ends a record. -/
def isEnd (c : Char) : Bool := c = '\n' || c = '\r'

/-- Reads a character that may end a cell or a record; any other joins the
    cell. -/
def stepPlain (delimiter : Char) (r : Reader) (c : Char) (line : Nat) : Reader × List Record :=
  if c = delimiter then ({ r.endCell with here := line }, [])
  else if isEnd c then r.endRecord line
  else ({ r.add .plain c with here := line }, [])

/-- Reads a character: the next state, and the record that is complete now. -/
def step (delimiter : Char) (r : Reader) (c : Char) : Reader × List Record :=
  let line := if c = '\n' then r.here + 1 else r.here
  match r.place with
  | .between =>
    if isEnd c then ({ r with here := line }, [])
    else if c = '"' then ({ r with place := .quoted, here := line }, [])
    else stepPlain delimiter r c line
  | .cellStart =>
    if c = '"' then ({ r with place := .quoted, here := line }, [])
    else stepPlain delimiter r c line
  | .plain => stepPlain delimiter r c line
  | .quoted =>
    if c = '"' then ({ r with place := .quote, here := line }, [])
    else ({ r.add .quoted c with here := line }, [])
  | .quote =>
    if c = '"' then ({ r.add .quoted c with here := line }, [])
    else stepPlain delimiter r c line

/-- The record that ends where the text ends, if one has begun. -/
def finish (r : Reader) : List Record :=
  if r.place = .between then [] else [r.record]

/-- The records of the text that follows. -/
def run (delimiter : Char) (r : Reader) : List Char → List Record
  | [] => r.finish
  | c :: cs =>
    let (r, ended) := r.step delimiter c
    ended ++ run delimiter r cs

end Reader

/-- The text without a byte order mark at its start. -/
def dropMark : List Char → List Char
  | '\uFEFF' :: cs => cs
  | cs => cs

/-- The records of a text. -/
def records (delimiter : Char) (text : List Char) : List Record :=
  Reader.start.run delimiter (dropMark text)

namespace Record

/-- Whether all cells are empty. -/
def isBlank (r : Record) : Bool := r.cells.all List.isEmpty

/-- Whether no cell is a number. -/
def isHeader (r : Record) : Bool := r.cells.all fun cell => (readWord cell).toOption.isNone

/-- The numbers in the cells, or the fault of the first cell that is none. -/
def row (r : Record) : Except IntegerFault (List Nat) := r.cells.mapM readWord

end Record

end Covering
