/-!
# Cutting text at separators

Fields between single-character separators, the cut at a first separator, and
lines. A text with `n` separators always has `n + 1` fields, so an empty text
has one empty field.

## Main definitions

* `fields`: The fields of a text between separators.
* `cut?`: What stands before and after the first separator.
* `lines`: The lines of a text, without their terminators.
* `doubleColons`: How many times `::` occurs, without overlaps.

## Theorems

* `fields_ne_nil`: There is always a first field.
-/

namespace Covering

namespace Text

/-- The fields of a text, separated by the character `sep`. -/
def fields (sep : Char) : List Char → List (List Char)
  | [] => [[]]
  | c :: cs =>
    if c = sep then [] :: fields sep cs
    else match fields sep cs with
      | [] => [[c]]
      | field :: rest => (c :: field) :: rest

theorem fields_ne_nil (sep : Char) (cs : List Char) : fields sep cs ≠ [] := by
  cases cs with
  | nil => simp [fields]
  | cons c cs =>
    simp only [fields]
    split
    · simp
    · split <;> simp

/-- What stands before and after the first `sep`, if there is one. -/
def cut? (sep : Char) : List Char → Option (List Char × List Char)
  | [] => none
  | c :: cs =>
    if c = sep then some ([], cs)
    else (cut? sep cs).map fun halves => (c :: halves.1, halves.2)

/-- Drops one carriage return from the end of a terminated line. -/
def dropReturn (line : List Char) : List Char :=
  if line.getLast? = some '\r' then line.dropLast else line

/-- The lines of a text. A line feed ends a line, together with a carriage
    return before it; a last line without terminator counts when it is not
    empty, and keeps a carriage return. -/
def lines (text : List Char) : List (List Char) :=
  let parts := fields '\n' text
  let unfinished := (parts.getLast?).getD []
  parts.dropLast.map dropReturn ++ (if unfinished.isEmpty then [] else [unfinished])

/-- How many times `::` occurs, reading from the left without overlaps. -/
def doubleColons : List Char → Nat
  | ':' :: ':' :: cs => doubleColons cs + 1
  | _ :: cs => doubleColons cs
  | [] => 0

end Text

end Covering
