import Covering.SeedRow
import Covering.Text.Split
import Covering.Text.Integer
import Covering.Text.Blank
import Covering.ToolError

/-!
# Values on the command line

How counts, seeds, exclusions, seed rows and submodels are written as single
arguments.

## Main definitions

* `readCounts`: `1,3,3,4`.
* `readSeed`: A number in base ten, or in base sixteen after `0x`.
* `readExclusion`: `0=1,2=0`.
* `readSeedRow`: `1,*,2,*`.
* `readSubmodel`: `0,2,4@3`.
-/

namespace Covering

open Text

/-- Value counts with commas between them. They may be negative: it is for the
    space to refuse them. -/
def readCounts (raw : String) : Except ToolError (List Int) :=
  (fields ',' raw.toList).mapM fun cell =>
    let cell := trim cell
    (readSignedWord cell).mapError fun fault =>
      .unreadable ("value count '" ++ String.ofList cell ++ "': " ++ fault.message)

/-- The digits of a seed in base sixteen, if it is marked so. -/
def hexDigits? : List Char → Option (List Char)
  | '0' :: 'x' :: cs => some cs
  | '0' :: 'X' :: cs => some cs
  | _ => none

/-- A seed. Underscores may group its digits. -/
def readSeed (raw : String) : Except ToolError Nat :=
  let text := trim raw.toList
  let read := match hexDigits? text with
    | some cs => readNatural 16 (wordLimit - 1) (cs.filter (· ≠ '_'))
    | none => readWord (text.filter (· ≠ '_'))
  read.mapError fun fault => .unreadable ("seed '" ++ raw ++ "': " ++ fault.message)

/-- A position, a value or an order within a longer argument. -/
def readIndex (cell : List Char) (whole : String) : Except ToolError Nat :=
  (readWord (trim cell)).mapError fun fault =>
    .unreadable ("'" ++ whole ++ "': " ++ fault.message)

/-- A binding, such as `2=0`. -/
def readBinding (cell : List Char) : Except ToolError Binding :=
  let term := trim cell
  let text := String.ofList term
  match cut? '=' term with
  | none => .error (.unreadable ("exclusion term '" ++ text ++ "' is not pos=value"))
  | some (position, value) => do
    let position ← readIndex position text
    let value ← readIndex value text
    pure ⟨position, value⟩

/-- Bindings with commas between them. -/
def readExclusion (raw : String) : Except ToolError (List Binding) :=
  (fields ',' raw.toList).mapM readBinding

/-- A partial row with commas between its cells. A star, a dash and an empty
    cell leave their position free. -/
def readSeedRow (raw : String) : Except ToolError SeedRow :=
  (fields ',' raw.toList).mapM fun cell =>
    match trim cell with
    | [] => .ok none
    | ['*'] => .ok none
    | ['-'] => .ok none
    | cell => (readIndex cell raw).map some

/-- Positions with commas between them, and their order after `@`. -/
def readSubmodel (raw : String) : Except ToolError (List Nat × Nat) :=
  match cut? '@' raw.toList with
  | none => .error (.unreadable ("submodel '" ++ raw ++ "' is not positions@order"))
  | some (positions, order) => do
    let positions ← (fields ',' positions).mapM fun cell => readIndex cell raw
    let order ← readIndex order raw
    pure (positions, order)

end Covering
