import Covering.Arithmetic
import Covering.Json.Parser

/-!
# Reading records from JSON

Turning values into data of known types. A record is an object that has the
record's fields in any order, or an array of their values in the order of
declaration. Members that the record does not know are skipped; a field given
twice is refused, and so are values beyond the last field. Fields at the end of
an array may be missing, and any field of an object, if the record can do
without them.

## Main definitions

* `nat?`, `int?`, `text?`, `word?`, `list?`, `nullable?`, `pair?`: Values of
  simple types.
* `fields?`: The values of a record's fields.
* `required`, `optional`: A field that must, or need not, be there.

## Theorems

* `list?_array_map`: A list is read back where its elements are.
-/

namespace Covering

namespace Json

/-- A natural number below `limit`. -/
def natBelow? (limit : Nat) : Json → Option Nat
  | .number (.natural n) => if n < limit then some n else none
  | _ => none

/-- A natural number of sixty-four bits. -/
def nat? : Json → Option Nat := natBelow? wordLimit

/-- An integer of sixty-four bits with sign. -/
def int? : Json → Option Int
  | .number (.natural n) => if n < signedLimit then some n else none
  | .number (.negative n) => if n ≤ signedLimit then some (-(n : Int)) else none
  | _ => none

/-- A text. -/
def text? : Json → Option String
  | .string s => some s
  | _ => none

/-- A word out of a list of them. It may also be the only name of an object,
    with `null` as its value. -/
def word? {α : Type} (words : List (String × α)) : Json → Option α
  | .string s => words.lookup s
  | .object [(s, .null)] => words.lookup s
  | _ => none

/-- The elements of an array. -/
def elements? : Json → Option (List Json)
  | .array vs => some vs
  | _ => none

/-- An array whose elements are all read by `f`. -/
def list? {α : Type} (f : Json → Option α) (v : Json) : Option (List α) := do
  (← v.elements?).mapM f

/-- A list that was written element by element is read back, if `f` reads each
    of them back. -/
theorem list?_array_map {α : Type} {f : Json → Option α} {g : α → Json} {xs : List α}
    (h : ∀ x ∈ xs, f (g x) = some x) : list? f (.array (xs.map g)) = some xs := by
  change (xs.map g).mapM f = some xs
  induction xs with
  | nil => rfl
  | cons x xs ih =>
    rw [List.map_cons, List.mapM_cons, h x List.mem_cons_self,
      ih fun y hy => h y (List.mem_cons_of_mem x hy)]
    rfl

/-- A value read by `f`, or `null` for none. -/
def nullable? {α : Type} (f : Json → Option α) : Json → Option (Option α)
  | .null => some none
  | v => (f v).map some

/-- An array of exactly two values. -/
def pair? {α β : Type} (f : Json → Option α) (g : Json → Option β) : Json → Option (α × β)
  | .array [v, w] => do pure (← f v, ← g w)
  | _ => none

/-- The values of the fields of a record, in order of declaration, where they
    are given. -/
def fields? (names : List String) : Json → Option (List (Option Json))
  | .array vs =>
    if vs.length ≤ names.length then
      some (vs.map some ++ List.replicate (names.length - vs.length) none)
    else none
  | .object members =>
    if names.all fun name => members.countP (·.1 == name) ≤ 1 then
      some (names.map fun name => (members.find? (·.1 == name)).map (·.2))
    else none
  | _ => none

/-- The value of a field that must be there. -/
def required {α : Type} (f : Json → Option α) (field : Option Json) : Option α :=
  field.bind f

/-- The value of a field that need not be there. -/
def optional {α : Type} (default : α) (f : Json → Option α) : Option Json → Option α
  | none => some default
  | some v => f v

end Json

end Covering
