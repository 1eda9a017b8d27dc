import Covering.Document.Record

/-!
# Covering arrays in JSON

The document of an array holds the request it answers and its rows. Reading a
document checks types only; the verdict on what it says is the business of
`CoveringArray.check`.

## Main definitions

* `CoveringArray.toJson`, `CoveringArray.ofJson?`: Writing and reading.
* `CoveringArray.ofText?`: Reading the text of a document.
-/

namespace Covering

namespace CoveringArray

/-- The document of an array. -/
def toJson (array : CoveringArray) : Json :=
  .object ([
      ("value_counts", Json.ofNats array.valueCounts),
      ("order", Json.ofNat array.order),
      ("seed", Json.ofNat array.seed)] ++
    submodelsMember array.submodels ++
    [("rows", rowsToJson array.rows)])

/-- The fields of the document, in order of declaration. -/
def fieldNames : List String := ["value_counts", "order", "seed", "submodels", "rows"]

/-- Reads the document of an array. -/
def ofJson? (v : Json) : Option CoveringArray := do
  let [counts, order, seed, submodels, rows] ← v.fields? fieldNames | none
  pure { valueCounts := ← Json.required (Json.list? Json.nat?) counts
         order := ← Json.required Json.nat? order
         seed := ← Json.required Json.nat? seed
         submodels := ← Json.optional [] (Json.list? Submodel.ofJson?) submodels
         rows := ← Json.required rowsOfJson? rows }

/-- Reads the text of an array's document. -/
def ofText? (text : String) : Option CoveringArray := (Json.parse? text.toList).bind ofJson?

end CoveringArray

end Covering
