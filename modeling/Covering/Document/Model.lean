import Covering.Arithmetic
import Covering.Document.Record
import Covering.Json.Printer
import Covering.Model

/-!
# Models in JSON

The document of a model. Only its name and value counts have to be there; order
two, seed zero and no constraints are understood. Weights, submodels and an
expected error are written only where there are any.

## Main definitions

* `Model.toJson`, `Model.text`: Writing.
* `Model.ofJson?`, `Model.ofText?`: Reading.
-/

namespace Covering

namespace Model

/-- The document of a model. -/
def toJson (model : Model) : Json :=
  .object ([
      ("name", .string model.name),
      ("value_counts", .array (model.valueCounts.map Json.ofInt)),
      ("order", Json.ofNat model.order),
      ("seed", Json.ofNat model.seed),
      ("exclusions", .array (model.exclusions.map bindingsToJson)),
      ("seed_rows", .array (model.seedRows.map Partial.toJson))] ++
    Json.optionalMember "weights" rowsToJson model.weights ++
    submodelsMember model.submodels ++
    Json.optionalMember "expect_error" Json.string model.expectError)

/-- The text of a model's document. -/
def text (model : Model) : String := Json.pretty model.toJson

/-- The fields of the document, in order of declaration. -/
def fieldNames : List String :=
  ["name", "value_counts", "order", "seed", "exclusions", "seed_rows", "weights", "submodels",
   "expect_error"]

/-- Weights are numbers of thirty-two bits. -/
def weightsOfJson? (v : Json) : Option (List (List Nat)) :=
  v.list? (Json.list? (Json.natBelow? halfLimit))

/-- Reads the document of a model. -/
def ofJson? (v : Json) : Option Model := do
  let [name, counts, order, seed, exclusions, seedRows, weights, submodels, expectError] ←
    v.fields? fieldNames | none
  pure {
    name := ← Json.required Json.text? name
    valueCounts := ← Json.required (Json.list? Json.int?) counts
    order := ← Json.optional 2 Json.nat? order
    seed := ← Json.optional 0 Json.nat? seed
    exclusions := ← Json.optional [] (Json.list? (Json.list? Binding.ofJson?)) exclusions
    seedRows := ← Json.optional [] (Json.list? (Json.list? (Json.nullable? Json.nat?))) seedRows
    weights := ← Json.optional none (Json.nullable? weightsOfJson?) weights
    submodels := ← Json.optional [] (Json.list? Submodel.ofJson?) submodels
    expectError := ← Json.optional none (Json.nullable? Json.text?) expectError }

/-- Reads the text of a model's document. -/
def ofText? (text : String) : Option Model := (Json.parse? text.toList).bind ofJson?

end Model

end Covering
