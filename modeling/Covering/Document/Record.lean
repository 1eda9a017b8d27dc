import Covering.Coverage.Report
import Covering.Generator
import Covering.Json.Decode

/-!
# Records in JSON

The JSON forms of the values that make up requests and reports. Names of
members and their order are fixed; members that only some values have are left
out where there is nothing to say.

## Main definitions

* `Binding.toJson`, `Space.toJson`, `Submodel.toJson`, `Settings.toJson`,
  `Statistics.toJson`, `Report.toJson`: Writing.
* `Binding.ofJson?`, `Obligation.ofJson?`, `Submodel.ofJson?`,
  `Settings.ofJson?`, `Statistics.ofJson?`: Reading.
-/

namespace Covering

namespace Binding

/-- A binding is written as the pair of its position and value. -/
def toJson (b : Binding) : Json := Json.ofNats [b.position, b.value]

/-- Reads a pair of position and value. -/
def ofJson? (v : Json) : Option Binding :=
  (v.pair? Json.nat? Json.nat?).map fun pair => ⟨pair.1, pair.2⟩

end Binding

/-- A list of bindings. -/
def bindingsToJson (bindings : List Binding) : Json := .array (bindings.map Binding.toJson)

/-- Reads an obligation from its positions and values, without checking that
    they make sense. -/
def Obligation.ofJson? (v : Json) : Option Obligation := do
  let [positions, values] ← v.fields? ["positions", "values"] | none
  pure { positions := ← Json.required (Json.list? Json.nat?) positions
         values := ← Json.required (Json.list? Json.nat?) values }

/-- A partial row, with `null` where it is free. -/
def Partial.toJson (work : Partial) : Json := .array (work.map (Json.ofOption Json.ofNat))

/-- A list of rows. -/
def rowsToJson (rows : List Row) : Json := .array (rows.map Json.ofNats)

/-- Reads a list of rows. -/
def rowsOfJson? (v : Json) : Option (List Row) := v.list? (Json.list? Json.nat?)

/-- A space: its counts, and its weights if it has them. -/
def Space.toJson (space : Space) : Json :=
  .object (("counts", Json.ofNats space.counts) ::
    Json.optionalMember "weights" rowsToJson space.weights)

namespace Submodel

/-- A submodel: its positions and its order. -/
def toJson (submodel : Submodel) : Json :=
  .object [("positions", Json.ofNats submodel.positions), ("order", Json.ofNat submodel.order)]

/-- Reads a submodel, without checking that it makes sense. -/
def ofJson? (v : Json) : Option Submodel := do
  let [positions, order] ← v.fields? ["positions", "order"] | none
  pure { positions := ← Json.required (Json.list? Json.nat?) positions
         order := ← Json.required Json.nat? order }

end Submodel

/-- A list of submodels. -/
def submodelsToJson (submodels : List Submodel) : Json := .array (submodels.map Submodel.toJson)

/-- A member for submodels, left out if there are none. -/
def submodelsMember (submodels : List Submodel) : List (String × Json) :=
  if submodels.isEmpty then [] else [("submodels", submodelsToJson submodels)]

namespace Settings

/-- The settings of a run. -/
def toJson (settings : Settings) : Json :=
  .object [
    ("candidate_pool", Json.ofNat settings.candidatePool),
    ("refine_passes", Json.ofNat settings.refinePasses),
    ("refine", .string settings.refinement.name),
    ("max_obligations", Json.ofNat settings.maxObligations)]

/-- The fields of the settings, in order of declaration. -/
def fieldNames : List String := ["candidate_pool", "refine_passes", "refine", "max_obligations"]

/-- Reads the settings of a run, all of which have to be there. -/
def ofJson? (v : Json) : Option Settings := do
  let [pool, passes, refinement, limit] ← v.fields? fieldNames | none
  pure { candidatePool := ← Json.required Json.nat? pool
         refinePasses := ← Json.required Json.nat? passes
         refinement := ← Json.required (Json.word? Refinement.words) refinement
         maxObligations := ← Json.required Json.nat? limit }

end Settings

namespace Statistics

/-- What a run reports about itself. -/
def toJson (s : Statistics) : Json :=
  .object [
    ("obligations_total", Json.ofNat s.obligationsTotal),
    ("obligations_excluded", Json.ofNat s.obligationsExcluded),
    ("obligations_infeasible", Json.ofNat s.obligationsInfeasible),
    ("rows", Json.ofNat s.rows),
    ("seeded_rows", Json.ofNat s.seededRows),
    ("fallback_rows", Json.ofNat s.fallbackRows),
    ("candidates_scored", Json.ofNat s.candidatesScored),
    ("refine_moves", Json.ofNat s.refineMoves)]

/-- The fields of the report, in order of declaration. -/
def fieldNames : List String :=
  ["obligations_total", "obligations_excluded", "obligations_infeasible", "rows", "seeded_rows",
   "fallback_rows", "candidates_scored", "refine_moves"]

/-- Reads what a run reports about itself. -/
def ofJson? (v : Json) : Option Statistics := do
  let [total, excluded, infeasible, rows, seeded, fallback, scored, moves] ←
    v.fields? fieldNames | none
  pure {
    obligationsTotal := ← Json.required Json.nat? total
    obligationsExcluded := ← Json.required Json.nat? excluded
    obligationsInfeasible := ← Json.required Json.nat? infeasible
    rows := ← Json.required Json.nat? rows
    seededRows := ← Json.required Json.nat? seeded
    fallbackRows := ← Json.required Json.nat? fallback
    candidatesScored := ← Json.required Json.nat? scored
    refineMoves := ← Json.required Json.nat? moves }

end Statistics

/-- The totals of a check. -/
def Report.toJson (r : Report) : Json :=
  .object [
    ("rows", Json.ofNat r.rows),
    ("order", Json.ofNat r.order),
    ("obligations_total", Json.ofNat r.obligationsTotal),
    ("obligations_covered", Json.ofNat r.obligationsCovered),
    ("obligations_excluded", Json.ofNat r.obligationsExcluded)]

end Covering
