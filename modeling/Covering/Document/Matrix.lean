import Covering.Document.Record
import Covering.Json.Printer
import Covering.Matrix

/-!
# Reports in JSON

The documents of scenario results and of the coverage matrix. Values that a
scenario has not are written as `null`; where they are read, they may be
missing as well.

## Main definitions

* `ScenarioResult.toJson`, `ScenarioResult.ofJson?`: The result of a scenario.
* `MatrixReport.toJson`, `MatrixReport.text`: The matrix.
-/

namespace Covering

/-- A double. -/
def doubleToJson (f : Float) : Json := .number (.double f)

namespace ScenarioResult

/-- The result of a scenario. -/
def toJson (result : ScenarioResult) : Json :=
  .object [
    ("name", .string result.name),
    ("value_counts", .array (result.valueCounts.map Json.ofInt)),
    ("order", Json.ofNat result.order),
    ("seed", Json.ofNat result.seed),
    ("status", .string result.verdict.name),
    ("rows", Json.ofOption Json.ofNat result.rows),
    ("lower_bound", Json.ofOption Json.ofNat result.lowerBound),
    ("fingerprint", Json.ofOption Json.string result.fingerprint),
    ("stats", Json.ofOption Statistics.toJson result.statistics),
    ("error_code", Json.ofOption Json.string result.errorCode),
    ("error", Json.ofOption Json.string result.error)]

/-- The fields of the document, in order of declaration. -/
def fieldNames : List String :=
  ["name", "value_counts", "order", "seed", "status", "rows", "lower_bound", "fingerprint", "stats",
   "error_code", "error"]

/-- Reads the result of a scenario. -/
def ofJson? (v : Json) : Option ScenarioResult := do
  let [name, counts, order, seed, verdict, rows, bound, fingerprint, statistics, code, error] ←
    v.fields? fieldNames | none
  pure {
    name := ← Json.required Json.text? name
    valueCounts := ← Json.required (Json.list? Json.int?) counts
    order := ← Json.required Json.nat? order
    seed := ← Json.required Json.nat? seed
    verdict := ← Json.required (Json.word? Verdict.words) verdict
    rows := ← Json.optional none (Json.nullable? Json.nat?) rows
    lowerBound := ← Json.optional none (Json.nullable? Json.nat?) bound
    fingerprint := ← Json.optional none (Json.nullable? Json.text?) fingerprint
    statistics := ← Json.optional none (Json.nullable? Statistics.ofJson?) statistics
    errorCode := ← Json.optional none (Json.nullable? Json.text?) code
    error := ← Json.optional none (Json.nullable? Json.text?) error }

end ScenarioResult

/-- One scenario of the matrix. -/
def ScenarioRow.toJson (row : ScenarioRow) : Json :=
  .object [
    ("trace_id", .string row.traceId),
    ("name", .string row.name),
    ("value_counts", .array (row.valueCounts.map Json.ofInt)),
    ("order", Json.ofNat row.order),
    ("seed", Json.ofNat row.seed),
    ("rows", Json.ofOption Json.ofNat row.rows),
    ("lower_bound", Json.ofOption Json.ofNat row.lowerBound),
    ("ratio", Json.ofOption doubleToJson row.ratio),
    ("fingerprint", Json.ofOption Json.string row.fingerprint),
    ("obligations_total", Json.ofOption Json.ofNat row.obligationsTotal),
    ("obligations_excluded", Json.ofOption Json.ofNat row.obligationsExcluded),
    ("fallback_rows", Json.ofOption Json.ofNat row.fallbackRows),
    ("status", .string row.verdict.name),
    ("passed", .bool row.passed),
    ("error_code", Json.ofOption Json.string row.errorCode),
    ("error", Json.ofOption Json.string row.error)]

/-- The totals of one order. -/
def OrderRow.toJson (row : OrderRow) : Json :=
  .object [
    ("order", Json.ofNat row.order),
    ("scenarios", Json.ofNat row.scenarios),
    ("passed", Json.ofNat row.passed),
    ("total_rows", Json.ofNat row.totalRows),
    ("total_lower_bound", Json.ofNat row.totalLowerBound),
    ("mean_ratio", doubleToJson row.meanRatio)]

/-- The totals of all scenarios. -/
def MatrixSummary.toJson (summary : MatrixSummary) : Json :=
  .object [
    ("total_scenarios", Json.ofNat summary.totalScenarios),
    ("passed", Json.ofNat summary.passed),
    ("failed", Json.ofNat summary.failed),
    ("errors", Json.ofNat summary.errors),
    ("pass_rate_percent", doubleToJson summary.passRatePercent)]

namespace MatrixReport

/-- The matrix. -/
def toJson (report : MatrixReport) : Json :=
  .object [
    ("schema_version", .string "v1"),
    ("campaign", .string report.campaign),
    ("config", report.settings.toJson),
    ("summary", report.summary.toJson),
    ("order_matrix", .array (report.orders.map OrderRow.toJson)),
    ("scenarios", .array (report.scenarios.map ScenarioRow.toJson))]

/-- The text of the matrix. -/
def text (report : MatrixReport) : String := Json.pretty report.toJson

end MatrixReport

end Covering
