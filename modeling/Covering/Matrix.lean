import Covering.Arithmetic
import Covering.Scenario

/-!
# The coverage matrix

A report over many scenarios: one row for each, sorted by name, order, seed and
counts, with totals over all of them and over those of each order. It holds no
times, so the same scenarios give the same report.

## Main definitions

* `ScenarioRow`, `OrderRow`, `MatrixSummary`, `MatrixReport`: The report.
* `Bucket`: The totals of one order.
* `matrixOf`: The report of results.
* `runMatrix`: The report of models.
-/

namespace Covering

/-- One scenario of the report. -/
structure ScenarioRow where
  traceId : String
  name : String
  valueCounts : List Int
  order : Nat
  seed : Nat
  rows : Option Nat
  lowerBound : Option Nat
  /-- Rows for each row of the bound; one is optimal. -/
  ratio : Option Float
  fingerprint : Option String
  obligationsTotal : Option Nat
  obligationsExcluded : Option Nat
  fallbackRows : Option Nat
  verdict : Verdict
  errorCode : Option String
  error : Option String

/-- The totals of one order. -/
structure OrderRow where
  order : Nat
  scenarios : Nat
  passed : Nat
  totalRows : Nat
  totalLowerBound : Nat
  meanRatio : Float

/-- The totals of all scenarios. -/
structure MatrixSummary where
  totalScenarios : Nat
  passed : Nat
  failed : Nat
  errors : Nat
  passRatePercent : Float

/-- The report. -/
structure MatrixReport where
  campaign : String
  settings : Settings
  summary : MatrixSummary
  orders : List OrderRow
  scenarios : List ScenarioRow

/-- A count as a double. -/
def toDouble (n : Nat) : Float := n.toUInt64.toFloat

/-- The ratio of two counts. -/
def ratioOf (n d : Nat) : Float := toDouble n / toDouble d

/-- How many obligations need not be covered, as a number of sixty-four bits: of
    a larger sum the low bits are kept. -/
def Statistics.dispensed (s : Statistics) : Nat :=
  (s.obligationsExcluded + s.obligationsInfeasible) % wordLimit

namespace ScenarioRow

/-- The row of a result. There is a ratio only for a bound that can be divided
    by. -/
def ofResult (campaign : String) (result : ScenarioResult) : ScenarioRow where
  traceId := campaign ++ "::" ++ result.name ++ s!"::t{result.order}::s{result.seed}"
  name := result.name
  valueCounts := result.valueCounts
  order := result.order
  seed := result.seed
  rows := result.rows
  lowerBound := result.lowerBound
  ratio := match result.rows, result.lowerBound with
    | some rows, some bound => if 0 < bound then some (ratioOf rows bound) else none
    | _, _ => none
  fingerprint := result.fingerprint
  obligationsTotal := result.statistics.map (·.obligationsTotal)
  obligationsExcluded := result.statistics.map Statistics.dispensed
  fallbackRows := result.statistics.map (·.fallbackRows)
  verdict := result.verdict
  errorCode := result.errorCode
  error := result.error

/-- Whether the scenario passed. -/
def passed (row : ScenarioRow) : Bool := row.verdict = .pass

/-- The order of rows in the report: by name, order, seed and counts. -/
def precedes (a b : ScenarioRow) : Bool :=
  (compareLex (compareOn (·.name)) (compareLex (compareOn (·.order))
    (compareLex (compareOn (·.seed)) (compareOn (·.valueCounts)))) a b).isLE

end ScenarioRow

/-- The totals of one order while they are added up. -/
structure Bucket where
  order : Nat
  scenarios : Nat := 0
  passed : Nat := 0
  rows : Nat := 0
  bound : Nat := 0
  ratioSum : Float := 0
  ratios : Nat := 0

namespace Bucket

/-- A sum of counts that stops at the largest word. -/
def addWords (a b : Nat) : Nat := min (a + b) (wordLimit - 1)

/-- The totals with one more scenario. -/
def add (bucket : Bucket) (row : ScenarioRow) : Bucket :=
  let bucket := { bucket with
    scenarios := addWords bucket.scenarios 1
    passed := if row.passed then addWords bucket.passed 1 else bucket.passed }
  match row.rows, row.lowerBound, row.ratio with
  | some rows, some bound, some ratio => { bucket with
      rows := addWords bucket.rows rows
      bound := addWords bucket.bound bound
      ratioSum := bucket.ratioSum + ratio
      ratios := bucket.ratios + 1 }
  | _, _, _ => bucket

/-- Adds a scenario to the totals of its order, which are kept in ascending
    order. -/
def addTo (row : ScenarioRow) : List Bucket → List Bucket
  | [] => [add { order := row.order } row]
  | bucket :: rest =>
    if row.order < bucket.order then add { order := row.order } row :: bucket :: rest
    else if row.order = bucket.order then bucket.add row :: rest
    else bucket :: addTo row rest

/-- The row of the report. The mean of no ratios is zero. -/
def toRow (bucket : Bucket) : OrderRow where
  order := bucket.order
  scenarios := bucket.scenarios
  passed := bucket.passed
  totalRows := bucket.rows
  totalLowerBound := bucket.bound
  meanRatio := if bucket.ratios = 0 then 0 else bucket.ratioSum / toDouble bucket.ratios

end Bucket

/-- A share in percent. The share of nothing is zero. -/
def percentOf (part whole : Nat) : Float :=
  if whole = 0 then 0 else toDouble part * 100 / toDouble whole

namespace MatrixSummary

/-- The totals of scenarios. -/
def ofRows (rows : List ScenarioRow) : MatrixSummary :=
  let count (verdict : Verdict) : Nat := rows.countP (·.verdict == verdict)
  { totalScenarios := rows.length
    passed := count .pass
    failed := count .fail
    errors := count .error
    passRatePercent := percentOf (count .pass) rows.length }

end MatrixSummary

/-- The report of results. -/
def matrixOf (results : List ScenarioResult) (settings : Settings) (campaign : String) :
    MatrixReport :=
  let rows := (results.map (ScenarioRow.ofResult campaign)).mergeSort ScenarioRow.precedes
  { campaign
    settings
    summary := MatrixSummary.ofRows rows
    orders := (rows.foldl (fun buckets row => Bucket.addTo row buckets) []).map Bucket.toRow
    scenarios := rows }

/-- The report of models. -/
def runMatrix (models : List Model) (settings : Settings) (campaign : String) : MatrixReport :=
  matrixOf (models.map fun model => model.run settings) settings campaign

namespace MatrixReport

/-- Whether no scenario failed or was in error. -/
def allPassed (report : MatrixReport) : Bool :=
  report.summary.failed = 0 && report.summary.errors = 0

end MatrixReport

end Covering
