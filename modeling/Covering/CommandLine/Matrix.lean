import Covering.Artifact
import Covering.CommandLine.Generate
import Covering.Document.Matrix

/-!
# The command that runs all scenarios

Every model of a directory is run and reported on. The command succeeds when
every scenario passes.

## Main definitions

* `MatrixRequest.run`: The command.
-/

namespace Covering

namespace CommandLine

open RunLog

variable {m : Type → Type} [Monad m] [Host m]

namespace MatrixRequest

/-- The level and outcome of a scenario in the log. -/
def severity : Verdict → Level × Outcome
  | .pass => (.info, .pass)
  | .fail => (.error, .fail)
  | .error => (.error, .error)

/-- The numbers of rows and obligations, when a scenario has both. -/
def countsOf (result : ScenarioResult) : Option (Nat × Nat) :=
  match result.rows, result.statistics with
  | some rows, some statistics => some (rows, statistics.obligationsTotal)
  | _, _ => none

/-- What the log says about a scenario that ended in an error. -/
def detailsOf (result : ScenarioResult) : Option Json :=
  result.errorCode.map fun code => Json.canonical (.object [
    ("error_code", .string code),
    ("error", Json.ofOption Json.string result.error)])

/-- Runs a model, with the time it took. -/
def runTimed (settings : Settings) (model : Model) : m (ScenarioResult × Nat) := do
  let started ← Host.now
  let result := model.run settings
  let ended ← Host.now
  pure (result, started.millisUntil ended)

/-- Logs the result of a scenario. -/
def recordResult (entry : ScenarioResult × Nat) : Logged m Unit :=
  let (result, duration) := entry
  let (level, outcome) := severity result.verdict
  record level "scenario_result" fun e => { e with
    stream := some .matrix
    gate := some result.name
    order := some result.order
    seed := some result.seed
    outcome := some outcome
    durationMs := some duration
    rowCount := (countsOf result).map (·.1)
    obligationCount := (countsOf result).map (·.2)
    details := detailsOf result }

/-- What is printed when all scenarios are done. -/
def closingLine (summary : MatrixSummary) : String :=
  s!"Matrix complete: total={summary.totalScenarios}, passed={summary.passed}, " ++
    s!"failed={summary.failed}, errors={summary.errors}\n"

/-- The part of the command that is logged: from the models to the report. -/
def produce (request : MatrixRequest) (models : List Model) (settings : Settings) :
    Logged m MatrixReport := do
  let results ← (models.mapM (runTimed settings) : m _)
  results.forM recordResult
  let report := matrixOf (results.map (·.1)) settings request.campaign
  writeLogged (writeOutput request.output (report.text ++ "\n"))
  writeLogged (Command.warn (closingLine report.summary))
  record (if report.allPassed then .info else .error) "matrix_summary" fun e => { e with
    stream := some .matrix
    gate := some "summary"
    outcome := some (if report.allPassed then .pass else .fail)
    details := some report.summary.toJson.canonical
    artifacts := request.output.map ([·]) }
  finishLog
  pure report

/-- Writes the index of the files that the command wrote. -/
def writeIndex (request : MatrixRequest) (path : String) : Command m Unit := do
  let index : ArtifactIndex :=
    { runId := "matrix", campaign := request.campaign, generated := ← ExceptT.lift Host.now }
  let index ← match request.output with
    | some file => pure (index.add (← Artifact.ofFile file "coverage_matrix"))
    | none => pure index
  let index ← match request.log with
    | some file => pure (index.add (← Artifact.ofFile file "log"))
    | none => pure index
  Command.writeText path index.text

/-- The command. -/
def run (request : MatrixRequest) : Command m Unit := do
  let models ← loadModels request.scenarios
  if models.isEmpty then
    throw (.refused ("No model JSON files found in " ++ request.scenarios))
  Command.warn (s!"Running {models.length} scenario(s) from " ++ request.scenarios ++ "\n")
  let settings ← ExceptT.lift Command.settings
  let report ← logging request.log request.campaign "matrix" (produce request models settings)
  if let some path := request.artifactIndex then writeIndex request path
  if !report.allPassed then throw (.refused "Coverage matrix has failing scenarios")

end MatrixRequest

end CommandLine

end Covering
