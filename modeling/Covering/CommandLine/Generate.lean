import Covering.Arguments
import Covering.CommandLine.Request
import Covering.Fingerprint
import Covering.ModelFolder
import Covering.RunLog.File
import Covering.Rows.Written

/-!
# The command that generates

The request is a model file, or an empty model, changed by the other options:
counts, order and seed replace those of the model, constraints are added to
its own. The array goes to a file or to standard output.

## Main definitions

* `writeOutput`: The file or stream that output goes to.
* `GenerateRequest.change`: A model with what the options say.
* `GenerateRequest.override`: Settings with what the options say.
* `GenerateRequest.produce`: The part of the command that is logged.
* `GenerateRequest.run`: The command.
-/

namespace Covering

namespace CommandLine

open RunLog

variable {m : Type → Type} [Monad m] [Host m]

/-- Writes to a file, or to standard output when none is named. -/
def writeOutput (path? : Option String) (text : String) : Command m Unit :=
  match path? with
  | some path => Command.writeText path text
  | none => Command.print text

namespace GenerateRequest

/-- The model without a model file: nothing but a name. -/
def bare : Model := { name := "cli", valueCounts := [] }

/-- The model with submodels added, which are checked against its space. -/
def addSubmodels (model : Model) (raw : List String) : Except ToolError Model :=
  if raw.isEmpty then .ok model
  else do
    let space ← orRefuse model.space
    let submodels ← raw.mapM fun text => do
      let (positions, order) ← readSubmodel text
      orRefuse (Submodel.ofPositions space positions order)
    pure { model with submodels := model.submodels ++ submodels }

/-- The model with counts, order and seed replaced and constraints added as the
    options say. -/
def change (request : GenerateRequest) (model : Model) : Except ToolError Model := do
  let counts ← match request.counts with
    | some raw => readCounts raw
    | none => pure model.valueCounts
  let order := request.order.getD model.order
  let seed ← match request.seed with
    | some raw => readSeed raw
    | none => pure model.seed
  let exclusions ← request.exclusions.mapM readExclusion
  let seedRows ← request.seedRows.mapM readSeedRow
  addSubmodels
    { model with
      valueCounts := counts, order, seed
      exclusions := model.exclusions ++ exclusions
      seedRows := model.seedRows ++ seedRows }
    request.submodels

/-- The settings with those that the options override. -/
def override (request : GenerateRequest) (settings : Settings) : Settings :=
  let settings := match request.candidates with
    | some pool => settings.withPool pool
    | none => settings
  match request.refinePasses with
  | some passes => settings.withPasses passes
  | none => settings

/-- What the log says about a request. -/
def startDetails (model : Model) (settings : Settings) : Json :=
  Json.canonical (.object [
    ("value_counts", .array (model.valueCounts.map Json.ofInt)),
    ("exclusions", Json.ofNat model.exclusions.length),
    ("seed_rows", Json.ofNat model.seedRows.length),
    ("submodels", submodelsToJson model.submodels),
    ("config", settings.toJson)])

/-- What the log says about an error. -/
def errorDetails (code message : String) : Json :=
  Json.canonical (.object [("error_code", .string code), ("error", .string message)])

/-- What the log says about an array. -/
def doneDetails (array : CoveringArray) (statistics : Statistics) : Json :=
  Json.canonical (.object [
    ("fingerprint", .string array.fingerprint),
    ("stats", statistics.toJson)])

/-- The part of the command that is logged: from the checked options to the
    array written. -/
def produce (request : GenerateRequest) (format : Format) (model : Model) (settings : Settings) :
    Logged m Unit := do
  record .info "generate_start" fun e => { e with
    stream := some .generate
    gate := some model.name
    order := some model.order
    seed := some model.seed
    details := some (startDetails model settings) }
  let started ← (Host.now : m Instant)
  match model.generate settings with
  | .error e =>
    record .error "generate_failed" fun entry => { entry with
      stream := some .generate
      outcome := some .error
      details := some (errorDetails e.code e.message) }
    finishLog
    writeLogged (Command.warn ("Generation failed: " ++ e.message ++ "\n"))
    throw (.cover e)
  | .ok (array, statistics) =>
    let text ← MonadExcept.ofExcept (render array format)
    writeLogged (writeOutput request.output text)
    if request.statistics then
      writeLogged (Command.warn (Json.pretty statistics.toJson ++ "\n"))
    let ended ← (Host.now : m Instant)
    record .info "generate_done" fun e => { e with
      stream := some .generate
      order := some array.order
      seed := some array.seed
      outcome := some .pass
      rowCount := some array.rows.length
      obligationCount := some statistics.obligationsTotal
      durationMs := some (started.millisUntil ended)
      details := some (doneDetails array statistics)
      artifacts := request.output.map ([·]) }
    finishLog

/-- The command. -/
def run (request : GenerateRequest) : Command m Unit := do
  let some format := Format.ofText? request.format
    | throw (.refused ("unknown output format '" ++ request.format ++ "'"))
  let model ← match request.model with
    | some path => loadModel path
    | none => pure bare
  let model ← MonadExcept.ofExcept (request.change model)
  let settings := request.override (← ExceptT.lift Command.settings)
  logging request.log "generate" s!"seed-{model.seed}" (produce request format model settings)

end GenerateRequest

end CommandLine

end Covering
