import Covering.CommandLine.Generate

/-!
# The command that validates

Rows are read from a file, in the format that is named or that the file's
extension tells, and checked against the space and constraints of the other
options.

## Main definitions

* `ValidateRequest.target`: What is to be covered.
* `ValidateRequest.run`: The command.
-/

namespace Covering

namespace CommandLine

open RunLog

variable {m : Type → Type} [Monad m] [Host m]

namespace ValidateRequest

/-- The format of the input. -/
def inputFormat (request : ValidateRequest) : Except ToolError Format :=
  match request.format with
  | some raw =>
    match Format.ofText? raw with
    | some format => .ok format
    | none => .error (.refused ("unknown input format '" ++ raw ++ "'"))
  | none =>
    match Format.ofPath? request.input with
    | some format => .ok format
    | none =>
      .error (.refused ("cannot infer format of " ++ request.input ++ "; pass --format"))

/-- The space, exclusions and submodels that the options name. -/
def target (request : ValidateRequest) :
    Except ToolError (Space × ExclusionSet × List Submodel) := do
  let space ← orRefuse (Space.ofSigned (← readCounts request.counts))
  let exclusions ← request.exclusions.mapM readExclusion
  let exclusions ← orRefuse (ExclusionSet.ofLists space exclusions)
  let submodels ← request.submodels.mapM fun text => do
    let (positions, order) ← readSubmodel text
    orRefuse (Submodel.ofPositions space positions order)
  pure (space, exclusions, submodels)

/-- The part of the command that is logged: the verdict. -/
def judge (request : ValidateRequest) (space : Space) (exclusions : ExclusionSet)
    (submodels : List Submodel) (rows : List Row) : Logged m Unit := do
  let started ← (Host.now : m Instant)
  let verdict := checkCoverage rows space request.order exclusions submodels
  let ended ← (Host.now : m Instant)
  let about (e : Entry) : Entry := { e with
    stream := some .validate
    gate := some request.input
    durationMs := some (started.millisUntil ended) }
  match verdict with
  | .ok report =>
    record .info "validate_done" fun e => { about e with
      outcome := some .pass
      rowCount := some report.rows
      obligationCount := some report.obligationsTotal }
    finishLog
    writeLogged (Command.print (Json.pretty report.toJson ++ "\n"))
  | .error e =>
    record .error "validate_done" fun entry => { about entry with
      outcome := some .fail
      details := some (GenerateRequest.errorDetails e.code e.message) }
    finishLog
    writeLogged (Command.warn ("Validation failed: " ++ e.message ++ "\n"))
    throw (.cover e)

/-- The command. -/
def run (request : ValidateRequest) : Command m Unit := do
  let format ← MonadExcept.ofExcept request.inputFormat
  let (space, exclusions, submodels) ← MonadExcept.ofExcept request.target
  let text ← Command.readText request.input
  let rows ← MonadExcept.ofExcept (readRows text format)
  logging request.log "validate" "input" (judge request space exclusions submodels rows)

end ValidateRequest

end CommandLine

end Covering
