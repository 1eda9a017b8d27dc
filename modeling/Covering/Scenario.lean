import Covering.Arithmetic
import Covering.Fingerprint
import Covering.Model

/-!
# Scenarios

Running a model to a verdict. A model passes when it generates an array that
covers, or when it fails with the very error it is expected to cause. A model
that expects no error and does not generate is in error; every other
disappointment is a failure.

## Main definitions

* `Verdict`: Pass, fail or error.
* `ScenarioResult`: What became of a model.
* `Model.run`: The run of a model.
-/

namespace Covering

/-- What became of a scenario. -/
inductive Verdict where
  | pass
  /-- The array does not cover, or an expected error did not arise. -/
  | fail
  /-- There is no array, unexpectedly. -/
  | error
deriving DecidableEq, Repr

/-- The name of the verdict. -/
def Verdict.name : Verdict → String
  | pass => "pass"
  | fail => "fail"
  | error => "error"

/-- The names of the verdicts. -/
def Verdict.words : List (String × Verdict) :=
  [("pass", .pass), ("fail", .fail), ("error", .error)]

/-- What became of a model. -/
structure ScenarioResult where
  name : String
  valueCounts : List Int
  order : Nat
  seed : Nat
  verdict : Verdict
  rows : Option Nat := none
  lowerBound : Option Nat := none
  fingerprint : Option String := none
  statistics : Option Statistics := none
  errorCode : Option String := none
  error : Option String := none
deriving DecidableEq, Repr

namespace ScenarioResult

/-- Whether the scenario passed. -/
def passed (result : ScenarioResult) : Bool := result.verdict = .pass

end ScenarioResult

namespace Model

/-- The result of a model before anything has been tried. -/
def untried (model : Model) : ScenarioResult :=
  { name := model.name, valueCounts := model.valueCounts, order := model.order,
    seed := model.seed, verdict := .pass }

/-- Generates and checks, filling the result as far as this goes, and says what
    went wrong, if anything did. -/
def attempt (model : Model) (settings : Settings) : ScenarioResult × Option CoverError :=
  let result := model.untried
  match orInvalid (model.generator settings) with
  | .error e => (result, some e)
  | .ok g =>
    match rowLowerBoundWith g.space g.order g.submodels with
    | .error e => (result, some e)
    | .ok bound =>
      let result := { result with lowerBound := some (min bound (wordLimit - 1)) }
      match g.run model.seed with
      | .error e => (result, some e)
      | .ok (array, statistics) =>
        let result := { result with
          rows := some array.rows.length
          fingerprint := some array.fingerprint
          statistics := some statistics }
        match array.check (some g.exclusions) with
        | .error e => (result, some e)
        | .ok _ => (result, none)

/-- The verdict on an error, given the expected one and whether there is an
    array. -/
def verdictOn (expected : Option String) (e : CoverError) (generated : Bool) : Verdict :=
  match expected with
  | some code => if code = e.code then .pass else .fail
  | none => if generated then .fail else .error

/-- Runs the model under the given settings. -/
def run (model : Model) (settings : Settings) : ScenarioResult :=
  match model.attempt settings with
  | (result, none) =>
    match model.expectError with
    | none => result
    | some code =>
      { result with
        verdict := .fail
        error := some ("expected " ++ code ++ ", generation succeeded") }
  | (result, some e) =>
    { result with
      verdict := verdictOn model.expectError e result.rows.isSome
      errorCode := some e.code
      error := some e.message }

end Model

end Covering
