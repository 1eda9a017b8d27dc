import Covering.CommandLine.Syntax

/-!
# Requests on the command line

The four commands, each with the options it was given. A command line becomes a
request when its syntax is right and nothing that a command needs is missing;
the values themselves are looked at when the command runs.

## Main definitions

* `GenerateRequest`, `ValidateRequest`, `ObligationsRequest`, `MatrixRequest`:
  The options of each command.
* `Request`: One of them.
* `Request.read`: The request of a command line.
-/

namespace Covering

namespace CommandLine

/-- Generate an array. -/
structure GenerateRequest where
  counts : Option String
  order : Option Nat
  seed : Option String
  model : Option String
  exclusions : List String
  seedRows : List String
  submodels : List String
  format : String
  output : Option String
  log : Option String
  candidates : Option Nat
  refinePasses : Option Nat
  statistics : Bool
deriving DecidableEq, Repr

/-- Check that rows cover a space. -/
structure ValidateRequest where
  counts : String
  order : Nat
  input : String
  format : Option String
  exclusions : List String
  submodels : List String
  log : Option String
deriving DecidableEq, Repr

/-- Count, and maybe list, the obligations of a space. -/
structure ObligationsRequest where
  counts : String
  order : Nat
  list : Bool
deriving DecidableEq, Repr

/-- Run all models of a directory. -/
structure MatrixRequest where
  scenarios : String
  output : Option String
  log : Option String
  artifactIndex : Option String
  campaign : String
deriving DecidableEq, Repr

/-- A command with its options. -/
inductive Request where
  | generate (request : GenerateRequest)
  | validate (request : ValidateRequest)
  | obligations (request : ObligationsRequest)
  | matrix (request : MatrixRequest)
deriving DecidableEq, Repr

/-- The order of interaction when none is given. -/
def defaultOrder : Nat := 2

namespace GenerateRequest

/-- The options of the command. -/
def rules : List OptionRule :=
  [{ name := "counts" }, { name := "order", kind := .number }, { name := "seed" },
   { name := "model", kind := .path }, { name := "exclude", arity := .many },
   { name := "seed-row", arity := .many }, { name := "submodel", arity := .many },
   { name := "format" }, { name := "output", kind := .path }, { name := "log", kind := .path },
   { name := "candidates", kind := .number }, { name := "refine-passes", kind := .number },
   { name := "stats", arity := .flag }]

/-- The request of the given options; it needs counts or a model. -/
def ofGiven (given : Given) : Except Refusal GenerateRequest :=
  if given.has "counts" || given.has "model" then .ok {
    counts := given.value? "counts"
    order := given.number? "order"
    seed := given.value? "seed"
    model := given.value? "model"
    exclusions := given.values "exclude"
    seedRows := given.values "seed-row"
    submodels := given.values "submodel"
    format := (given.value? "format").getD "tsv"
    output := given.value? "output"
    log := given.value? "log"
    candidates := given.number? "candidates"
    refinePasses := given.number? "refine-passes"
    statistics := given.has "stats" }
  else .error .misuse

end GenerateRequest

namespace ValidateRequest

/-- The options of the command. -/
def rules : List OptionRule :=
  [{ name := "counts" }, { name := "order", kind := .number },
   { name := "input", kind := .path }, { name := "format" },
   { name := "exclude", arity := .many }, { name := "submodel", arity := .many },
   { name := "log", kind := .path }]

/-- The request of the given options; it needs counts and an input. -/
def ofGiven (given : Given) : Except Refusal ValidateRequest :=
  match given.value? "counts", given.value? "input" with
  | some counts, some input => .ok {
      counts
      order := (given.number? "order").getD defaultOrder
      input
      format := given.value? "format"
      exclusions := given.values "exclude"
      submodels := given.values "submodel"
      log := given.value? "log" }
  | _, _ => .error .misuse

end ValidateRequest

namespace ObligationsRequest

/-- The options of the command. -/
def rules : List OptionRule :=
  [{ name := "counts" }, { name := "order", kind := .number },
   { name := "list", arity := .flag }]

/-- The request of the given options; it needs counts. -/
def ofGiven (given : Given) : Except Refusal ObligationsRequest :=
  match given.value? "counts" with
  | some counts => .ok {
      counts
      order := (given.number? "order").getD defaultOrder
      list := given.has "list" }
  | none => .error .misuse

end ObligationsRequest

namespace MatrixRequest

/-- The options of the command. -/
def rules : List OptionRule :=
  [{ name := "scenarios", kind := .path }, { name := "output", kind := .path },
   { name := "log", kind := .path }, { name := "artifact-index", kind := .path },
   { name := "campaign" }]

/-- The request of the given options. -/
def ofGiven (given : Given) : Except Refusal MatrixRequest :=
  .ok {
    scenarios := (given.value? "scenarios").getD "tests/scenarios"
    output := given.value? "output"
    log := given.value? "log"
    artifactIndex := given.value? "artifact-index"
    campaign := (given.value? "campaign").getD "matrix" }

end MatrixRequest

namespace Request

/-- The names of the commands. -/
def commands : List String := ["generate", "validate", "obligations", "matrix", "help"]

/-- The request of a command line, which names its command first. Help is about
    the program or one of its commands. -/
def read : List String → Except Refusal Request
  | "generate" :: rest => do
    pure (.generate (← GenerateRequest.ofGiven (← readOptions GenerateRequest.rules rest)))
  | "validate" :: rest => do
    pure (.validate (← ValidateRequest.ofGiven (← readOptions ValidateRequest.rules rest)))
  | "obligations" :: rest => do
    pure (.obligations (← ObligationsRequest.ofGiven (← readOptions ObligationsRequest.rules rest)))
  | "matrix" :: rest => do
    pure (.matrix (← MatrixRequest.ofGiven (← readOptions MatrixRequest.rules rest)))
  | ["help"] => .error .help
  | ["help", name] => .error (if commands.contains name then .help else .misuse)
  | argument :: _ => .error (if asksForHelp argument then .help else .misuse)
  | [] => .error .misuse

end Request

end CommandLine

end Covering
