import Covering.Document.Record
import Covering.Json.Printer

/-!
# Entries of a run log

A run log is a text file with one JSON object on each line. An entry always has
a time, a trace id, a level and an event; everything else is there only where
it applies.

## Main definitions

* `Level`, `Outcome`, `Stream`: The words an entry may use.
* `Entry`: A line of a log.
* `Entry.toJson`, `Entry.text`: Writing.
* `Entry.ofJson?`: Reading.
-/

namespace Covering

namespace RunLog

/-- How important an entry is. -/
inductive Level where
  | trace
  | debug
  | info
  | warn
  | error
deriving DecidableEq, Repr

/-- How a run went. -/
inductive Outcome where
  | pass
  | fail
  | skip
  | error
deriving DecidableEq, Repr

/-- The command that writes. -/
inductive Stream where
  | generate
  | validate
  | obligations
  | matrix
deriving DecidableEq, Repr

/-- The words for the levels. -/
def Level.words : List (String × Level) :=
  [("trace", .trace), ("debug", .debug), ("info", .info), ("warn", .warn), ("error", .error)]

/-- The words for the outcomes. -/
def Outcome.words : List (String × Outcome) :=
  [("pass", .pass), ("fail", .fail), ("skip", .skip), ("error", .error)]

/-- The words for the commands. -/
def Stream.words : List (String × Stream) :=
  [("generate", .generate), ("validate", .validate), ("obligations", .obligations),
   ("matrix", .matrix)]

/-- The word for a level. -/
def Level.name : Level → String
  | trace => "trace"
  | debug => "debug"
  | info => "info"
  | warn => "warn"
  | error => "error"

/-- The word for an outcome. -/
def Outcome.name : Outcome → String
  | pass => "pass"
  | fail => "fail"
  | skip => "skip"
  | error => "error"

/-- The word for a command. -/
def Stream.name : Stream → String
  | generate => "generate"
  | validate => "validate"
  | obligations => "obligations"
  | matrix => "matrix"

/-- A line of a log. -/
structure Entry where
  timestamp : String
  traceId : String
  level : Level
  event : String
  campaign : Option String := none
  stream : Option Stream := none
  /-- The scenario or step the entry is about. -/
  gate : Option String := none
  order : Option Nat := none
  seed : Option Nat := none
  outcome : Option Outcome := none
  rowCount : Option Nat := none
  obligationCount : Option Nat := none
  durationMs : Option Nat := none
  artifacts : Option (List String) := none
  details : Option Json := none
deriving Repr

/-- A list of texts. -/
def textsToJson (texts : List String) : Json := .array (texts.map Json.string)

namespace Entry

/-- The object of an entry. -/
def toJson (e : Entry) : Json :=
  .object ([
      ("timestamp", .string e.timestamp),
      ("trace_id", .string e.traceId),
      ("level", .string e.level.name),
      ("event", .string e.event)] ++
    Json.optionalMember "campaign" Json.string e.campaign ++
    Json.optionalMember "stream" (fun s => .string s.name) e.stream ++
    Json.optionalMember "gate" Json.string e.gate ++
    Json.optionalMember "order" Json.ofNat e.order ++
    Json.optionalMember "seed" Json.ofNat e.seed ++
    Json.optionalMember "outcome" (fun o => .string o.name) e.outcome ++
    Json.optionalMember "row_count" Json.ofNat e.rowCount ++
    Json.optionalMember "obligation_count" Json.ofNat e.obligationCount ++
    Json.optionalMember "duration_ms" Json.ofNat e.durationMs ++
    Json.optionalMember "artifact_refs" textsToJson e.artifacts ++
    Json.optionalMember "details" id e.details)

/-- The line of an entry, without its end. -/
def text (e : Entry) : String := Json.compact e.toJson

/-- The value of a member that may be missing or `null`. -/
def optionalField {α : Type} (v : Json) (name : String) (f : Json → Option α) :
    Option (Option α) :=
  Json.optional none (Json.nullable? f) (v.member? name)

/-- Reads the object of an entry. -/
def ofJson? (v : Json) : Option Entry := do
  pure {
    timestamp := ← Json.required Json.text? (v.member? "timestamp")
    traceId := ← Json.required Json.text? (v.member? "trace_id")
    level := ← Json.required (Json.word? Level.words) (v.member? "level")
    event := ← Json.required Json.text? (v.member? "event")
    campaign := ← optionalField v "campaign" Json.text?
    stream := ← optionalField v "stream" (Json.word? Stream.words)
    gate := ← optionalField v "gate" Json.text?
    order := ← optionalField v "order" Json.nat?
    seed := ← optionalField v "seed" Json.nat?
    outcome := ← optionalField v "outcome" (Json.word? Outcome.words)
    rowCount := ← optionalField v "row_count" Json.nat?
    obligationCount := ← optionalField v "obligation_count" Json.nat?
    durationMs := ← optionalField v "duration_ms" Json.nat?
    artifacts := ← optionalField v "artifact_refs" (Json.list? Json.text?)
    details := ← optionalField v "details" some }

end Entry

end RunLog

end Covering
