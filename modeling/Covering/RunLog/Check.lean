import Covering.RunLog.Entry
import Covering.Text.Blank
import Covering.Text.Split

/-!
# Checking a run log

Whether a line is an entry, and what is wrong with it if not. All faults of
names and types that can be told from the line are reported together, in a
fixed order; only a line without such faults is read as an entry.

## Main definitions

* `Fault`: What is wrong with a line.
* `objectFaults`: The faults of an object.
* `checkLine`: The entry of a line, or its faults.
* `checkLog`: The number of lines of a log, and the faults of all of them.
-/

namespace Covering

namespace RunLog

open Text

/-- What is wrong with a line. -/
structure Fault where
  line : Nat
  field : String
  message : String
deriving DecidableEq, Repr

/-- The fault as a user reads it. -/
def Fault.display (f : Fault) : String :=
  s!"line {f.line}: field '" ++ f.field ++ "': " ++ f.message

/-- A fault of a field that must be there and is not. -/
def missingField? (v : Json) (name : String) : Option (String × String) :=
  if (v.member? name).isSome then none else some (name, "required field missing")

/-- A fault of a field that has a text which is none of the words for it. -/
def unknownWord? {α : Type} (v : Json) (name : String) (words : List (String × α)) :
    Option (String × String) :=
  match v.member? name with
  | some (.string s) =>
    if (words.lookup s).isSome then none
    else some (name, "invalid " ++ name ++ ": '" ++ s ++ "'")
  | _ => none

/-- A fault of a field that is not a natural number. -/
def notANumber? (v : Json) (name : String) : Option (String × String) :=
  match v.member? name with
  | none => none
  | some field =>
    if field.nat?.isSome then none
    else some (name, "expected non-negative integer, got " ++ Json.compact field)

/-- A fault of a trace id that has fewer than three parts. -/
def badTraceId? (v : Json) : Option (String × String) :=
  match v.member? "trace_id" with
  | some (.string s) =>
    if doubleColons s.toList < 2 then
      some ("trace_id",
        "trace_id should follow <campaign>::<run_id>::<seq> format, got: '" ++ s ++ "'")
    else none
  | _ => none

/-- The faults of an object, as fields and messages. -/
def objectFaults (v : Json) : List (String × String) :=
  ["timestamp", "trace_id", "level", "event"].filterMap (missingField? v) ++
    (unknownWord? v "level" Level.words).toList ++
    (unknownWord? v "outcome" Outcome.words).toList ++
    (unknownWord? v "stream" Stream.words).toList ++
    ["order", "seed", "row_count", "obligation_count", "duration_ms"].filterMap (notANumber? v) ++
    (badTraceId? v).toList

/-- The entry of a line that is an object, or its faults. -/
def checkObject (v : Json) : Except (List (String × String)) Entry :=
  match objectFaults v with
  | [] =>
    match Entry.ofJson? v with
    | some e => .ok e
    | none => .error [("<deserialization>", "failed to deserialize")]
  | faults => .error faults

/-- The entry of a line, or its faults, as fields and messages. -/
def checkText (line : String) : Except (List (String × String)) Entry :=
  match (Json.parseStrict? line.toList).map Json.canonical with
  | none => .error [("<json>", "invalid JSON")]
  | some (.object members) => checkObject (.object members)
  | some _ => .error [("<root>", "expected JSON object")]

/-- The entry of line number `number`, or its faults. -/
def checkLine (line : String) (number : Nat) : Except (List Fault) Entry :=
  (checkText line).mapError (·.map fun fault => ⟨number, fault.1, fault.2⟩)

/-- The faults of a line. -/
def faultsOf (entry : String × Nat) : List Fault :=
  match checkLine entry.1 (entry.2 + 1) with
  | .ok _ => []
  | .error faults => faults

/-- The lines of a log that are not blank, trimmed, with their places. -/
def entryLines (text : String) : List (String × Nat) :=
  ((lines text.toList).map fun line => String.ofList (trim line)).zipIdx.filter
    fun entry => !entry.1.isEmpty

/-- The number of lines of a log that are not blank, and all their faults. -/
def checkLog (text : String) : Nat × List Fault :=
  ((entryLines text).length, (entryLines text).flatMap faultsOf)

end RunLog

end Covering
