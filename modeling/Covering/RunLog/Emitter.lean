import Covering.RunLog.Entry
import Covering.RunLog.Timestamp

/-!
# Writing a run log

Entries are stamped on their way to the log: one without a trace id gets the
next number of its run, and one without a campaign that of the log.

## Main definitions

* `Emitter`: A log that is being written.
* `Emitter.stamp`, `Emitter.emit`: An entry on its way into the log.
* `Entry.at`: An entry with nothing but what it must have.
-/

namespace Covering

namespace RunLog

open Decimal

/-- A log that is being written: how many trace ids have been given out, and the
    text so far. -/
structure Emitter where
  campaign : String
  runId : String
  issued : Nat := 0
  written : String := ""
deriving DecidableEq, Repr

namespace Emitter

/-- The trace id of number `n`. -/
def traceId (emitter : Emitter) (n : Nat) : String :=
  emitter.campaign ++ "::" ++ emitter.runId ++ "::" ++ String.ofList (padded 3 n)

/-- Completes an entry, and counts a trace id that was given to it. -/
def stamp (emitter : Emitter) (e : Entry) : Entry × Emitter :=
  let campaign := some (e.campaign.getD emitter.campaign)
  if e.traceId.isEmpty then
    let n := emitter.issued + 1
    ({ e with traceId := emitter.traceId n, campaign }, { emitter with issued := n })
  else ({ e with campaign }, emitter)

/-- Writes an entry, and gives back what was written. -/
def emit (emitter : Emitter) (e : Entry) : Entry × Emitter :=
  let (e, emitter) := emitter.stamp e
  (e, { emitter with written := emitter.written ++ e.text ++ "\n" })

end Emitter

/-- An entry with a time, a level and an event, and a trace id to come. -/
def Entry.at (now : Instant) (level : Level) (event : String) : Entry :=
  { timestamp := now.text, traceId := "", level, event }

end RunLog

end Covering
