import Covering.Host
import Covering.RunLog.Check
import Covering.RunLog.Emitter

/-!
# Log files

A command that keeps a log opens its file first, which empties it. What is
logged waits in a buffer until it no longer fits there, and the rest goes to the
file when the command finishes its log. A command that ends before that, however
it ends, leaves the rest to be sent as far as the file takes it. The log goes on
where its own text ended, whatever else is written to the file in the meantime:
that is how a command ends whose output goes to the same file. A command without
a log file takes the same way and leaves nothing behind.

The buffer needs no bytes of its own, because what a file has is always a first
part of the text: `Log.sent` says how much of it.

## Main definitions

* `Log`: A log and how much of it its file has.
* `sentAfter`: The rule of the buffer.
* `Logged`: A part of a command that writes entries.
* `writeEntry`, `record`: Writing an entry.
* `finishLog`: Sending what still waits.
* `logging`: A command with a log.
* `checkFile`: The check of a log file.

## Theorems

* `le_sentAfter`, `sentAfter_le`: What a file has grows, within what is written.
* `le_sentAfter_add`: No more than a buffer is kept back.
-/

namespace Covering

namespace RunLog

variable {m : Type → Type} [Monad m] [Host m]

/-- A log with the file it goes to, if any, and the number of bytes of its text
    that the file has been given. -/
structure Log where
  path? : Option String
  emitter : Emitter
  sent : Nat := 0
deriving DecidableEq, Repr

/-- The bytes that can wait before they go to a file. -/
def bufferSize : Nat := 8192

/-- How many bytes have gone to a file after a piece of `size` bytes, when `sent`
    of `written` bytes had gone there before it. A piece as long as the buffer
    goes there at once, one that no longer fits sends what was waiting. -/
def sentAfter (sent written size : Nat) : Nat :=
  if bufferSize ≤ size then written + size
  else if sent + bufferSize < written + size then written
  else sent

theorem le_sentAfter {sent written size : Nat} (h : sent ≤ written) :
    sent ≤ sentAfter sent written size := by
  rw [sentAfter]
  split
  · omega
  · split <;> omega

theorem sentAfter_le {sent written size : Nat} (h : sent ≤ written) :
    sentAfter sent written size ≤ written + size := by
  rw [sentAfter]
  split
  · omega
  · split <;> omega

theorem le_sentAfter_add (sent written size : Nat) :
    written + size ≤ sentAfter sent written size + bufferSize := by
  rw [sentAfter]
  split
  · omega
  · split <;> omega

/-- Gives the file the text of a log up to its byte `sent`. -/
def Log.send (log : Log) (sent : Nat) : Command m Log := do
  if let some path := log.path? then
    if log.sent < sent then
      Command.onFile path (Host.overlay path log.sent
        (log.emitter.written.toUTF8.extract log.sent sent))
  pure { log with sent }

/-- A part of a command that writes log entries. What has been written survives
    the failure of the rest. -/
abbrev Logged (m : Type → Type) := ExceptT ToolError (StateT Log m)

/-- A part of a command that logs nothing. -/
def writeLogged {α : Type} (action : Command m α) : Logged m α :=
  ExceptT.mk (StateT.lift action.run)

/-- Writes an entry, and gives back what was written. The end of its line is a
    piece of its own. -/
def writeEntry (e : Entry) : Logged m Entry := do
  let log ← get
  let (e, emitter) := log.emitter.emit e
  set { log with emitter }
  let start := log.emitter.written.utf8ByteSize
  let size := e.text.utf8ByteSize
  let sent := sentAfter (sentAfter log.sent start size) (start + size) 1
  set (← writeLogged (Log.send { log with emitter } sent))
  pure e

/-- Writes an entry of the given level and event, after `complete` has filled in
    the rest. -/
def record (level : Level) (event : String) (complete : Entry → Entry) : Logged m Unit := do
  let now ← (Host.now : m Instant)
  let _ ← writeEntry (complete (Entry.at now level event))

/-- Sends all that still waits. -/
def finishLog : Logged m Unit := do
  let log ← get
  set (← writeLogged (log.send log.emitter.written.utf8ByteSize))

/-- Runs a part of a command, with what it logs going to a file if one is
    named. -/
def logging {α : Type} (path? : Option String) (campaign runId : String) (body : Logged m α) :
    Command m α := do
  if let some path := path? then
    Command.onFile path (Host.write path ByteArray.empty)
  let emitter : Emitter := { campaign, runId }
  let (result, log) ← (body.run.run { path?, emitter } : m _)
  -- Something waits here if the log has not been finished; nobody is told whether
  -- the file takes it.
  let _ ← ExceptT.lift (log.send log.emitter.written.utf8ByteSize : Command m Log).run
  MonadExcept.ofExcept result

/-- The number of lines of a log file that are not blank, and their faults. -/
def checkFile (path : String) : Command m (Nat × List Fault) := do
  pure (checkLog (← Command.readText path))

end RunLog

end Covering
