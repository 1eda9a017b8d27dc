import Covering.CommandLine.Run
import Std.Time.DateTime.Timestamp

/-!
# The program

The command line in an operating system: arguments, files, streams and the
clock as they are there.

## Main definitions

* `main`: The program.
-/

namespace Covering

/-- The fault that stands for an error of the operating system, which knows a
    name that is too long by the number thirty-six. -/
def faultOf : IO.Error → FileFault
  | .noFileOrDirectory .. => .notFound
  | .inappropriateType .. => .notADirectory
  | .invalidArgument _ code _ => if code = 36 then .nameTooLong else .nulInPath
  | .permissionDenied .. => .denied
  | .resourceExhausted .. => .noSpace
  | .resourceVanished .. => .unread
  | _ => .isADirectory

/-- Reports an error of the operating system as the fault of a file. -/
def catching {α : Type} (action : IO α) : IO (Except FileFault α) := do
  try
    pure (.ok (← action))
  catch e =>
    pure (.error (faultOf e))

/-- Prints to a stream, and sees to it that the text arrives. -/
def printTo (stream : IO.FS.Stream) (text : String) : IO Unit := do
  stream.putStr text
  stream.flush

/-- The present moment. -/
def currentInstant : IO Instant := do
  let millis := (← Std.Time.Timestamp.now).toMillisecondsSinceUnixEpoch.val.toNat
  pure ⟨millis / 1000, millis % 1000⟩

instance : Host IO where
  read path := catching (IO.FS.readBinFile path)
  list path := catching do
    let directory := (← IO.currentDir) / path
    pure ((← directory.readDir).toList.map (·.fileName))
  write path bytes := catching (IO.FS.writeBinFile path bytes)
  overlay path offset bytes := catching do
    IO.FS.writeBinFile path (overlaid (← IO.FS.readBinFile path) offset bytes)
  print text := catching do printTo (← IO.getStdout) text
  warn text := catching do printTo (← IO.getStderr) text
  variableOf name := IO.getEnv name
  now := currentInstant

end Covering

/-- The program. -/
def main (arguments : List String) : IO UInt32 := do
  pure (← (Covering.CommandLine.execute arguments : IO Nat)).toUInt32
