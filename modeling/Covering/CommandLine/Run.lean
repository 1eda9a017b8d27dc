import Covering.CommandLine.Matrix
import Covering.CommandLine.Obligations
import Covering.CommandLine.Validate

/-!
# The command line

From arguments to an exit code. A command line that is no request ends with
code two and does nothing; a command that fails ends with the code of its error
and a last line on standard error. Nobody is told whether that line, or what is
said about a command line that is no request, can be printed.

## Main definitions

* `Request.run`: The command of a request.
* `execute`: The command of a command line, and its exit code.
* `executeInWorld`: The same in a model of the surroundings.
-/

namespace Covering

namespace CommandLine

variable {m : Type → Type} [Monad m] [Host m]

namespace Request

/-- The command of a request. -/
def run : Request → Command m Unit
  | generate request => request.run
  | validate request => request.run
  | obligations request => request.run
  | matrix request => request.run

end Request

/-- What is said about a command line that is no request. -/
def usage : String :=
  "usage: covering <generate|validate|obligations|matrix> [options]\n"

/-- Runs the command of a command line, and gives its exit code. -/
def execute (arguments : List String) : m Nat := do
  match Request.read arguments with
  | .error .misuse =>
    let _ ← Host.warn usage
    pure 2
  | .error .help =>
    let _ ← Host.print usage
    pure 0
  | .ok request =>
    match ← (request.run : Command m Unit).run with
    | .ok () => pure 0
    | .error e =>
      let _ ← Host.warn e.lastWords
      pure e.exitCode

/-- Runs a command line in a world: its exit code, and the world after it. -/
def executeInWorld (arguments : List String) (world : World) : Nat × World :=
  (execute arguments : InWorld Nat) world

end CommandLine

end Covering
