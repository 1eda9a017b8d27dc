import Covering.FileTree
import Covering.RunLog.Timestamp
import Covering.Settings
import Covering.ToolError

/-!
# Where commands run

Commands read and write files, print, look at the clock and at environment
variables. What they need of their surroundings is an interface, so that the
same commands run in an operating system and on a model of one. Whatever they
write or print may be refused.

## Main definitions

* `Host`: What a command needs.
* `World`: A model of the surroundings.
* `InWorld`: Computations in that model.
* `Command`: A computation that may fail with a tool error.
-/

namespace Covering

/-- What a command needs of its surroundings. -/
class Host (m : Type → Type) where
  /-- The contents of a file. -/
  read : String → m (Except FileFault ByteArray)
  /-- The names in a directory. -/
  list : String → m (Except FileFault (List String))
  /-- Writes a file, in place of what it held. -/
  write : String → ByteArray → m (Except FileFault Unit)
  /-- Writes over a file from an offset on. -/
  overlay : String → Nat → ByteArray → m (Except FileFault Unit)
  /-- Prints to standard output. -/
  print : String → m (Except FileFault Unit)
  /-- Prints to standard error. -/
  warn : String → m (Except FileFault Unit)
  /-- The value of an environment variable. -/
  variableOf : String → m (Option String)
  now : m Instant

/-- A model of the surroundings. -/
structure World where
  tree : FileTree
  environment : List (String × String) := []
  clock : Instant := ⟨0, 0⟩
  /-- What has been printed to standard output, and to standard error. -/
  output : String := ""
  errors : String := ""
  /-- Why a stream does not go on to have this text, if it does not. -/
  outputFault : String → Option FileFault := fun _ => none
  errorsFault : String → Option FileFault := fun _ => none

/-- Computations that change a world. -/
abbrev InWorld := StateM World

namespace World

/-- Changes the files of a world, unless that fails. -/
def change (f : FileTree → Except FileFault FileTree) : InWorld (Except FileFault Unit) := do
  let world ← get
  match f world.tree with
  | .ok tree =>
    set { world with tree }
    pure (.ok ())
  | .error fault => pure (.error fault)

/-- Prints to standard output, unless that fails. -/
def print (text : String) : InWorld (Except FileFault Unit) := do
  let world ← get
  let output := world.output ++ text
  match world.outputFault output with
  | none =>
    set { world with output }
    pure (.ok ())
  | some fault => pure (.error fault)

/-- Prints to standard error, unless that fails. -/
def warn (text : String) : InWorld (Except FileFault Unit) := do
  let world ← get
  let errors := world.errors ++ text
  match world.errorsFault errors with
  | none =>
    set { world with errors }
    pure (.ok ())
  | some fault => pure (.error fault)

end World

instance : Host InWorld where
  read path := do pure ((← get).tree.read path)
  list path := do pure ((← get).tree.list path)
  write path bytes := World.change (·.write path bytes)
  overlay path offset bytes := World.change (·.overlay path offset bytes)
  print := World.print
  warn := World.warn
  variableOf name := do pure ((← get).environment.lookup name)
  now := do pure (← get).clock

/-- A computation that may fail with a tool error. -/
abbrev Command (m : Type → Type) := ExceptT ToolError m

namespace Command

variable {m : Type → Type} [Monad m] [Host m]

/-- Reports a fault as the failure of the command. -/
def reporting {α : Type} (report : FileFault → ToolError) (action : m (Except FileFault α)) :
    Command m α :=
  ExceptT.mk do pure ((← action).mapError report)

/-- Reports the fault of a file. -/
def onFile {α : Type} (path : String) (action : m (Except FileFault α)) : Command m α :=
  reporting (ToolError.file path) action

/-- The contents of a file. -/
def readBytes (path : String) : Command m ByteArray := onFile path (Host.read path)

/-- The text of a file. -/
def readText (path : String) : Command m String :=
  onFile path do
    match ← Host.read path with
    | .ok bytes => pure (decodeText bytes)
    | .error fault => pure (.error fault)

/-- Writes a text to a file. -/
def writeText (path text : String) : Command m Unit :=
  onFile path (Host.write path text.toUTF8)

/-- Prints to standard output. -/
def print (text : String) : Command m Unit :=
  reporting (ToolError.stream "stdout") (Host.print text)

/-- Prints to standard error. -/
def warn (text : String) : Command m Unit :=
  reporting (ToolError.stream "stderr") (Host.warn text)

/-- The settings under the environment variables. -/
def settings : m Settings := do
  let candidates ← Host.variableOf "FRANKENPICT_CANDIDATES"
  let passes ← Host.variableOf "FRANKENPICT_REFINE_PASSES"
  let refine ← Host.variableOf "FRANKENPICT_REFINE"
  let limit ← Host.variableOf "FRANKENPICT_MAX_OBLIGATIONS"
  pure (Settings.ofLookup fun name =>
    if name = "FRANKENPICT_CANDIDATES" then candidates
    else if name = "FRANKENPICT_REFINE_PASSES" then passes
    else if name = "FRANKENPICT_REFINE" then refine
    else if name = "FRANKENPICT_MAX_OBLIGATIONS" then limit
    else none)

end Command

end Covering
