import Covering.Document.Model
import Covering.Host
import Covering.Path

/-!
# Models on disk

Loading one model from a file, and all models of a directory in the order of
their file names.

## Main definitions

* `loadModel`: The model of a file.
* `loadModels`: The models of a directory.
-/

namespace Covering

variable {m : Type → Type} [Monad m] [Host m]

/-- The model of a file. -/
def loadModel (path : String) : Command m Model := do
  let text ← Command.readText path
  match Model.ofText? text with
  | some model => pure model
  | none => throw (.model path)

/-- The names among these that are those of model files, in order. -/
def modelNames (names : List String) : List String :=
  (names.filter fun name => Path.extension? name == some "json").mergeSort isLE

/-- The models of a directory. -/
def loadModels (directory : String) : Command m (List Model) := do
  let names ← Command.onFile directory (Host.list directory)
  (modelNames names).mapM fun name => loadModel (Path.join directory name)

end Covering
