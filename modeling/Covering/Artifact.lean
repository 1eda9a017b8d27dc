import Covering.Digest.Sha256
import Covering.Host
import Covering.Json.Printer

/-!
# The artifact index

A list of the files that a run wrote, each with its kind, its digest and its
size, so that a log can be tied to what it speaks of.

## Main definitions

* `Artifact`, `ArtifactIndex`: The list.
* `Artifact.ofFile`: A file as an artifact.
* `ArtifactIndex.text`: The document.
-/

namespace Covering

/-- A file that a run wrote. -/
structure Artifact where
  path : String
  kind : String
  sha256 : String
  size : Nat
deriving DecidableEq, Repr

/-- The files of a run. -/
structure ArtifactIndex where
  runId : String
  campaign : String
  generated : Instant
  artifacts : List Artifact := []
deriving DecidableEq, Repr

namespace Artifact

/-- The artifact of a file with the given contents. -/
def ofBytes (path kind : String) (bytes : ByteArray) : Artifact :=
  { path, kind, sha256 := Digest.sha256 bytes.toList, size := bytes.size }

/-- The object of an artifact. -/
def toJson (a : Artifact) : Json :=
  .object [
    ("path", .string a.path),
    ("kind", .string a.kind),
    ("sha256", .string a.sha256),
    ("size_bytes", Json.ofNat a.size)]

/-- A file as an artifact. -/
def ofFile {m : Type → Type} [Monad m] [Host m] (path kind : String) : Command m Artifact := do
  pure (ofBytes path kind (← Command.readBytes path))

end Artifact

namespace ArtifactIndex

/-- The index with one more artifact. -/
def add (index : ArtifactIndex) (artifact : Artifact) : ArtifactIndex :=
  { index with artifacts := index.artifacts ++ [artifact] }

/-- The document of an index. -/
def toJson (index : ArtifactIndex) : Json :=
  .object [
    ("index_version", Json.ofNat 1),
    ("run_id", .string index.runId),
    ("campaign", .string index.campaign),
    ("generated_utc", .string index.generated.text),
    ("artifacts", .array (index.artifacts.map Artifact.toJson))]

/-- The text of the document. -/
def text (index : ArtifactIndex) : String := Json.pretty index.toJson

end ArtifactIndex

end Covering
