import Covering.Text.Split

/-!
# Paths

What a path says about the file it names. Empty components and components that
stand for the directory itself are passed over.

## Main definitions

* `Path.components`: The components that lead somewhere.
* `Path.fileName?`: The last component, if it is a name.
* `Path.extension?`: What follows the last dot of that name.
* `Path.join`: The path of a name in a directory.
-/

namespace Covering

namespace Path

open Text

/-- The components of a path that lead somewhere. -/
def components (path : String) : List String :=
  ((fields '/' path.toList).filter fun c => !(c.isEmpty || c == ['.'])).map String.ofList

/-- The name of the file; a path that ends by going up has none. -/
def fileName? (path : String) : Option String :=
  (components path).getLast?.filter (· ≠ "..")

/-- What follows the last dot of a file name. A dot at the start of the name
    hides the file and begins no extension. -/
def extension? (path : String) : Option String := do
  let name ← fileName? path
  let (after, before) ← (cut? '.' name.toList.reverse)
  if before.isEmpty then none else some (String.ofList after.reverse)

/-- The path of a name in the directory of another path. -/
def join (directory name : String) : String :=
  if directory.isEmpty || directory.endsWith "/" then directory ++ name
  else directory ++ "/" ++ name

end Path

end Covering
