import Covering.CoverError

/-!
# What can go wrong around an array

Failures of the tool that surrounds generation and checking: values that
cannot be read, files that cannot be opened, documents of the wrong form.

## Main definitions

* `FileFault`: Why a file or stream cannot be used.
* `ToolError`: Why a command fails.
* `ToolError.code`, `ToolError.message`: The stable code and the text.
* `ToolError.exitCode`, `ToolError.lastWords`: How the program ends with it.
-/

namespace Covering

/-- Why a file or stream cannot be used. -/
inductive FileFault where
  | notFound
  | notADirectory
  | isADirectory
  | nameTooLong
  /-- The path has a character that no name can have. -/
  | nulInPath
  | notText
  | denied
  | noSpace
  /-- Nobody reads any more what is written. -/
  | unread
deriving DecidableEq, Repr

/-- The system's text for the fault. -/
def FileFault.message : FileFault → String
  | notFound => "No such file or directory (os error 2)"
  | notADirectory => "Not a directory (os error 20)"
  | isADirectory => "Is a directory (os error 21)"
  | nameTooLong => "File name too long (os error 36)"
  | nulInPath => "file name contained an unexpected NUL byte"
  | notText => "stream did not contain valid UTF-8"
  | denied => "Permission denied (os error 13)"
  | noSpace => "No space left on device (os error 28)"
  | unread => "Broken pipe (os error 32)"

/-- Why a command of the tool fails. -/
inductive ToolError where
  /-- There is no array, or no verdict that it covers. -/
  | cover (error : CoverError)
  /-- A value or row text cannot be read. -/
  | unreadable (reason : String)
  /-- A file cannot be used. -/
  | file (path : String) (fault : FileFault)
  /-- A document is not of the expected form. -/
  | document
  /-- Rows of different widths cannot be written as delimited text. -/
  | raggedRows
  /-- A model file is not of the expected form. -/
  | model (path : String)
  /-- A command cannot be carried out as asked. -/
  | refused (reason : String)
  /-- A standard stream does not take what is printed. No command expects that:
      the program breaks off. -/
  | stream (name : String) (fault : FileFault)
deriving DecidableEq, Repr

namespace ToolError

/-- The stable code of the failure; failures to cover keep their own. -/
def code : ToolError → String
  | cover e => e.code
  | unreadable _ => "parse"
  | file _ _ => "io"
  | document => "json"
  | raggedRows => "csv"
  | model _ => "model"
  | refused _ => "refused"
  | stream _ _ => "panic"

/-- The text a user reads. -/
def message : ToolError → String
  | cover e => e.message
  | unreadable reason => "parse error: " ++ reason
  | file path fault => path ++ ": " ++ fault.message
  | document => "json: not a document of the expected form"
  | raggedRows => "csv: rows of different widths"
  | model path => "model " ++ path ++ ": not a model"
  | refused reason => reason
  | stream name fault => "failed printing to " ++ name ++ ": " ++ fault.message

/-- The exit code of the program when a command fails so. -/
def exitCode : ToolError → Nat
  | stream _ _ => 101
  | _ => 1

/-- The last line on standard error when a command fails so. -/
def lastWords (e : ToolError) : String :=
  match e with
  | stream _ _ => e.message ++ "\n"
  | _ => "Error: " ++ e.message ++ "\n"

end ToolError

/-- Reports a failure to cover as the failure of a command. -/
def orCover {α : Type} (result : Except CoverError α) : Except ToolError α :=
  result.mapError .cover

/-- Reports the fault of a request as the failure of a command. -/
def orRefuse {α : Type} (result : Except InputFault α) : Except ToolError α :=
  result.mapError fun fault => .cover (.invalidInput fault)

end Covering
