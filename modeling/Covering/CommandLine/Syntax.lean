import Covering.Text.Integer
import Covering.Text.Split

/-!
# The syntax of options

An option is written `--name value` or `--name=value`, a flag `--name`. A value
that is an argument of its own does not start with a dash, unless the dash is
all of it. Only options that collect values may be repeated. Anything else on
the line is an error, and asking for help ends the reading.

## Main definitions

* `OptionRule`: What a command knows of an option.
* `readOptions`: The options of a line, as the rules allow.
* `Given`: The options that were given, with their values.
-/

namespace Covering

namespace CommandLine

open Text

/-- How often an option is given, and with what. -/
inductive Arity where
  /-- At most once, without a value. -/
  | flag
  /-- At most once, with a value. -/
  | single
  /-- Any number of times, with a value each. -/
  | many
deriving DecidableEq, Repr

/-- Which values an option takes. -/
inductive ValueKind where
  | anyText
  /-- A path, which is not empty. -/
  | path
  /-- A number of sixty-four bits. -/
  | number
deriving DecidableEq, Repr

/-- What a command knows of an option. -/
structure OptionRule where
  name : String
  arity : Arity := .single
  kind : ValueKind := .anyText
deriving DecidableEq, Repr

/-- Whether a value is of the kind. -/
def ValueKind.accepts (kind : ValueKind) (value : String) : Bool :=
  match kind with
  | anyText => true
  | path => !value.isEmpty
  | number => (readWord value.toList).toOption.isSome

/-- Why a command line does not lead to a command. -/
inductive Refusal where
  | misuse
  | help
deriving DecidableEq, Repr

/-- The options that were given, in order, with their values. -/
abbrev Given := List (String × String)

namespace Given

/-- The value of an option. -/
def value? (given : Given) (name : String) : Option String := given.lookup name

/-- The value of an option that is a number. -/
def number? (given : Given) (name : String) : Option Nat :=
  (given.value? name).bind fun value => (readWord value.toList).toOption

/-- All values of an option. -/
def values (given : Given) (name : String) : List String :=
  (given.filter (·.1 == name)).map (·.2)

/-- Whether an option was given. -/
def has (given : Given) (name : String) : Bool := given.any (·.1 == name)

end Given

/-- The name of an option and its value after an equals sign, if the argument
    is written as an option. -/
def optionParts? (argument : String) : Option (String × Option String) :=
  match argument.toList with
  | '-' :: '-' :: cs =>
    match cut? '=' cs with
    | some (name, value) => some (String.ofList name, some (String.ofList value))
    | none => some (String.ofList cs, none)
  | _ => none

/-- Whether an argument can be the value of the option before it. -/
def isValue (argument : String) : Bool :=
  argument = "-" || !argument.startsWith "-"

/-- Whether an argument asks for help. The letter may be followed by others. -/
def asksForHelp (argument : String) : Bool :=
  argument = "--help" || argument.startsWith "-h"

/-- Adds an option with its value, if its rule allows it. -/
def give (given : Given) (rule : OptionRule) (value : String) : Except Refusal Given :=
  if (rule.arity ≠ .many && given.has rule.name) || !rule.kind.accepts value then .error .misuse
  else .ok (given ++ [(rule.name, value)])

/-- Reads arguments by the rules. An option that still waits for its value is
    `pending`. -/
def readFrom (rules : List OptionRule) (given : Given) :
    (pending : Option OptionRule) → List String → Except Refusal Given
  | none, [] => .ok given
  | some _, [] => .error .misuse
  | some rule, argument :: rest =>
    if isValue argument then
      match give given rule argument with
      | .ok given => readFrom rules given none rest
      | .error e => .error e
    else .error .misuse
  | none, argument :: rest =>
    if argument = "--" then if rest.isEmpty then .ok given else .error .misuse
    else if asksForHelp argument then .error .help
    else match optionParts? argument with
      | none => .error .misuse
      | some (name, value?) =>
        match rules.find? (·.name == name), value? with
        | none, _ => .error .misuse
        | some rule, none =>
          if rule.arity = .flag then
            match give given rule "" with
            | .ok given => readFrom rules given none rest
            | .error e => .error e
          else readFrom rules given (some rule) rest
        | some rule, some value =>
          if rule.arity = .flag then .error .misuse
          else match give given rule value with
            | .ok given => readFrom rules given none rest
            | .error e => .error e

/-- The options of a command line. -/
def readOptions (rules : List OptionRule) (arguments : List String) : Except Refusal Given :=
  readFrom rules [] none arguments

end CommandLine

end Covering
