import Covering.Text.Blank
import Covering.Text.Integer

/-!
# Generator settings

How hard a run tries for few rows, and how large a request it takes on. The
defaults can be changed through environment variables; a variable that does not
hold an acceptable value leaves its default in force.

## Main definitions

* `Refinement`: Whether accepted rows are improved by hill climbing.
* `Settings`: The four knobs of a run.
* `Settings.ofLookup`: The settings under given environment variables.
* `Settings.withPool` and so on: One knob changed.
-/

namespace Covering

open Text

/-- Whether a chosen candidate is improved before it becomes a row. -/
inductive Refinement where
  | hillClimb
  | off
deriving DecidableEq, Repr

namespace Refinement

/-- The name of the setting. -/
def name : Refinement → String
  | hillClimb => "hillclimb"
  | off => "off"

/-- The names of the settings. -/
def words : List (String × Refinement) := [("hillclimb", .hillClimb), ("off", .off)]

/-- Reads the setting. Case and blank ends do not matter, and whatever does not
    ask for hill climbing to be off leaves it on. -/
def ofText (text : String) : Refinement :=
  let word := String.ofList ((trim text.toList).map Char.toLower)
  if word ∈ ["off", "none", "disabled", "0"] then off else hillClimb

end Refinement

/-- The knobs of a run. -/
structure Settings where
  /-- Candidate rows drawn for each accepted row. -/
  candidatePool : Nat := 40
  /-- Hill-climbing sweeps over a row at most. -/
  refinePasses : Nat := 4
  refinement : Refinement := .hillClimb
  /-- Requests with more obligations are refused. -/
  maxObligations : Nat := 64 * 1024 * 1024
deriving DecidableEq, Repr

namespace Settings

/-- The settings in force when nothing is said. -/
def standard : Settings := {}

/-- A word that a variable holds, with blank ends forgiven. -/
def wordOf? (text : String) : Option Nat :=
  (readWord (trim text.toList)).toOption

/-- A word that a variable holds, with blank ends and underscores forgiven. -/
def groupedWordOf? (text : String) : Option Nat :=
  (readWord ((trim text.toList).filter (· ≠ '_'))).toOption

/-- The settings under the variables that `lookup` finds. -/
def ofLookup (lookup : String → Option String) : Settings where
  candidatePool :=
    (((lookup "FRANKENPICT_CANDIDATES").bind wordOf?).filter (0 < ·)).getD standard.candidatePool
  refinePasses :=
    ((lookup "FRANKENPICT_REFINE_PASSES").bind wordOf?).getD standard.refinePasses
  refinement :=
    ((lookup "FRANKENPICT_REFINE").map Refinement.ofText).getD standard.refinement
  maxObligations :=
    (((lookup "FRANKENPICT_MAX_OBLIGATIONS").bind groupedWordOf?).filter (0 < ·)).getD
      standard.maxObligations

/-- The settings with another pool, of at least one candidate. -/
def withPool (settings : Settings) (pool : Nat) : Settings :=
  { settings with candidatePool := max pool 1 }

/-- The settings with another number of hill-climbing sweeps. -/
def withPasses (settings : Settings) (passes : Nat) : Settings :=
  { settings with refinePasses := passes }

/-- The settings with hill climbing on or off. -/
def withRefinement (settings : Settings) (refinement : Refinement) : Settings :=
  { settings with refinement }

/-- The settings with another limit on obligations. -/
def withLimit (settings : Settings) (limit : Nat) : Settings :=
  { settings with maxObligations := limit }

end Settings

end Covering
