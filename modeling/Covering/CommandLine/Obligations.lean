import Covering.Arguments
import Covering.CommandLine.Request
import Covering.Count
import Covering.Host
import Covering.Json.Printer

/-!
# The command that counts obligations

## Main definitions

* `ObligationsRequest.run`: The command.
-/

namespace Covering

namespace CommandLine

variable {m : Type → Type} [Monad m] [Host m]

namespace ObligationsRequest

/-- The numbers that the command prints; large ones are texts. -/
def summary (space : Space) (order total bound : Nat) : Json :=
  Json.canonical (.object [
    ("value_counts", Json.ofNats space.counts),
    ("order", Json.ofNat order),
    ("obligations", .string (toString total)),
    ("row_count_lower_bound", .string (toString bound))])

/-- The space, and its numbers of obligations and of rows. -/
def measure (request : ObligationsRequest) : Except ToolError (Space × Nat × Nat) := do
  let space ← orRefuse (Space.ofSigned (← readCounts request.counts))
  let total ← orCover (obligationCount space request.order)
  let bound ← orCover (rowLowerBound space request.order)
  pure (space, total, bound)

/-- The command. -/
def run (request : ObligationsRequest) : Command m Unit := do
  let (space, total, bound) ← MonadExcept.ofExcept request.measure
  if request.list then
    for o in obligations space request.order do
      Command.print (o.display ++ "\n")
  Command.print (Json.pretty (summary space request.order total bound) ++ "\n")

end ObligationsRequest

end CommandLine

end Covering
