import Covering.Main
import Covering.Proofs.Blocking
import Covering.Proofs.Bound
import Covering.Proofs.Capacity
import Covering.Proofs.CommandLine.Exit
import Covering.Proofs.CommandLine.Pipeline
import Covering.Proofs.Count
import Covering.Proofs.Coverage.Addressing
import Covering.Proofs.Coverage.History
import Covering.Proofs.Document.Model
import Covering.Proofs.Fingerprint
import Covering.Proofs.Generator.Climb
import Covering.Proofs.Generator.Constraints
import Covering.Proofs.Generator.FullOrder
import Covering.Proofs.Generator.OrderOne
import Covering.Proofs.Generator.Pool
import Covering.Proofs.Generator.Weights
import Covering.Proofs.Guarded.Run
import Covering.Proofs.InOrder
import Covering.Proofs.Lines
import Covering.Proofs.PositionIndex
import Covering.Proofs.Random.Exact
import Covering.Proofs.Random.Stream
import Covering.Proofs.Scenario
import Covering.Proofs.Strength
import Covering.Proofs.Submodel
import Covering.Proofs.Totals
