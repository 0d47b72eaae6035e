import Strawberry.ExitFidelity
import Strawberry.StateTransition.Delivery
import Strawberry.StateTransition.Evidence
import Strawberry.StateTransition.Privileges
import Strawberry.StateTransition.Goroutines
import Strawberry.StateTransition.Budget
import Strawberry.StateTransition.Engagement
import Strawberry.StateTransition.Signing
import Strawberry.StateTransition.Winners
import Strawberry.StateTransition.Assignment
import Strawberry.StateTransition.RecentHistory
import Strawberry.State.BlockSeal
import Strawberry.StateTransition.Statistics
import Strawberry.Chain.Finality
import Strawberry.State.StateKeys
import Strawberry.HostCall.Solvency
import Strawberry.HostCall.Expiry
import Strawberry.StateTransition.NewServices
import Strawberry.StateTransition.Histories
import Strawberry.Polkavm.Layout
import Strawberry.Interpreter.Blocks
import Strawberry.Polkavm.Blobs
import Strawberry.HostCall.Resumption
import Strawberry.HostCall.CrashFree
import Strawberry.Merkle.Ranges
import Strawberry.StateTransition.Authorizers
import Strawberry.Codec.Termination
import Strawberry.State.Footprint
import Strawberry.Merkle.Binding
import Strawberry.Work.Credentials
import Strawberry.Grid
import Strawberry.ErasureCoding.Robustness
import Strawberry.Work.Evaluation
