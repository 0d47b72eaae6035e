import Strawberry.StateTransition.Checkpoint
import Strawberry.StateTransition.Merging

/-!
# Privileges

A round takes the validator keys from the assigning service's run and the queues from the
designating service's.
-/

namespace Strawberry.StateTransition

open Service State Block HostCall

variable {a : Accumulator} {fuel : Nat} {u u' : AccumulationState}
  {reports reports' : List WorkReport} {free free' : GoMap ServiceId UInt64}

def Accumulated.shared (run : Accumulated) : ValidatorsData × PendingAuthorizersQueues :=
  (run.accumulationState.validatorKeys, run.accumulationState.pendingAuthorizersQueues)

section

variable {order order' : List ServiceId} {r r' : Round}
  {manager assign designate manager' assign' designate' : Accumulated}

end

end Strawberry.StateTransition
