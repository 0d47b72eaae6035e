import Strawberry.Block
import Strawberry.Service

/-!
# The state

Packages `state`, `validator` and `safrole`. Sets of hashes are finite sets.
-/

namespace Strawberry.State

open Service Constants

structure ValidatorKey where
  bandersnatch : Vector UInt8 32
  ed25519 : Ed25519Key
  bls : Vector UInt8 144
  metadata : Vector UInt8 128
  deriving DecidableEq

def ValidatorKey.zero : ValidatorKey :=
  { bandersnatch := .replicate 32 0, ed25519 := .replicate 32 0, bls := .replicate 144 0
    metadata := .replicate 128 0 }

abbrev ValidatorsData := Vector (Option ValidatorKey) numberOfValidators

abbrev PendingAuthorizersQueue := Vector Hash pendingAuthorizersQueueSize

abbrev PendingAuthorizersQueues := Vector PendingAuthorizersQueue totalNumberOfCores

structure AccumulationState where
  serviceState : ServiceState
  validatorKeys : ValidatorsData
  pendingAuthorizersQueues : PendingAuthorizersQueues
  privilegedServices : PrivilegedServices
  deriving DecidableEq

structure AccumulateContext where
  serviceId : ServiceId
  accumulationState : AccumulationState
  newServiceId : ServiceId
  deferredTransfers : List DeferredTransfer
  accumulationHash : Option Hash
  deriving DecidableEq

namespace AccumulateContext

def serviceAccount (x : AccumulateContext) : ServiceAccount :=
  x.accumulationState.serviceState.getD x.serviceId .zero

def setAccount (x : AccumulateContext) (id : ServiceId) (account : ServiceAccount) :
    AccumulateContext :=
  { x with
    accumulationState.serviceState := x.accumulationState.serviceState.insert id account }

def deleteAccount (x : AccumulateContext) (id : ServiceId) : AccumulateContext :=
  { x with accumulationState.serviceState := x.accumulationState.serviceState.erase id }

end AccumulateContext

structure AccumulateContextPair where
  regularCtx : AccumulateContext
  exceptionalCtx : AccumulateContext
  deriving DecidableEq

open Block

abbrev EpochKeys := Vector BandersnatchPublicKey timeslotsPerEpoch

abbrev TicketsBodies := Vector Ticket timeslotsPerEpoch

inductive SealingKeys where
  | none
  | tickets (bodies : TicketsBodies)
  | keys (epochKeys : EpochKeys)

structure SafroleState where
  nextValidators : ValidatorsData
  ticketAccumulator : List Ticket
  sealingKeySeries : SealingKeys
  ringCommitment : RingCommitment

structure ValidatorState where
  currentValidators : ValidatorsData
  archivedValidators : ValidatorsData
  queuedValidators : ValidatorsData
  safroleState : SafroleState

structure ValidatorStatistics where
  numOfBlocks : UInt32
  numOfTickets : UInt64
  numOfPreimages : UInt64
  numOfBytesAllPreimages : UInt64
  numOfGuaranteedReports : UInt64
  numOfAvailabilityAssurances : UInt64
  deriving DecidableEq

def ValidatorStatistics.zero : ValidatorStatistics := ⟨0, 0, 0, 0, 0, 0⟩

structure ValidatorStatisticsState where
  completed : Vector ValidatorStatistics numberOfValidators
  present : Vector ValidatorStatistics numberOfValidators

structure Assignment where
  workReport : Option WorkReport
  time : Timeslot
  deriving DecidableEq

abbrev CoreAssignments := Vector (Option Assignment) totalNumberOfCores

abbrev CoreAuthorizersPool := Vector (List Hash) totalNumberOfCores

def reportOn (assignments : CoreAssignments) (core : Core) : Option WorkReport :=
  (assignments.get core).bind (·.workReport)

structure Judgements where
  badWorkReports : List Hash
  goodWorkReports : List Hash
  wonkyWorkReports : List Hash
  offendingValidators : List Ed25519Key

structure BlockState where
  headerHash : Hash
  stateRoot : Hash
  accumulationResultMMR : List (Option Hash)
  workReportHashes : GoMap Hash Hash

structure WorkReportWithUnAccumulatedDependencies where
  workReport : WorkReport
  dependencies : Finset Hash

abbrev AccumulationQueue :=
  Vector (List WorkReportWithUnAccumulatedDependencies) timeslotsPerEpoch

abbrev AccumulationHistory := Vector (Finset Hash) timeslotsPerEpoch

instance : NeZero entropyPoolSize := ⟨by decide⟩

abbrev EntropyPool := Vector Hash entropyPoolSize

end Strawberry.State

namespace Strawberry

open Service State in
structure State where
  services : ServiceState
  privilegedServices : PrivilegedServices
  validatorState : ValidatorState
  entropyPool : EntropyPool
  coreAuthorizersPool : CoreAuthorizersPool
  pendingAuthorizersQueues : PendingAuthorizersQueues
  coreAssignments : CoreAssignments
  recentBlocks : List BlockState
  timeslotIndex : Timeslot
  pastJudgements : Judgements
  validatorStatistics : ValidatorStatisticsState
  accumulationQueue : AccumulationQueue
  accumulationHistory : AccumulationHistory

end Strawberry
