import Strawberry.Merkle
import Strawberry.StateTransition.Delta

/-!
# The records of a block

Recent history, authorizer pools, statistics of the validators.
-/

namespace Strawberry.StateTransition

open Block State Constants

variable (prims : Primitives)

def setLastStateRoot (stateRoot : Hash) : List BlockState → List BlockState
  | [] => []
  | [last] => [{ last with stateRoot }]
  | block :: blocks => block :: setLastStateRoot stateRoot blocks

def calculateIntermediateBlockState (header : Header) (previousRecentBlocks : List BlockState) :
    List BlockState :=
  setLastStateRoot header.priorStateRoot previousRecentBlocks

def computeAccumulationRoot (pairs : List ServiceHashPair) : Hash :=
  if pairs.isEmpty then .replicate 32 0
  else
    let sorted := pairs.insertionSort fun a b => a.serviceId ≤ b.serviceId
    Merkle.computeWellBalancedRoot prims.keccakData
      (sorted.map fun pair => encodeUint32 pair.serviceId ++ pair.hash.toList)

def buildWorkPackageMapping (guarantees : List Guarantee) : GoMap Hash Hash :=
  guarantees.foldl (fun workPackages g => workPackages.insert
    g.workReport.workPackageSpecification.workPackageHash
    g.workReport.workPackageSpecification.segmentRoot) ∅

def updateRecentBlocks (headerHash priorStateRoot accumulationRoot : Hash)
    (intermediateRecentBlocks : List BlockState) (workPackageMapping : GoMap Hash Hash) :
    List BlockState :=
  let blocks := setLastStateRoot priorStateRoot intermediateRecentBlocks
  let lastBlockMMR := (blocks.getLast?.map (·.accumulationResultMMR)).getD []
  let newRecentBlocks := blocks ++
    [{ headerHash
       stateRoot := .replicate 32 0
       accumulationResultMMR := Merkle.append prims.keccakData lastBlockMMR accumulationRoot
       workReportHashes := workPackageMapping }]
  newRecentBlocks.drop (newRecentBlocks.length - maxRecentBlocks)

def calculateNewRecentBlocks (header : Header) (guarantees : List Guarantee)
    (intermediateRecentBlocks : List BlockState) (serviceHashPairs : List ServiceHashPair) :
    List BlockState :=
  updateRecentBlocks prims (header.hash prims.hashData) header.priorStateRoot
    (computeAccumulationRoot prims serviceHashPairs) intermediateRecentBlocks
    (buildWorkPackageMapping guarantees)

def appendAuthorizerLimited (auths : List Hash) (newAuth : Hash) (maxSize : Nat) : List Hash :=
  (if maxSize ≤ auths.length then auths.drop 1 else auths) ++ [newAuth]

def usedAuthorizersRemoved (guarantees : List Guarantee) (core : Core) (auths : List Hash) :
    List Hash :=
  let used := guarantees.filter fun g => g.workReport.coreIndex.toNat = core.val
  if used.isEmpty then auths.drop 1
  else used.foldl (fun auths g => auths.erase g.workReport.authorizerHash) auths

theorem queueIndex_lt (timeslot : Timeslot) :
    timeslot.toNat % pendingAuthorizersQueueSize < pendingAuthorizersQueueSize :=
  Nat.mod_lt _ (by decide)

def calculateNewCoreAuthorizations (header : Header) (guarantees : List Guarantee)
    (pendingAuthorizations : PendingAuthorizersQueues)
    (currentAuthorizations : CoreAuthorizersPool) : CoreAuthorizersPool :=
  Vector.ofFn fun core =>
    let newAuths := usedAuthorizersRemoved guarantees core (currentAuthorizations.get core)
    let newAuthorizer := (pendingAuthorizations.get core).get ⟨_, queueIndex_lt header.timeSlotIndex⟩
    if newAuthorizer = .replicate 32 0 then newAuths
    else appendAuthorizerLimited newAuths newAuthorizer maxAuthorizersPerCore

def creditAuthor (extrinsic : Extrinsic) (s : ValidatorStatistics) : ValidatorStatistics :=
  { s with
    numOfBlocks := s.numOfBlocks + 1
    numOfTickets := s.numOfTickets + UInt64.ofNat extrinsic.et.length
    numOfPreimages := s.numOfPreimages + UInt64.ofNat extrinsic.ep.length
    numOfBytesAllPreimages := s.numOfBytesAllPreimages +
      UInt64.ofNat (extrinsic.ep.map (·.data.length)).sum }

def creditValidator (block : Block) (reporters : Finset Ed25519Key) (key : Option ValidatorKey)
    (v : Nat) (s : ValidatorStatistics) : ValidatorStatistics :=
  let s := if v = block.header.blockAuthorIndex.toNat then creditAuthor block.extrinsic s else s
  { s with
    numOfGuaranteedReports := s.numOfGuaranteedReports +
      if key.any (·.ed25519 ∈ reporters) then 1 else 0
    numOfAvailabilityAssurances := s.numOfAvailabilityAssurances +
      UInt64.ofNat (block.extrinsic.ea.countP (·.validatorIndex.toNat = v)) }

def calculateNewValidatorStatistics (block : Block) (timeslot : Timeslot)
    (validatorStatistics : ValidatorStatisticsState) (reporters : Finset Ed25519Key)
    (currValidators : ValidatorsData) : ValidatorStatisticsState :=
  let newStats :=
    if toEpoch timeslot = toEpoch block.header.timeSlotIndex then validatorStatistics
    else ⟨validatorStatistics.present, .replicate numberOfValidators .zero⟩
  { newStats with
    present := Vector.ofFn fun v =>
      creditValidator block reporters (currValidators.get v) v (newStats.present.get v) }

end Strawberry.StateTransition
