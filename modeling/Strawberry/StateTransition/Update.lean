import Strawberry.StateTransition.Guarantees
import Strawberry.StateTransition.OnTransfer
import Strawberry.StateTransition.Records

/-!
# The state transition

`UpdateState`, the composition of all stages.  The present time slot and the orders that
the language leaves open are arguments.
-/

namespace Strawberry.StateTransition

open Service State Block Constants

def getWorkReportDependencies (workReport : WorkReport) :
    WorkReportWithUnAccumulatedDependencies where
  workReport
  dependencies :=
    workReport.refinementContext.prerequisiteWorkPackage.toFinset ∪
      workReport.segmentRootLookup.keys

def flattenAccumulationHistory (accHistory : AccumulationHistory) : Finset Hash :=
  accHistory.toList.foldl (· ∪ ·) ∅

def updateQueue (workRepAndDep : List WorkReportWithUnAccumulatedDependencies)
    (hashSet : Finset Hash) : List WorkReportWithUnAccumulatedDependencies :=
  (workRepAndDep.filter fun wd =>
      wd.workReport.workPackageSpecification.workPackageHash ∉ hashSet).map fun wd =>
    { wd with dependencies := wd.dependencies \ hashSet }

def getWorkPackageHashes (workReports : List WorkReport) : Finset Hash :=
  (workReports.map (·.workPackageSpecification.workPackageHash)).toFinset

def accumulationPriorityWithin :
    Nat → List WorkReportWithUnAccumulatedDependencies → Outcome (List WorkReport)
  | 0, _ => .hang
  | fuel + 1, workReportAndDeps =>
    let workReports := workReportAndDeps.map (·.workReport)
    if workReports.isEmpty then .ret []
    else accumulationPriorityWithin fuel
      (updateQueue workReportAndDeps (getWorkPackageHashes workReports))

def accumulationPriority (workReportAndDeps : List WorkReportWithUnAccumulatedDependencies) :
    Outcome (List WorkReport) :=
  accumulationPriorityWithin (workReportAndDeps.length + 1) workReportAndDeps

def isImmediate (workReport : WorkReport) : Bool :=
  workReport.refinementContext.prerequisiteWorkPackage.isEmpty &&
    workReport.segmentRootLookup.len = 0

def indexPerEpoch (timeslotPerEpoch : Timeslot) (i : Nat) : Fin timeslotsPerEpoch :=
  ⟨((timeslotPerEpoch - UInt32.ofNat i) % UInt32.ofNat timeslotsPerEpoch).toNat, by
    have h := UInt32.toNat_mod (timeslotPerEpoch - UInt32.ofNat i) (UInt32.ofNat timeslotsPerEpoch)
    rw [h]
    exact Nat.mod_lt _ (by decide)⟩

def queueSlot (queue : AccumulationQueue)
    (queuedWorkReports : List WorkReportWithUnAccumulatedDependencies)
    (lastAccumulation : Finset Hash) (timeslotPerEpoch elapsed : Timeslot) (i : Nat) :
    List WorkReportWithUnAccumulatedDependencies :=
  if i = 0 then updateQueue queuedWorkReports lastAccumulation
  else if UInt32.ofNat i < elapsed then []
  else updateQueue (queue.get (indexPerEpoch timeslotPerEpoch i)) lastAccumulation

def newAccumulationQueue (queue : AccumulationQueue)
    (queuedWorkReports : List WorkReportWithUnAccumulatedDependencies)
    (lastAccumulation : Finset Hash) (timeslotPerEpoch elapsed : Timeslot) : AccumulationQueue :=
  (List.range timeslotsPerEpoch).foldl
    (fun newQueue i => newQueue.set (indexPerEpoch timeslotPerEpoch i)
      (queueSlot queue queuedWorkReports lastAccumulation timeslotPerEpoch elapsed i)
      (indexPerEpoch timeslotPerEpoch i).isLt)
    (.replicate timeslotsPerEpoch [])

def shiftHistory (history : AccumulationHistory) (hashes : Finset Hash) : AccumulationHistory :=
  Vector.ofFn fun i =>
    if h : i.val + 1 < timeslotsPerEpoch then history.get ⟨i.val + 1, h⟩ else hashes

def blockGasLimit (privileged : PrivilegedServices) : UInt64 :=
  let privSvcGas := UInt64.ofNat (privileged.amountOfGasPerServiceId.sumBy (·.toNat))
  let gas := maxAllocatedGasAccumulation * UInt64.ofNat totalNumberOfCores + privSvcGas
  if totalGasAccumulation < gas then gas else totalGasAccumulation

structure WorkReportsAndQueue where
  queuedWorkReports : List WorkReportWithUnAccumulatedDependencies
  accumulatableWorkReports : List WorkReport

def selectWorkReports (s : State) (timeslotPerEpoch : Timeslot) (workReports : List WorkReport) :
    Outcome WorkReportsAndQueue := do
  let immediatelyAccWorkReports := workReports.filter isImmediate
  let workReportWithDeps :=
    (workReports.filter fun w => !isImmediate w).map getWorkReportDependencies
  let queuedWorkReports :=
    updateQueue workReportWithDeps (flattenAccumulationHistory s.accumulationHistory)
  let slots := s.accumulationQueue.toList
  let workReportsFromQueueDeps := updateQueue
    ((slots.drop timeslotPerEpoch.toNat).flatten ++ (slots.take timeslotPerEpoch.toNat).flatten ++
      queuedWorkReports)
    (getWorkPackageHashes immediatelyAccWorkReports)
  let fromQueue ← accumulationPriority workReportsFromQueueDeps
  return ⟨queuedWorkReports, immediatelyAccWorkReports ++ fromQueue⟩

structure Orders where
  locks : Schedule
  services : (s : Finset ServiceId) → GoMap.Traversal s

structure BlockAccumulation where
  accumulationQueue : AccumulationQueue
  accumulationHistory : AccumulationHistory
  serviceState : ServiceState
  privilegedServices : PrivilegedServices
  validatorKeys : ValidatorsData
  pendingAuthorizersQueues : PendingAuthorizersQueues
  hashPairs : List ServiceHashPair

def calculateWorkReportsAndAccumulate (hashData : HashData) (fuel : Nat) (orders : Orders)
    (header : Header) (s : State) (newTimeslot : Timeslot) (workReports : List WorkReport) :
    Outcome BlockAccumulation := do
  let timeslotPerEpoch := timeslotInEpoch header.timeSlotIndex
  let ⟨queuedWorkReports, accumulatableWorkReports⟩ ←
    selectWorkReports s timeslotPerEpoch workReports
  let accumulator : Accumulator :=
    { hashData, headerTimeslot := header.timeSlotIndex, newTimeslot, entropy := s.entropyPool.get 0 }
  let (maxReports, r) ← sequentialDelta accumulator fuel orders.locks
    (blockGasLimit s.privilegedServices) accumulatableWorkReports
    { serviceState := s.services
      validatorKeys := s.validatorState.queuedValidators
      pendingAuthorizersQueues := s.pendingAuthorizersQueues
      privilegedServices := s.privilegedServices }
    s.privilegedServices
  let serviceState ← onTransferStage hashData fuel r.accState.serviceState
    (orders.services r.accState.serviceState.keys) r.transfers
  let lastAccumulation := getWorkPackageHashes (accumulatableWorkReports.take maxReports)
  return {
    accumulationQueue := newAccumulationQueue s.accumulationQueue queuedWorkReports
      lastAccumulation timeslotPerEpoch (newTimeslot - s.timeslotIndex)
    accumulationHistory := shiftHistory s.accumulationHistory lastAccumulation
    serviceState
    privilegedServices := r.accState.privilegedServices
    validatorKeys := r.accState.validatorKeys
    pendingAuthorizersQueues := r.accState.pendingAuthorizersQueues
    hashPairs := r.hashPairs }

def readWorkReport (assignment : Assignment) : Outcome WorkReport :=
  match assignment.workReport with
  | none => .crash .nilDereference
  | some w => .ret w

def getAvailableWorkReports (coreAssignments : CoreAssignments) : Outcome (List WorkReport) :=
  (coreAssignments.toList.filterMap id).mapM readWorkReport

structure Transition where
  newState : State
  workReports : List WorkReport

variable (prims : Primitives) (now : Timeslot) (fuel : Nat) (orders : Orders)

def transition (s : State) (newBlock : Block) (chain : Chain) :
    Call TransitionError Transition := do
  let header := newBlock.header
  let extrinsic := newBlock.extrinsic
  Call.check (header.timeSlotIndex ≤ now) .blockInFuture
  let newTimeState := header.timeSlotIndex
  (validateExtrinsicGuarantees prims header s extrinsic.eg s.coreAssignments newTimeState
    chain).mapError TransitionError.guaranteesValidation
  let intermediateCoreAssignments :=
    calculateIntermediateCoreAssignmentsFromExtrinsics prims extrinsic.ed s.coreAssignments
  let safroleInput ← newSafroleInputFromBlock prims newBlock
  let safrole ← updateSafroleState prims safroleInput s.timeslotIndex s.entropyPool s.validatorState
  let availability ← calculateIntermediateCoreFromAssurances prims
    safrole.validatorState.currentValidators intermediateCoreAssignments header extrinsic.ea
  let reported ← calculateNewCoreAssignments prims extrinsic.eg availability.coreAssignments
    s.validatorState newTimeState safrole.entropyPool
  let newValidatorStatistics := calculateNewValidatorStatistics newBlock newTimeState
    s.validatorStatistics reported.reporters s.validatorState.currentValidators
  let workReports ← getAvailableWorkReports reported.newAssignments
  let accumulation ← calculateWorkReportsAndAccumulate prims.hashData fuel orders header s
    newTimeState workReports
  let newRecentBlocks := calculateNewRecentBlocks prims header extrinsic.eg
    (calculateIntermediateBlockState header s.recentBlocks) accumulation.hashPairs
  let newJudgements ←
    calculateNewJudgements prims newTimeState extrinsic.ed s.pastJudgements s.validatorState
  let newCoreAuthorizations := calculateNewCoreAuthorizations header extrinsic.eg
    accumulation.pendingAuthorizersQueues s.coreAuthorizersPool
  return {
    newState := { s with
      timeslotIndex := newTimeState
      entropyPool := safrole.entropyPool
      validatorState := { safrole.validatorState with
        queuedValidators := accumulation.validatorKeys }
      validatorStatistics := newValidatorStatistics
      recentBlocks := newRecentBlocks
      coreAssignments := reported.newAssignments
      pastJudgements := newJudgements
      coreAuthorizersPool := newCoreAuthorizations
      services := accumulation.serviceState
      privilegedServices := accumulation.privilegedServices
      accumulationQueue := accumulation.accumulationQueue
      accumulationHistory := accumulation.accumulationHistory }
    workReports }

structure Stages (s : State) (newBlock : Block) (chain : Chain) (t : Transition) where
  safroleInput : SafroleInput
  safrole : SafroleUpdate
  availability : Availability
  reported : Reported
  accumulation : BlockAccumulation
  judgements : Judgements
  notInFuture : newBlock.header.timeSlotIndex ≤ now
  guaranteesValid : validateExtrinsicGuarantees prims newBlock.header s newBlock.extrinsic.eg
    s.coreAssignments newBlock.header.timeSlotIndex chain = .ok ()
  safroleInput_eq : newSafroleInputFromBlock prims newBlock = .ok safroleInput
  safrole_eq : updateSafroleState prims safroleInput s.timeslotIndex s.entropyPool
    s.validatorState = .ok safrole
  availability_eq : calculateIntermediateCoreFromAssurances prims
    safrole.validatorState.currentValidators
    (calculateIntermediateCoreAssignmentsFromExtrinsics prims newBlock.extrinsic.ed
      s.coreAssignments) newBlock.header newBlock.extrinsic.ea = .ok availability
  reported_eq : calculateNewCoreAssignments prims newBlock.extrinsic.eg
    availability.coreAssignments s.validatorState newBlock.header.timeSlotIndex
    safrole.entropyPool = .ok reported
  workReports_eq : getAvailableWorkReports reported.newAssignments = .ret t.workReports
  accumulation_eq : calculateWorkReportsAndAccumulate prims.hashData fuel orders newBlock.header s
    newBlock.header.timeSlotIndex t.workReports = .ret accumulation
  judgements_eq : calculateNewJudgements prims newBlock.header.timeSlotIndex newBlock.extrinsic.ed
    s.pastJudgements s.validatorState = .ok judgements
  newState_eq : t.newState = { s with
    timeslotIndex := newBlock.header.timeSlotIndex
    entropyPool := safrole.entropyPool
    validatorState := { safrole.validatorState with
      queuedValidators := accumulation.validatorKeys }
    validatorStatistics := calculateNewValidatorStatistics newBlock newBlock.header.timeSlotIndex
      s.validatorStatistics reported.reporters s.validatorState.currentValidators
    recentBlocks := calculateNewRecentBlocks prims newBlock.header newBlock.extrinsic.eg
      (calculateIntermediateBlockState newBlock.header s.recentBlocks) accumulation.hashPairs
    coreAssignments := reported.newAssignments
    pastJudgements := judgements
    coreAuthorizersPool := calculateNewCoreAuthorizations newBlock.header newBlock.extrinsic.eg
      accumulation.pendingAuthorizersQueues s.coreAuthorizersPool
    services := accumulation.serviceState
    privilegedServices := accumulation.privilegedServices
    accumulationQueue := accumulation.accumulationQueue
    accumulationHistory := accumulation.accumulationHistory }

theorem transition_eq_ok {s : State} {newBlock : Block} {chain : Chain} {t : Transition} :
    transition prims now fuel orders s newBlock chain = .ok t ↔
      Nonempty (Stages prims now fuel orders s newBlock chain t) := by
  simp only [transition, Call.bind_eq_ok, Call.check_eq_ok, Call.lift_except_eq_ok,
    Call.lift_outcome_eq_ok, Call.pure_eq_ok, mapError_eq_ok, decide_eq_true_eq]
  constructor
  · rintro ⟨-, hnow, ⟨⟩, hvalid, input, hinput, safrole, hsafrole, availability, havailability,
      reported, hreported, workReports, hworkReports, accumulation, haccumulation, judgements,
      hjudgements, rfl⟩
    exact ⟨{
      safroleInput := input, safrole, availability, reported, accumulation, judgements
      notInFuture := hnow
      guaranteesValid := hvalid
      safroleInput_eq := hinput
      safrole_eq := hsafrole
      availability_eq := havailability
      reported_eq := hreported
      workReports_eq := hworkReports
      accumulation_eq := haccumulation
      judgements_eq := hjudgements
      newState_eq := rfl }⟩
  · rintro ⟨st⟩
    refine ⟨(), st.notInFuture, (), st.guaranteesValid, _, st.safroleInput_eq, _, st.safrole_eq, _,
      st.availability_eq, _, st.reported_eq, _, st.workReports_eq, _, st.accumulation_eq, _,
      st.judgements_eq, ?_⟩
    rw [← st.newState_eq]

end Strawberry.StateTransition
