import Strawberry.Merkle
import Strawberry.StateTransition.Assurances
import Strawberry.StateTransition.Disputes

/-!
# Guarantees

`ValidateExtrinsicGuarantees` and `CalculateNewCoreAssignments`: which reports may enter
the table of the cores, and who may vouch for them.
-/

namespace Strawberry.StateTransition

open Block State Constants

structure Chain where
  closed : Bool
  headers : Except ChainError (List (Except ChainError Header))

def findFirst (fn : Header → Bool) : List (Except ChainError Header) → Except ChainError Header
  | [] => .ok .zero
  | entry :: entries => do
    let header ← entry
    if fn header then return header else findFirst fn entries

def Chain.findHeader (chain : Chain) (fn : Header → Bool) : Except ChainError Header := do
  check (!chain.closed) .chainClosed
  let headers ← chain.headers
  findFirst fn headers

variable (prims : Primitives)

def packageHash (guarantee : Guarantee) : Hash :=
  guarantee.workReport.workPackageSpecification.workPackageHash

def recentBlockPrerequisites (recentBlocks : List BlockState) : GoMap Hash Hash :=
  recentBlocks.foldl (fun m recentBlock => m.copy recentBlock.workReportHashes) ∅

def checkDuplicates (past : Finset Hash) : List Guarantee → Finset Hash → Except TransitionError Unit
  | [], _ => .ok ()
  | guarantee :: guarantees, seenPackages => do
    check (packageHash guarantee ∉ seenPackages) .duplicatePackage
    check (packageHash guarantee ∉ past) .duplicatePackage
    checkDuplicates past guarantees (insert (packageHash guarantee) seenPackages)

def isAssignmentValid (currentAssignment : Option Assignment) (newTimeslot : Timeslot) : Bool :=
  match currentAssignment with
  | none => true
  | some assignment =>
    assignment.workReport.isNone || isAssignmentStale currentAssignment newTimeslot

def checkWorkResult (services : Service.ServiceState) (result : WorkResult) :
    Except TransitionError Unit :=
  match services.lookup result.serviceId with
  | none => .error .badServiceId
  | some account => check (result.serviceHashCode = account.codeHash) .badCodeHash

def checkGuarantee (header : Header) (s : State) (currentAssignment : CoreAssignments)
    (newTimeslot : Timeslot) (guarantee : Guarantee) : Except TransitionError Unit := do
  let report := guarantee.workReport
  check (guarantee.timeslot ≤ header.timeSlotIndex) .futureReportSlot
  check (guarantee.credentials.all (·.validatorIndex.toNat < numberOfValidators)) .badValidatorIndex
  report.workResults.forM (checkWorkResult s.services)
  if h : report.coreIndex.toNat < totalNumberOfCores then do
    let core : Core := ⟨report.coreIndex.toNat, h⟩
    check report.outputSizeIsValid .workReportTooBig
    check (report.authorizerHash ∈ s.coreAuthorizersPool.get core) .coreUnauthorized
    check (isAssignmentValid (currentAssignment.get core) newTimeslot) .coreEngaged
  else .error .badCoreIndex

structure Packages where
  contexts : Finset Hash
  extrinsicWorkPackages : GoMap Hash Hash
  prerequisitePackageHashes : Finset Hash
  pastWorkPackages : Finset Hash

def checkGas (services : Service.ServiceState) :
    List WorkResult → UInt64 → Except TransitionError Unit
  | [], totalGas => check (totalGas ≤ maxAllocatedGasAccumulation) .workReportGasTooHigh
  | r :: results, totalGas => do
    check ((services.getD r.serviceId .zero).gasLimitForAccumulator ≤ r.gasPrioritizationRatio)
      .serviceItemGasTooLow
    checkGas services results (totalGas + r.gasPrioritizationRatio)

def generateRefinementContextID (context : RefinementContext) : Hash := prims.sha256 context.encode

def computeWorkReportHash (workReport : WorkReport) : Except Jam.JamError Hash :=
  prims.sha256 <$> workReport.encodeStruct

def sameReport (queued report : WorkReport) : Except TransitionError Bool :=
  match computeWorkReportHash prims queued with
  | .error e => .error (.queuedReportHash e)
  | .ok wdHash =>
    match computeWorkReportHash prims report with
    | .error e => .error (.guaranteedReportHash e)
    | .ok currentGuaranteeHash => .ok (wdHash = currentGuaranteeHash)

def isQueued (queue : AccumulationQueue) (report : WorkReport) : Except TransitionError Bool := do
  let same ← queue.toList.flatten.mapM fun wd => sameReport prims wd.workReport report
  return same.any id

def assignedPrerequisites (assignments : CoreAssignments) : Finset Hash :=
  ((assignments.toList.filterMap fun a => a.bind (·.workReport)).flatMap
    (·.refinementContext.prerequisiteWorkPackage)).toFinset

def gatherPackages (s : State) (p : Packages) (guarantee : Guarantee) :
    Except TransitionError Packages := do
  let report := guarantee.workReport
  let prerequisites := report.refinementContext.prerequisiteWorkPackage
  checkGas s.services report.workResults 0
  check (prerequisites.length + report.segmentRootLookup.len ≤ workReportMaxSumOfDependencies)
    .tooManyDependencies
  let queued ← if prerequisites.isEmpty then .ok false
    else isQueued prims s.accumulationQueue report
  return {
    contexts := insert (generateRefinementContextID prims report.refinementContext) p.contexts
    extrinsicWorkPackages := p.extrinsicWorkPackages.insert (packageHash guarantee)
      report.workPackageSpecification.segmentRoot
    prerequisitePackageHashes :=
      p.prerequisitePackageHashes ∪ report.segmentRootLookup.keys ∪ prerequisites.toFinset
    pastWorkPackages :=
      p.pastWorkPackages ∪ (if queued then prerequisites.toFinset else ∅) ∪
        assignedPrerequisites s.coreAssignments }

def anchorBlockInRecentBlocks (context : RefinementContext) (s : State) :
    Except TransitionError Unit :=
  match s.recentBlocks.find? (·.headerHash = context.anchor.headerHash) with
  | none => .error .anchorNotRecent
  | some y => do
    check (context.anchor.posteriorStateRoot = y.stateRoot) .badStateRoot
    check (context.anchor.posteriorBeefyRoot =
      Merkle.superPeak prims.keccakData y.accumulationResultMMR) .badBeefyMmrRoot

def checkContext (header : Header) (s : State) (chain : Chain) (contexts : Finset Hash)
    (guarantee : Guarantee) : Except TransitionError Unit := do
  let context := guarantee.workReport.refinementContext
  let lookupAnchor := context.lookupAnchor
  check (generateRefinementContextID prims context ∈ contexts) .contextNotFound
  anchorBlockInRecentBlocks prims context s
  check (lookupAnchor.timeslot < header.timeSlotIndex - maxTimeslotsForPreimage)
    (.lookupAnchorAge lookupAnchor.timeslot header.timeSlotIndex)
  match chain.findHeader fun ancestor =>
      ancestor.timeSlotIndex = lookupAnchor.timeslot ∧
        ancestor.hash prims.hashData = lookupAnchor.headerHash with
  | .error e => .error (.noRecordOfHeader e)
  | .ok _ => .ok ()

def checkSegmentRoots (known : GoMap Hash Hash) (guarantee : Guarantee) :
    Except TransitionError Unit :=
  check (decide (∀ k ∈ guarantee.workReport.segmentRootLookup.keys, known.getD k (.replicate 32 0) =
      guarantee.workReport.segmentRootLookup.getD k (.replicate 32 0))) .segmentRootLookupInvalid

def verifyGuaranteeAge (guarantee : Guarantee) (currentTimeslot : Timeslot) :
    Except TransitionError Unit := do
  check (guarantee.timeslot ≤ currentTimeslot) .guaranteeFromFuture
  check (currentTimeslot / validatorRotationPeriod - guarantee.timeslot / validatorRotationPeriod
    ≤ 1) .reportEpochBeforeLast

def checkCredentials (known : GoMap Hash Hash) (newTimeslot : Timeslot) (guarantee : Guarantee) :
    Except TransitionError Unit := do
  checkSegmentRoots known guarantee
  check (guarantee.credentials.IsChain fun a b => a.validatorIndex < b.validatorIndex)
    .guarantorsNotSortedUnique
  check (2 ≤ guarantee.credentials.length) .insufficientGuarantees
  verifyGuaranteeAge guarantee newTimeslot

def isGuaranteesSortedByCoreIndex (guarantees : List Guarantee) : Bool :=
  guarantees.IsChain fun a b => a.workReport.coreIndex < b.workReport.coreIndex

def validateExtrinsicGuarantees (header : Header) (s : State) (guarantees : List Guarantee)
    (currentAssignment : CoreAssignments) (newTimeslot : Timeslot) (chain : Chain) :
    Except TransitionError Unit := do
  let recent := recentBlockPrerequisites s.recentBlocks
  checkDuplicates recent.keys guarantees ∅
  guarantees.forM (checkGuarantee header s currentAssignment newTimeslot)
  let p ← guarantees.foldlM (gatherPackages prims s) ⟨∅, ∅, ∅, recent.keys⟩
  check (p.extrinsicWorkPackages.len = guarantees.length) .packagesAndReportsDiffer
  guarantees.forM (checkContext prims header s chain p.contexts)
  check (Disjoint p.extrinsicWorkPackages.keys p.pastWorkPackages) .reportedInThePast
  let known := p.extrinsicWorkPackages.copy recent
  guarantees.forM (checkSegmentRoots known)
  check (p.prerequisitePackageHashes ⊆ known.keys) .dependencyMissing
  check (isGuaranteesSortedByCoreIndex guarantees) .outOfOrderGuarantee
  guarantees.forM (checkCredentials known newTimeslot)

def generateRandomNumbers (h : Hash) (l : Nat) : List UInt32 :=
  (List.range l).map fun i =>
    let hash := prims.hashData (h.toList ++ encodeUint32 (UInt32.ofNat (i / 8)))
    UInt32.ofNat (Jam.leNat ((hash.toList.drop (4 * i % 32)).take 4))

def recursiveShuffle : List UInt32 → List UInt32 → List UInt32
  | [], _ => []
  | _ :: _, [] => []
  | s₀ :: s, r₀ :: r =>
    let l := s.length + 1
    let index := r₀.toNat % l
    let head := (s₀ :: s).getD index 0
    let last := (s₀ :: s).getD (l - 1) 0
    head :: recursiveShuffle (((s₀ :: s).set index last).take (l - 1)) r
termination_by structural _ r => r

def deterministicShuffle (s : List UInt32) (h : Hash) : List UInt32 :=
  recursiveShuffle s (generateRandomNumbers prims h s.length)

def rotateSequence (sequence : List UInt32) (n : UInt32) : List UInt32 :=
  sequence.map fun x => (x + n) % UInt32.ofNat totalNumberOfCores

def permuteAssignments (entropy : Hash) (timeslot : Timeslot) : List UInt32 :=
  let coreIndices := (List.range numberOfValidators).map fun i =>
    UInt32.ofNat (totalNumberOfCores * i / numberOfValidators)
  rotateSequence (deterministicShuffle prims coreIndices entropy)
    (timeslotInEpoch timeslot / validatorRotationPeriod)

def determineValidatorsAndDataForPermutation (guaranteeTimeslot currentTimeslot : Timeslot)
    (entropyPool : EntropyPool) (currentValidators archivedValidators : ValidatorsData) :
    ValidatorsData × Hash × Timeslot :=
  if guaranteeTimeslot / validatorRotationPeriod = currentTimeslot / validatorRotationPeriod then
    (currentValidators, entropyPool.get 2, currentTimeslot)
  else
    let timeslotForPermutation := currentTimeslot - validatorRotationPeriod
    if toEpoch currentTimeslot = toEpoch timeslotForPermutation then
      (currentValidators, entropyPool.get 2, timeslotForPermutation)
    else (archivedValidators, entropyPool.get 3, timeslotForPermutation)

def isValidatorAssignedToCore (validatorIndex coreIndex : UInt16) (coreAssignments : List UInt32) :
    Bool :=
  coreAssignments[validatorIndex.toNat]? = some coreIndex.toUInt32

def verifyCredentials (validators : ValidatorsData) (coreAssignments : List UInt32)
    (coreIndex : UInt16) (message : List UInt8) :
    List CredentialSignature → Finset Ed25519Key → Call TransitionError (Finset Ed25519Key)
  | [], reporters => .ok reporters
  | credential :: credentials, reporters => do
    let i := credential.validatorIndex
    Call.check (isValidatorAssignedToCore i coreIndex coreAssignments) .wrongAssignment
    Call.check (i.toNat < numberOfValidators) (.invalidCredentialIndex i)
    let key ← ed25519Of validators i.toNat
    Call.check (prims.ed25519Verify key message credential.signature) .badSignature
    verifyCredentials validators coreAssignments coreIndex message credentials
      (insert key reporters)

def verifyGuaranteeCredentials (guarantee : Guarantee) (validatorState : ValidatorState)
    (entropyPool : EntropyPool) (currentTimeslot : Timeslot) :
    Call TransitionError (Finset Ed25519Key) :=
  let (validators, entropy, timeslotForPermutation) :=
    determineValidatorsAndDataForPermutation guarantee.timeslot currentTimeslot entropyPool
      validatorState.currentValidators validatorState.archivedValidators
  match guarantee.workReport.encodeStruct with
  | .error e => .fail (.marshalWorkReport e)
  | .ok reportBytes =>
    verifyCredentials prims validators (permuteAssignments prims entropy timeslotForPermutation)
      guarantee.workReport.coreIndex (guaranteeMessage (prims.hashData reportBytes))
      guarantee.credentials ∅

structure Reported where
  newAssignments : CoreAssignments
  reporters : Finset Ed25519Key

def assignGuarantee (intermediateAssignments : CoreAssignments) (validatorState : ValidatorState)
    (newTimeslot : Timeslot) (entropyPool : EntropyPool) (r : Reported) (guarantee : Guarantee) :
    Call TransitionError Reported := do
  let previousRotationStart :=
    (newTimeslot / validatorRotationPeriod - 1) * validatorRotationPeriod
  Call.check (previousRotationStart ≤ guarantee.timeslot ∧ guarantee.timeslot ≤ newTimeslot)
    .timeslotOutOfRange
  let coreIndex := guarantee.workReport.coreIndex.toNat
  if h : coreIndex < totalNumberOfCores then
    if isAssignmentValid (intermediateAssignments.get ⟨coreIndex, h⟩) newTimeslot then do
      let guaranteeReporters ←
        verifyGuaranteeCredentials prims guarantee validatorState entropyPool newTimeslot
      return {
        newAssignments := r.newAssignments.set coreIndex
          (some ⟨some guarantee.workReport, newTimeslot⟩) h
        reporters := r.reporters ∪ guaranteeReporters }
    else return r
  else .crash .indexOutOfRange

def assignGuarantees (intermediateAssignments : CoreAssignments) (validatorState : ValidatorState)
    (newTimeslot : Timeslot) (entropyPool : EntropyPool) :
    List Guarantee → Reported → Call TransitionError Reported
  | [], r => .ok r
  | guarantee :: guarantees, r => do
    let r ← assignGuarantee prims intermediateAssignments validatorState newTimeslot entropyPool r
      guarantee
    assignGuarantees intermediateAssignments validatorState newTimeslot entropyPool guarantees r

def calculateNewCoreAssignments (guarantees : List Guarantee)
    (intermediateAssignments : CoreAssignments) (validatorState : ValidatorState)
    (newTimeslot : Timeslot) (entropyPool : EntropyPool) : Call TransitionError Reported :=
  assignGuarantees prims intermediateAssignments validatorState newTimeslot entropyPool guarantees
    ⟨intermediateAssignments, ∅⟩

section

variable {prims} {header : Header} {s : State} {table : CoreAssignments} {slot : Timeslot}
  {chain : Chain} {guarantee : Guarantee} {guarantees : List Guarantee}
  {vs : ValidatorState} {pool : EntropyPool}

def GuaranteedOn (guarantee : Guarantee) (core : Core) : Prop :=
  guarantee.workReport.coreIndex.toNat = core.val

theorem checkGuarantee_core (h : checkGuarantee header s table slot guarantee = .ok ()) :
    ∃ core, GuaranteedOn guarantee core ∧ isAssignmentValid (table.get core) slot := by
  simp only [checkGuarantee, bind_unit_eq_ok] at h
  obtain ⟨-, -, -, h⟩ := h
  split at h
  · next hcore =>
    simp only [bind_unit_eq_ok, check_eq_ok] at h
    exact ⟨⟨_, hcore⟩, rfl, h.2.2⟩
  · cases h

theorem validateExtrinsicGuarantees_core
    (h : validateExtrinsicGuarantees prims header s guarantees table slot chain = .ok ()) :
    ∀ g ∈ guarantees, ∃ core, GuaranteedOn g core ∧ isAssignmentValid (table.get core) slot := by
  simp only [validateExtrinsicGuarantees, bind_unit_eq_ok] at h
  intro g hg
  exact checkGuarantee_core (forM_eq_ok.mp h.2.1 g hg)

def Vouched (prims : Primitives) (validatorState : ValidatorState) (entropyPool : EntropyPool)
    (slot : Timeslot) (guarantee : Guarantee) : Prop :=
  ∃ reporters,
    verifyGuaranteeCredentials prims guarantee validatorState entropyPool slot = .ok reporters

theorem assignGuarantee_eq_ok {r r' : Reported}
    (h : assignGuarantee prims table vs slot pool r guarantee = .ok r') :
    ∃ core, GuaranteedOn guarantee core ∧ ((isAssignmentValid (table.get core) slot ∧
          Vouched prims vs pool slot guarantee ∧
          r'.newAssignments = r.newAssignments.set core (some ⟨some guarantee.workReport, slot⟩)) ∨
        (¬ isAssignmentValid (table.get core) slot ∧ r' = r)) := by
  simp only [assignGuarantee] at h
  obtain ⟨-, -, h⟩ := Call.bind_eq_ok.mp h
  split at h
  · next hcore =>
    refine ⟨⟨_, hcore⟩, rfl, ?_⟩
    split at h
    · next hvalid =>
      obtain ⟨reporters, hreporters, h⟩ := Call.bind_eq_ok.mp h
      exact .inl ⟨hvalid, ⟨reporters, hreporters⟩, by rw [← Call.pure_eq_ok.mp h]⟩
    · next hvalid => exact .inr ⟨hvalid, (Call.pure_eq_ok.mp h).symm⟩
  · cases h

theorem assignGuarantees_get {r r' : Reported}
    (h : assignGuarantees prims table vs slot pool guarantees r = .ok r')
    (core : Core) :
    (∃ g ∈ guarantees, GuaranteedOn g core ∧ Vouched prims vs pool slot g ∧
        r'.newAssignments.get core = some ⟨some g.workReport, slot⟩) ∨
      ((∀ g ∈ guarantees, GuaranteedOn g core → ¬ isAssignmentValid (table.get core) slot) ∧
        r'.newAssignments.get core = r.newAssignments.get core) := by
  induction guarantees generalizing r with
  | nil =>
    cases Call.ok_inj.mp h
    exact .inr ⟨by simp, rfl⟩
  | cons g guarantees ih =>
    obtain ⟨r₁, hround, h⟩ := Call.bind_eq_ok.mp h
    obtain ⟨core₁, hcore₁, hround⟩ := assignGuarantee_eq_ok hround
    rcases ih h with ⟨g', hg', hon, hvouched, hget⟩ | ⟨hrest, hget⟩
    · exact .inl ⟨g', List.mem_cons_of_mem _ hg', hon, hvouched, hget⟩
    by_cases hcore : core = core₁
    · subst hcore
      rcases hround with ⟨-, hvouched, hset⟩ | ⟨hbad, rfl⟩
      · refine .inl ⟨g, List.mem_cons_self, hcore₁, hvouched, ?_⟩
        rw [hget, hset, get_set, if_pos rfl]
      · refine .inr ⟨?_, hget⟩
        rw [List.forall_mem_cons]
        exact ⟨fun _ => hbad, hrest⟩
    · refine .inr ⟨?_, ?_⟩
      · rw [List.forall_mem_cons]
        exact ⟨fun hon => absurd (Fin.ext (hon.symm.trans hcore₁)) hcore, hrest⟩
      · rcases hround with ⟨-, -, hset⟩ | ⟨-, rfl⟩
        · rw [hget, hset, get_set, if_neg hcore]
        · exact hget

theorem assignGuarantees_vouched {r r' : Reported}
    (h : assignGuarantees prims table vs slot pool guarantees r = .ok r') :
    ∀ g ∈ guarantees, ∀ core, GuaranteedOn g core → isAssignmentValid (table.get core) slot →
      Vouched prims vs pool slot g := by
  induction guarantees generalizing r with
  | nil => simp
  | cons g guarantees ih =>
    obtain ⟨r₁, hround, h⟩ := Call.bind_eq_ok.mp h
    obtain ⟨core₁, hcore₁, hround⟩ := assignGuarantee_eq_ok hround
    rw [List.forall_mem_cons]
    refine ⟨?_, ih h⟩
    intro core hcore hvalid
    rcases hround with ⟨-, hvouched, -⟩ | ⟨hbad, -⟩
    · exact hvouched
    · rw [Fin.ext (hcore₁.symm.trans hcore)] at hbad
      exact absurd hvalid hbad

end

end Strawberry.StateTransition
