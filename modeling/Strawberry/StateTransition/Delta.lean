import Mathlib.Data.List.Sort
import Strawberry.HostCall.Accumulate

/-!
# Rounds of accumulation

`Delta1`, `ParallelDelta`, `SequentialDelta`. The order of the goroutines is an argument.
-/

namespace Strawberry.StateTransition

open Polkavm Interpreter Service State Block HostCall

structure Accumulator where
  hashData : HashData
  headerTimeslot : Timeslot
  newTimeslot : Timeslot
  entropy : Hash

structure AccumulationOperand where
  output : WorkResultOutputOrError
  payloadHash : Hash
  workPackageHash : Hash
  authorizationOutput : List UInt8
  deriving DecidableEq

def AccumulationOperand.encode (o : AccumulationOperand) : Except Jam.JamError (List UInt8) :=
  match o.output.encode with
  | .error e => .error (.encodingStructField "Output" e)
  | .ok output =>
    .ok (output ++ o.payloadHash.toList ++ o.workPackageHash.toList ++
      Jam.encodeBytes o.authorizationOutput)

def accumulateArgs (newTime : Timeslot) (serviceIndex : ServiceId)
    (accOperand : List AccumulationOperand) : Except Jam.JamError (List UInt8) :=
  match encodeSliceM AccumulationOperand.encode accOperand with
  | .error e => .error (.encodingStructField "AccumulationOperands" e)
  | .ok operands => .ok (encodeUint32 newTime ++ encodeUint32 serviceIndex ++ operands)

def newServiceID (a : Accumulator) (serviceIndex : ServiceId) : ServiceId :=
  let hash := a.hashData
    (encodeUint32 serviceIndex ++ a.entropy.toList ++ encodeUint32 a.headerTimeslot)
  (Jam.leUInt64 (hash.toList.take 4)).toUInt32

def newCtx (a : Accumulator) (u : AccumulationState) (serviceIndex : ServiceId) :
    Outcome AccumulateContext := do
  let newServiceId ← deriveIndex (newServiceID a serviceIndex) u.serviceState
  return {
    serviceId := serviceIndex
    accumulationState :=
      { u with
        serviceState := Finmap.singleton serviceIndex (u.serviceState.getD serviceIndex .zero) }
    newServiceId
    deferredTransfers := []
    accumulationHash := none }

def currentService (accState : AccumulationState) (serviceIndex : ServiceId)
    (ctx : AccumulateContextPair) : ServiceAccount :=
  let own := ctx.regularCtx.serviceAccount
  { accState.serviceState.getD serviceIndex .zero with
    storage := own.storage
    preimageLookup := own.preimageLookup
    preimageMeta := own.preimageMeta }

def withContexts {X : Type} (ctx : X → AccumulateContextPair) (r : HostResult X) :
    HostResult AccumulateContextPair :=
  ⟨r.gas, r.regs, r.mem, ctx r.x, r.err⟩

def accumulateCost : Gas := 10

def accumulateHostCall (a : Accumulator) (accState : AccumulationState) (serviceIndex : ServiceId) :
    HostCall AccumulateContextPair := fun hostCall gasCounter regs mem ctx =>
  let current := currentService accState serviceIndex ctx
  let services := ctx.regularCtx.accumulationState.serviceState
  match HostFunction.ofNumber hostCall with
  | some .gasID => withContexts (fun _ => ctx) <$> gasRemaining gasCounter regs mem
  | some .lookupID =>
    withContexts (fun _ => setOwn ctx current) <$>
      lookup gasCounter regs mem current serviceIndex services
  | some .readID =>
    withContexts (fun _ => setOwn ctx current) <$>
      read a.hashData gasCounter regs mem current serviceIndex services
  | some .writeID =>
    withContexts (setOwn ctx) <$> write a.hashData gasCounter regs mem current serviceIndex
  | some .infoID =>
    withContexts (fun _ => setOwn ctx current) <$> info gasCounter regs mem serviceIndex services
  | some .blessID => bless gasCounter regs mem ctx
  | some .assignID => assign gasCounter regs mem ctx
  | some .designateID => designate gasCounter regs mem ctx
  | some .checkpointID => checkpoint gasCounter regs mem ctx
  | some .newID => new gasCounter regs mem ctx
  | some .upgradeID => upgrade gasCounter regs mem ctx
  | some .transferID => transfer gasCounter regs mem ctx
  | some .ejectID => eject gasCounter regs mem ctx a.headerTimeslot
  | some .queryID => query gasCounter regs mem ctx
  | some .solicitID => solicit gasCounter regs mem ctx a.headerTimeslot
  | some .forgetID => forget gasCounter regs mem ctx a.headerTimeslot
  | some .yieldID => yield gasCounter regs mem ctx
  | _ => .ret ⟨gasCounter - accumulateCost, withCode regs .what, mem, ctx, none⟩

structure Accumulated where
  accumulationState : AccumulationState
  deferredTransfers : List DeferredTransfer
  hash : Option Hash
  gas : UInt64

def selectContext (r : ProgramResult AccumulateContextPair) : Accumulated :=
  match r.err with
  | some _ =>
    ⟨r.x.exceptionalCtx.accumulationState, r.x.exceptionalCtx.deferredTransfers, none,
      r.gas.toUInt64⟩
  | none =>
    ⟨r.x.regularCtx.accumulationState, r.x.regularCtx.deferredTransfers,
      if r.result.length = 32 then some (hashOf r.result) else none, r.gas.toUInt64⟩

def invokePVM (a : Accumulator) (fuel : Nat) (accState : AccumulationState) (newTime : Timeslot)
    (serviceIndex : ServiceId) (gas : UInt64) (accOperand : List AccumulationOperand) :
    Outcome Accumulated := do
  let ctx ← newCtx a accState serviceIndex
  match (accState.serviceState.getD serviceIndex .zero).code with
  | none => return ⟨ctx.accumulationState, [], none, 0⟩
  | some code =>
    match accumulateArgs newTime serviceIndex accOperand with
    | .error _ => return ⟨ctx.accumulationState, [], none, 0⟩
    | .ok args =>
      let r ← invokeWholeProgram (accumulateHostCall a accState serviceIndex) fuel code 5 gas args
        ⟨ctx, ctx⟩
      return selectContext r

theorem invokePVM_cases {a : Accumulator} {fuel : Nat} {accState : AccumulationState}
    {newTime : Timeslot} {serviceIndex : ServiceId} {gas : UInt64}
    {accOperand : List AccumulationOperand} {res : Accumulated}
    (h : invokePVM a fuel accState newTime serviceIndex gas accOperand = .ret res) :
    ∃ ctx, newCtx a accState serviceIndex = .ret ctx ∧
      ((((accState.serviceState.getD serviceIndex .zero).code = none ∨
          ∃ code err, (accState.serviceState.getD serviceIndex .zero).code = some code ∧
            accumulateArgs newTime serviceIndex accOperand = .error err) ∧
          res = ⟨ctx.accumulationState, [], none, 0⟩) ∨
        ∃ code args r, (accState.serviceState.getD serviceIndex .zero).code = some code ∧
          accumulateArgs newTime serviceIndex accOperand = .ok args ∧
          invokeWholeProgram (accumulateHostCall a accState serviceIndex) fuel code 5 gas args
            ⟨ctx, ctx⟩ = .ret r ∧ res = selectContext r) := by
  rw [invokePVM, bind_eq_ret] at h
  obtain ⟨ctx, hctx, h⟩ := h
  refine ⟨ctx, hctx, ?_⟩
  split at h
  · next hcode =>
    cases h
    exact .inl ⟨.inl hcode, rfl⟩
  · next code hcode =>
    split at h
    · next err hargs =>
      cases h
      exact .inl ⟨.inr ⟨code, err, hcode, hargs⟩, rfl⟩
    · next args hargs =>
      rw [bind_eq_ret] at h
      obtain ⟨r, hr, h⟩ := h
      cases h
      exact .inr ⟨code, args, r, hcode, hargs, hr, rfl⟩

theorem newCtx_deferredTransfers {a : Accumulator} {u : AccumulationState}
    {serviceIndex : ServiceId} {ctx : AccumulateContext} (h : newCtx a u serviceIndex = .ret ctx) :
    ctx.deferredTransfers = [] := by
  rw [newCtx, bind_eq_ret] at h
  obtain ⟨_, -, h⟩ := h
  cases h
  rfl

variable (a : Accumulator) (fuel : Nat)

def serviceGas (workReports : List WorkReport) (privilegedGas : GoMap ServiceId UInt64)
    (serviceIndex : ServiceId) : UInt64 :=
  (workReports.flatMap (·.workResults)).foldl (fun gasLimit result =>
      if result.serviceId = serviceIndex then gasLimit + result.gasPrioritizationRatio
      else gasLimit)
    (privilegedGas.getD serviceIndex 0)

def serviceOperands (workReports : List WorkReport) (serviceIndex : ServiceId) :
    List AccumulationOperand :=
  workReports.flatMap fun report =>
    (report.workResults.filter fun result => result.serviceId = serviceIndex).map fun result =>
      { output := result.output
        payloadHash := result.payloadHash
        workPackageHash := report.workPackageSpecification.workPackageHash
        authorizationOutput := report.output }

def delta1 (accumulationState : AccumulationState) (workReports : List WorkReport)
    (privilegedGas : GoMap ServiceId UInt64) (serviceIndex : ServiceId) : Outcome Accumulated :=
  invokePVM a fuel accumulationState a.newTimeslot serviceIndex
    (serviceGas workReports privilegedGas serviceIndex) (serviceOperands workReports serviceIndex)

structure ServiceHashPair where
  serviceId : ServiceId
  hash : Hash
  deriving DecidableEq

structure Round where
  totalGasUsed : UInt64
  allTransfers : List DeferredTransfer
  accumHashPairs : List ServiceHashPair
  allResultServices : ServiceState
  resultServicesExclude : Finset ServiceId

def Round.empty : Round := ⟨0, [], [], ∅, ∅⟩

def Round.merge (initial : ServiceState) (serviceId : ServiceId) (res : Accumulated)
    (r : Round) : Round :=
  let accState := res.accumulationState.serviceState
  { totalGasUsed := r.totalGasUsed + res.gas
    allTransfers := r.allTransfers ++ res.deferredTransfers
    accumHashPairs := r.accumHashPairs ++ (res.hash.map (ServiceHashPair.mk serviceId)).toList
    allResultServices := r.allResultServices.copy
      (accState.filterKeys fun id => id = serviceId ∨ id ∉ initial)
    resultServicesExclude :=
      r.resultServicesExclude ∪ initial.keys.filter fun id => id ∉ accState }

def serviceIndices (workReports : List WorkReport) (privilegedGas : GoMap ServiceId UInt64) :
    Finset ServiceId :=
  ((workReports.flatMap (·.workResults)).map (·.serviceId)).toFinset ∪ privilegedGas.keys

def runServices (initialAccState : AccumulationState) (workReports : List WorkReport)
    (privilegedGas : GoMap ServiceId UInt64) (order : List ServiceId) (r : Round) :
    Outcome Round :=
  order.foldlM (fun r serviceId => do
    let res ← delta1 a fuel initialAccState workReports privilegedGas serviceId
    return r.merge initialAccState.serviceState serviceId res) r

def Round.services (initial : ServiceState) (r : Round) : ServiceState :=
  (initial.copy r.allResultServices).filterKeys fun id => id ∉ r.resultServicesExclude

structure DeltaResult where
  gasUsed : UInt64
  accState : AccumulationState
  transfers : List DeferredTransfer
  hashPairs : List ServiceHashPair

def parallelDelta (initialAccState : AccumulationState) (workReports : List WorkReport)
    (privilegedGas : GoMap ServiceId UInt64)
    (order : GoMap.Traversal (serviceIndices workReports privilegedGas)) : Outcome DeltaResult := do
  let r ← runServices a fuel initialAccState workReports privilegedGas order.keys .empty
  let p := initialAccState.privilegedServices
  let manager ← delta1 a fuel initialAccState workReports privilegedGas p.managerServiceId
  let assign ← delta1 a fuel initialAccState workReports privilegedGas p.assignServiceId
  let designate ← delta1 a fuel initialAccState workReports privilegedGas p.designateServiceId
  return {
    gasUsed := r.totalGasUsed
    accState :=
      { serviceState := r.services initialAccState.serviceState
        validatorKeys := assign.accumulationState.validatorKeys
        pendingAuthorizersQueues := designate.accumulationState.pendingAuthorizersQueues
        privilegedServices := manager.accumulationState.privilegedServices }
    transfers := r.allTransfers
    hashPairs := r.accumHashPairs.insertionSort fun x y => x.serviceId ≤ y.serviceId }

def Round.result (r : Round) (initial : ServiceState) (manager assign designate : Accumulated) :
    DeltaResult where
  gasUsed := r.totalGasUsed
  accState :=
    { serviceState := r.services initial
      validatorKeys := assign.accumulationState.validatorKeys
      pendingAuthorizersQueues := designate.accumulationState.pendingAuthorizersQueues
      privilegedServices := manager.accumulationState.privilegedServices }
  transfers := r.allTransfers
  hashPairs := r.accumHashPairs.insertionSort fun x y => x.serviceId ≤ y.serviceId

structure RoundRuns (initialAccState : AccumulationState) (workReports : List WorkReport)
    (privilegedGas : GoMap ServiceId UInt64) (order : List ServiceId) (r : Round)
    (manager assign designate : Accumulated) : Prop where
  services : runServices a fuel initialAccState workReports privilegedGas order .empty = .ret r
  manager : delta1 a fuel initialAccState workReports privilegedGas
    initialAccState.privilegedServices.managerServiceId = .ret manager
  assign : delta1 a fuel initialAccState workReports privilegedGas
    initialAccState.privilegedServices.assignServiceId = .ret assign
  designate : delta1 a fuel initialAccState workReports privilegedGas
    initialAccState.privilegedServices.designateServiceId = .ret designate

variable {a fuel} in
theorem parallelDelta_eq_ret {u : AccumulationState} {workReports : List WorkReport}
    {privilegedGas : GoMap ServiceId UInt64}
    {order : GoMap.Traversal (serviceIndices workReports privilegedGas)} {res : DeltaResult} :
    parallelDelta a fuel u workReports privilegedGas order = .ret res ↔
      ∃ r manager assign designate,
        RoundRuns a fuel u workReports privilegedGas order.keys r manager assign designate ∧
          res = r.result u.serviceState manager assign designate := by
  constructor
  · intro h
    rw [parallelDelta, bind_eq_ret] at h
    obtain ⟨r, hr, h⟩ := h
    simp only [bind_eq_ret] at h
    obtain ⟨manager, hmanager, assign, hassign, designate, hdesignate, h⟩ := h
    rw [pure_eq, Outcome.ret.injEq] at h
    exact ⟨r, manager, assign, designate, ⟨hr, hmanager, hassign, hdesignate⟩, h.symm⟩
  · rintro ⟨r, manager, assign, designate, ⟨hr, hmanager, hassign, hdesignate⟩, rfl⟩
    rw [parallelDelta, hr, ret_bind]
    dsimp only
    rw [hmanager, hassign, hdesignate, ret_bind, ret_bind, ret_bind]
    rfl

def reportGas (report : WorkReport) : UInt64 :=
  report.workResults.foldl (fun gas result => gas + result.gasPrioritizationRatio) 0

def affordable (gasLimit : UInt64) : List WorkReport → UInt64 → Nat
  | [], _ => 0
  | report :: reports, totalGas =>
    if gasLimit < totalGas + reportGas report then 0
    else affordable gasLimit reports (totalGas + reportGas report) + 1

abbrev Schedule := Nat → (s : Finset ServiceId) → GoMap.Traversal s

def sequentialDeltaWithin (schedule : Schedule) (privileged : PrivilegedServices) :
    Nat → UInt64 → List WorkReport → AccumulationState → Outcome (Nat × DeltaResult)
  | 0, _, _, _ => .hang
  | rounds + 1, gasLimit, workReports, ctx =>
    let maxReports := affordable gasLimit workReports 0
    if maxReports = 0 then .ret (0, ⟨0, ctx, [], []⟩)
    else do
      let r ← parallelDelta a fuel ctx (workReports.take maxReports)
        privileged.amountOfGasPerServiceId (schedule workReports.length _)
      let remainingGas := gasLimit - r.gasUsed
      if maxReports < workReports.length ∧ 0 < remainingGas then
        let (moreItems, more) ← sequentialDeltaWithin schedule privileged rounds remainingGas
          (workReports.drop maxReports) r.accState
        return (maxReports + moreItems, { more with
          transfers := r.transfers ++ more.transfers
          hashPairs := r.hashPairs ++ more.hashPairs })
      else return (maxReports, r)

def sequentialDelta (schedule : Schedule) (gasLimit : UInt64) (workReports : List WorkReport)
    (ctx : AccumulationState) (privileged : PrivilegedServices) : Outcome (Nat × DeltaResult) :=
  sequentialDeltaWithin a fuel schedule privileged (workReports.length + 1) gasLimit workReports ctx

end Strawberry.StateTransition
