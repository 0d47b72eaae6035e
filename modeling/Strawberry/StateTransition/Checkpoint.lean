import Strawberry.StateTransition.Gas

/-!
# Checkpoints

What `InvokePVM` returns after a run that went wrong, compared with the context at the last
checkpoint of that run.
-/

namespace Strawberry.StateTransition

open Polkavm Interpreter Service State HostCall

def noteCheckpoint (index : UInt64) (x : AccumulateContextPair)
    (r : HostResult AccumulateContextPair) (c : AccumulateContext) : AccumulateContext :=
  if HostFunction.ofNumber index = some .checkpointID ∧ r.err = none then x.regularCtx else c

def recording (hostCall : HostCall AccumulateContextPair) :
    HostCall (AccumulateContextPair × AccumulateContext) := observed noteCheckpoint hostCall

inductive RunRecord where
  | notStarted (ctx : AccumulateContext)
  | ended (ctx : AccumulateContext) (e : RunEnd (AccumulateContextPair × AccumulateContext))

def recordedRun (a : Accumulator) (fuel : Nat) (accState : AccumulationState) (newTime : Timeslot)
    (serviceIndex : ServiceId) (gas : UInt64) (accOperand : List AccumulationOperand) :
    Outcome RunRecord := do
  let ctx ← newCtx a accState serviceIndex
  match (accState.serviceState.getD serviceIndex .zero).code with
  | none => return .notStarted ctx
  | some code =>
    match accumulateArgs newTime serviceIndex accOperand with
    | .error _ => return .notStarted ctx
    | .ok args =>
      match ← setUp code 5 gas args with
      | .error _ => return .notStarted ctx
      | .ok i =>
        let e ← runHostCalls (recording (accumulateHostCall a accState serviceIndex)) fuel i
          (⟨ctx, ctx⟩, ctx)
        return .ended ctx e

section

variable {a : Accumulator} {accState : AccumulationState} {sid : ServiceId}

theorem exceptionalCtx_of_step {f : Option HostFunction} {x y : AccumulateContextPair}
    (h : ContextStep f x y) :
    y.exceptionalCtx = x.exceptionalCtx := by
  cases h <;> rfl

theorem recording_exceptional {index : UInt64} {gas : Gas} {regs : Registers} {mem : Memory}
    {y : AccumulateContextPair × AccumulateContext}
    {r : HostResult (AccumulateContextPair × AccumulateContext)}
    (h : recording (accumulateHostCall a accState sid) index gas regs mem y = .ret r)
    (hy : y.2 = y.1.exceptionalCtx) : r.x.2 = r.x.1.exceptionalCtx := by
  obtain ⟨r₀, hr₀, rfl⟩ := map_eq_ret.mp h
  obtain ⟨hgas, hctx, -⟩ := accumulateHostCall_post _ _ _ _ _ _ _ _ r₀ hr₀
  dsimp only [noteCheckpoint]
  rcases hctx with ⟨hcheck, hx⟩ | ⟨hno, hstep⟩
  · rw [if_pos ⟨hcheck.1, hgas.checkpoint hcheck⟩, hx]
  · have hrecord : ¬ (HostFunction.ofNumber index = some .checkpointID ∧ r₀.err = none) := by
      rintro ⟨hid, herr⟩
      have hlaw := hgas.served .checkpointID (by decide) (by decide) hid
      by_cases hpaid : gas < callCost
      · rw [GasLaw, if_pos hpaid, herr] at hlaw
        cases hlaw.2
      · exact hno ⟨hid, hpaid⟩
    rw [if_neg hrecord, exceptionalCtx_of_step hstep, hy]

theorem recorded_exceptional {fuel : Nat} {i : Instance} {ctx : AccumulateContext}
    {e : RunEnd (AccumulateContextPair × AccumulateContext)}
    (h : runHostCalls (recording (accumulateHostCall a accState sid)) fuel i
      (⟨ctx, ctx⟩, ctx) = .ret e) : e.x.2 = e.x.1.exceptionalCtx := by
  refine runHostCalls_invariant (I := fun y => y.2 = y.1.exceptionalCtx) h rfl ?_
  intro index gas regs mem y r hy hr
  exact recording_exceptional hr hy

end

def Accumulated.IsOf (res : Accumulated) (ctx : AccumulateContext) : Prop :=
  res.accumulationState = ctx.accumulationState ∧ res.deferredTransfers = ctx.deferredTransfers

def Agree (c c' : AccumulateContext) : Prop :=
  c.accumulationState = c'.accumulationState ∧ c.deferredTransfers = c'.deferredTransfers

def Aborts (e : Err) : Prop := e.IsPanic ∨ e = .outOfGas

def CheckpointLaw (res : Accumulated) : RunRecord → Prop
  | .notStarted ctx => res.IsOf ctx
  | .ended _ e =>
    (∀ err, e.exit = .machine err ∨ e.exit = .host err → Aborts err → res.IsOf e.x.2) ∧
      (e.exit = .machine .halt → res.IsOf e.x.1.regularCtx)

def Readable (i : Instance) : Prop := ∃ result, readResult i = .ret (.ok result)

def EndsLawfully : RunRecord → Prop
  | .notStarted _ => True
  | .ended ctx e =>
    match e.exit with
    | .host err => Aborts err → Agree ctx e.x.1.exceptionalCtx
    | .machine err =>
      (Aborts err → Readable e.machine → Agree e.x.1.regularCtx e.x.1.exceptionalCtx) ∧
        (Aborts err → ¬ Readable e.machine → Agree ctx e.x.1.exceptionalCtx) ∧
        (err = .halt → ¬ Readable e.machine → Agree ctx e.x.1.regularCtx)

theorem selectContext_error {x : AccumulateContextPair} {err : Err} {ctx : AccumulateContext} :
    (selectContext ⟨0, [], x, some err⟩).IsOf ctx ↔ Agree x.exceptionalCtx ctx := Iff.rfl

theorem selectContext_ok {x : AccumulateContextPair} {gas : Gas} {result : List UInt8}
    {ctx : AccumulateContext} :
    (selectContext ⟨gas, result, x, none⟩).IsOf ctx ↔ Agree x.regularCtx ctx := Iff.rfl

section

variable {ctx : AccumulateContext} {e : RunEnd (AccumulateContextPair × AccumulateContext)}

theorem checkpointLaw_machine {res : Accumulated} {err : Err} (hexit : e.exit = .machine err) :
    CheckpointLaw res (.ended ctx e) ↔
      (Aborts err → res.IsOf e.x.2) ∧ (err = .halt → res.IsOf e.x.1.regularCtx) := by
  simp [CheckpointLaw, hexit]

theorem checkpointLaw_host {res : Accumulated} {err : Err} (hexit : e.exit = .host err) :
    CheckpointLaw res (.ended ctx e) ↔ (Aborts err → res.IsOf e.x.2) := by
  simp [CheckpointLaw, hexit]

theorem checkpointLaw_iff_of_end {r : ProgramResult AccumulateContextPair}
    (hend : ProgramEnd ⟨ctx, ctx⟩ (e.map Prod.fst) r) (hex : e.x.2 = e.x.1.exceptionalCtx) :
    CheckpointLaw (selectContext r) (.ended ctx e) ↔ EndsLawfully (.ended ctx e) := by
  cases hend with
  | @host err hexit =>
    have hexit : e.exit = .host err := hexit
    rw [checkpointLaw_host hexit, selectContext_error, hex]
    simp only [EndsLawfully, hexit]
  | @unreadable err err' hexit hread =>
    have hexit : e.exit = .machine err := hexit
    have hread : readResult e.machine = .ret (.error err') := hread
    have hno : ¬ Readable e.machine := by
      rintro ⟨result, h⟩
      rw [hread] at h
      cases h
    rw [checkpointLaw_machine hexit, selectContext_error, selectContext_error, hex]
    simp only [EndsLawfully, hexit, hno, false_implies, implies_true, true_and, not_false_eq_true,
      true_implies]
  | @readable err result hexit hread =>
    have hexit : e.exit = .machine err := hexit
    have hyes : Readable e.machine := ⟨result, hread⟩
    rw [checkpointLaw_machine hexit, selectContext_ok, selectContext_ok, hex]
    simp only [EndsLawfully, hexit, hyes, not_true_eq_false, false_implies, implies_true, and_true,
      true_implies]
    exact ⟨fun h => h.1, fun h => ⟨h, fun _ => ⟨rfl, rfl⟩⟩⟩

end

/-- When a run that fails ends with its last checkpoint. -/
theorem checkpoint_law_iff (a : Accumulator) (fuel : Nat) (accState : AccumulationState)
    (newTime : Timeslot) (sid : ServiceId) (gas : UInt64)
    (accOperand : List AccumulationOperand) (res : Accumulated)
    (h : invokePVM a fuel accState newTime sid gas accOperand = .ret res) :
    ∃ run, recordedRun a fuel accState newTime sid gas accOperand = .ret run ∧
      (CheckpointLaw res run ↔ EndsLawfully run) := by
  obtain ⟨ctx, hctx, ⟨hcode, rfl⟩ | ⟨code, args, r, hcode, hargs, hr, rfl⟩⟩ := invokePVM_cases h
  · refine ⟨.notStarted ctx, ?_, iff_of_true ⟨rfl, (newCtx_deferredTransfers hctx).symm⟩ trivial⟩
    rcases hcode with hcode | ⟨code, err, hcode, hargs⟩
    · simp only [recordedRun, hctx, hcode, ret_bind, pure_eq]
    · simp only [recordedRun, hctx, hcode, hargs, ret_bind, pure_eq]
  · rcases invokeWholeProgram_cases hr with ⟨err, hsetUp, rfl⟩ | ⟨i, e₀, hsetUp, hrun, hend⟩
    · refine ⟨.notStarted ctx, ?_, iff_of_true ⟨rfl, rfl⟩ trivial⟩
      simp only [recordedRun, hctx, hcode, hargs, hsetUp, ret_bind, pure_eq]
    · have hmap := runHostCalls_map
        (observed_projects noteCheckpoint (accumulateHostCall a accState sid)) fuel i
        (⟨ctx, ctx⟩, ctx)
      rw [hrun] at hmap
      obtain ⟨e, he, rfl⟩ := map_eq_ret.mp hmap
      refine ⟨.ended ctx e, ?_, checkpointLaw_iff_of_end hend (recorded_exceptional he)⟩
      simp only [recordedRun, recording, hctx, hcode, hargs, hsetUp, he, ret_bind, pure_eq]

def upgradeThenTrap : List UInt8 :=
  [0, 0, 0, 0, 0, 0, 0, 0, 0, 0, 0, 26, 0, 0, 0] ++
    [0, 0, 10] ++ [0, 0, 0, 0, 0, 10, 10, 100, 0x18, 0] ++ [191, 2]

def oneService (code : List UInt8) : AccumulationState where
  serviceState := Finmap.singleton 1
    { ServiceAccount.zero with preimageLookup := Finmap.singleton (.replicate 32 0) code }
  validatorKeys := .replicate _ none
  pendingAuthorizersQueues := .replicate _ (.replicate _ (.replicate 32 0))
  privilegedServices := ⟨0, 0, 0, ∅⟩

theorem upgradeThenTrap_law_iff :
    ∃ res run, invokePVM nullAccumulator 2 (oneService upgradeThenTrap) 1 1 100 [] = .ret res ∧
      recordedRun nullAccumulator 2 (oneService upgradeThenTrap) 1 1 100 [] = .ret run ∧
      (CheckpointLaw res run ↔ EndsLawfully run) := by
  have hret : (invokePVM nullAccumulator 2 (oneService upgradeThenTrap) 1 1 100 []).Returns := by
    decide +kernel
  obtain ⟨res, hres⟩ := hret
  obtain ⟨run, hrun, hlaw⟩ := checkpoint_law_iff nullAccumulator 2 (oneService upgradeThenTrap) 1 1
    100 [] res hres
  exact ⟨res, run, hres, hrun, hlaw⟩

def codeHashOf (u : AccumulationState) : Hash := (u.serviceState.getD 1 .zero).codeHash

theorem trap_keeps_upgrade : ∃ res ctx e,
      invokePVM nullAccumulator 2 (oneService upgradeThenTrap) 1 1 100 [] = .ret res ∧
      recordedRun nullAccumulator 2 (oneService upgradeThenTrap) 1 1 100 [] =
        .ret (.ended ctx e) ∧
      e.exit = .machine (.panic .explicitTrap) ∧ ¬ CheckpointLaw res (.ended ctx e) := by
  have hpvm : (fun res => codeHashOf res.accumulationState) <$>
      invokePVM nullAccumulator 2 (oneService upgradeThenTrap) 1 1 100 [] =
        .ret ((Vector.replicate 32 0).set 0 1 |>.set 4 1) := by decide +kernel
  have hrecord : (fun run => match run with
        | .notStarted _ => none
        | .ended _ e => some (e.exit, codeHashOf e.x.2.accumulationState)) <$>
      recordedRun nullAccumulator 2 (oneService upgradeThenTrap) 1 1 100 [] =
        .ret (some (.machine (.panic .explicitTrap), .replicate 32 0)) := by decide +kernel
  obtain ⟨res, hres, hnew⟩ := map_eq_ret.mp hpvm
  obtain ⟨run, hrun, hold⟩ := map_eq_ret.mp hrecord
  cases run with
  | notStarted ctx => cases hold
  | ended ctx e =>
    simp only [Option.some.injEq, Prod.mk.injEq] at hold
    obtain ⟨hexit, hhash⟩ := hold
    refine ⟨res, ctx, e, hres, hrun, hexit, ?_⟩
    rw [checkpointLaw_machine hexit]
    rintro ⟨habort, -⟩
    have hstate := (habort (.inl trivial)).1
    rw [← hstate, hnew] at hhash
    exact absurd hhash (by decide)

open Finmap

inductive Reached (a : Accumulator) (accState : AccumulationState) (serviceIndex : ServiceId) :
    AccumulateContextPair → Prop where
  | start {ctx : AccumulateContext} (hctx : newCtx a accState serviceIndex = .ret ctx) :
    Reached a accState serviceIndex ⟨ctx, ctx⟩
  | call {ctx : AccumulateContextPair} {hostCall : UInt64} {gas : Gas} {regs : Registers}
    {mem : Memory} {r : HostResult AccumulateContextPair}
    (hctx : Reached a accState serviceIndex ctx)
    (hcall : accumulateHostCall a accState serviceIndex hostCall gas regs mem ctx = .ret r) :
    Reached a accState serviceIndex r.x

structure OwnPresent (serviceIndex : ServiceId) (ctx : AccumulateContext) : Prop where
  serviceId : ctx.serviceId = serviceIndex
  account : serviceIndex ∈ ctx.accumulationState.serviceState

section

variable {a : Accumulator} {accState : AccumulationState} {sid : ServiceId}
  {ctx : AccumulateContextPair} {hostCall : UInt64} {gas : Gas} {regs : Registers} {mem : Memory}
  {r : HostResult AccumulateContextPair}

theorem ownPresent_of_step {f : Option HostFunction} {x y : AccumulateContextPair}
    (h : ContextStep f x y) (hx : OwnPresent sid x.regularCtx) :
    OwnPresent sid y.regularCtx := by
  obtain ⟨rfl, hacc⟩ := hx
  cases h with
  | same => exact ⟨rfl, hacc⟩
  | fields u hid hstate _ => exact ⟨hid, hstate ▸ hacc⟩
  | sent t _ => exact ⟨rfl, hacc⟩
  | own account => exact ⟨rfl, mem_insert.mpr (.inl rfl)⟩
  | created _ newId account _ _ =>
    refine ⟨rfl, mem_insert.mpr (.inr ?_)⟩
    exact mem_insert.mpr (.inl rfl)
  | ejected _ d account _ _ _ => exact ⟨rfl, mem_insert.mpr (.inl rfl)⟩

theorem Reached.ownPresent (h : Reached a accState sid ctx) : OwnPresent sid ctx.regularCtx := by
  induction h with
  | start hctx =>
    rw [newCtx, bind_eq_ret] at hctx
    obtain ⟨newId, -, hctx⟩ := hctx
    cases hctx
    exact ⟨rfl, (mem_singleton _ _ _).mpr rfl⟩
  | call _ hcall ih =>
    have hstep := (accumulateHostCall_post _ _ _ _ _ _ _ _ _ hcall).contexts
    rcases hstep with ⟨-, hx⟩ | ⟨-, hstep⟩
    · rw [hx]
      exact ih
    · exact ownPresent_of_step hstep ih

def readOnlyFunctions : List HostFunction := [.lookupID, .readID, .infoID]

theorem read_only_effect {f : HostFunction} (hf : HostFunction.ofNumber hostCall = some f)
    (hread : f ∈ readOnlyFunctions)
    (hcall : accumulateHostCall a accState sid hostCall gas regs mem ctx = .ret r) :
    r.x = setOwn ctx (currentService accState sid ctx) := by
  simp only [readOnlyFunctions, List.mem_cons, List.not_mem_nil, or_false] at hread
  unfold accumulateHostCall at hcall
  rcases hread with rfl | rfl | rfl
  all_goals
    simp only [hf] at hcall
    obtain ⟨r₀, -, rfl⟩ := map_eq_ret.mp hcall
    rfl

theorem setOwn_eq_self_iff {account : ServiceAccount} (h : OwnPresent sid ctx.regularCtx) :
    setOwn ctx account = ctx ↔ account = ctx.regularCtx.serviceAccount := by
  obtain ⟨own, hown⟩ := mem_iff.mp h.account
  rw [← h.serviceId] at hown
  have hget : ctx.regularCtx.serviceAccount = own := GoMap.getD_of_lookup hown
  rw [hget]
  constructor
  · intro hself
    have hlookup := congrArg
      (fun c => c.regularCtx.accumulationState.serviceState.lookup ctx.regularCtx.serviceId) hself
    simp only [setOwn, AccumulateContext.setAccount, lookup_insert, hown] at hlookup
    exact Option.some.inj hlookup
  · rintro rfl
    unfold setOwn AccumulateContext.setAccount
    rw [GoMap.insert_of_lookup hown]

def scalars (account : ServiceAccount) : Hash × UInt64 × UInt64 × UInt64 :=
  (account.codeHash, account.balance, account.gasLimitForAccumulator, account.gasLimitOnTransfer)

theorem currentService_eq_iff : currentService accState sid ctx = ctx.regularCtx.serviceAccount ↔
      scalars ctx.regularCtx.serviceAccount = scalars (accState.serviceState.getD sid .zero) := by
  unfold currentService scalars
  rw [ServiceAccount.mk.injEq]
  simp only [Prod.mk.injEq, true_and, eq_comm]

end

/-- When a read-only call leaves the state alone. -/
theorem read_only_call_iff (a : Accumulator) (accState : AccumulationState)
    (sid : ServiceId) (ctx : AccumulateContextPair)
    (hctx : Reached a accState sid ctx) (hostCall : UInt64) (f : HostFunction)
    (hf : HostFunction.ofNumber hostCall = some f) (hread : f ∈ readOnlyFunctions) (gas : Gas)
    (regs : Registers) (mem : Memory) (r : HostResult AccumulateContextPair)
    (hcall : accumulateHostCall a accState sid hostCall gas regs mem ctx = .ret r) :
    r.x = ctx ↔ scalars ctx.regularCtx.serviceAccount =
        scalars (accState.serviceState.getD sid .zero) := by
  rw [read_only_effect hf hread hcall, setOwn_eq_self_iff hctx.ownPresent]
  exact currentService_eq_iff

theorem info_at_start_changes_nothing :
    ∃ ctx r, newCtx nullAccumulator (oneService []) 1 = .ret ctx ∧
      accumulateHostCall nullAccumulator (oneService []) 1 4 100 (withArgs 1 0 0 0) memoMemory
        ⟨ctx, ctx⟩ = .ret r ∧ r.x = ⟨ctx, ctx⟩ := by
  have hrun : (do
      let ctx ← newCtx nullAccumulator (oneService []) 1
      accumulateHostCall nullAccumulator (oneService []) 1 4 100 (withArgs 1 0 0 0) memoMemory
        ⟨ctx, ctx⟩).Returns := by decide +kernel
  obtain ⟨r, hr⟩ := hrun
  obtain ⟨ctx, hctx, hr⟩ := bind_eq_ret.mp hr
  have hiff := read_only_call_iff nullAccumulator (oneService []) 1 ⟨ctx, ctx⟩ (.start hctx) 4
    .infoID rfl (by decide) 100 (withArgs 1 0 0 0) memoMemory r hr
  refine ⟨ctx, r, hctx, hr, hiff.mpr ?_⟩
  obtain ⟨newId, -, hctx⟩ := bind_eq_ret.mp hctx
  cases hctx
  rfl

def newCodeMemory : Memory :=
  { Memory.emptyLayout with args := ⟨0xFEFF0000, List.replicate 32 1, .readOnly⟩ }

theorem info_undoes_upgrade : ∃ ctx r r', newCtx nullAccumulator (oneService []) 1 = .ret ctx ∧
      accumulateHostCall nullAccumulator (oneService []) 1 10 100 (withArgs 0xFEFF0000 0 0 0)
        newCodeMemory ⟨ctx, ctx⟩ = .ret r ∧
      accumulateHostCall nullAccumulator (oneService []) 1 4 100 (withArgs 1 0 0 0)
        newCodeMemory r.x = .ret r' ∧
      HostFunction.ofNumber 10 = some .upgradeID ∧ HostFunction.ofNumber 4 = some .infoID ∧
      codeHashOf r.x.regularCtx.accumulationState = .replicate 32 1 ∧
      codeHashOf r'.x.regularCtx.accumulationState = .replicate 32 0 ∧ r'.x ≠ r.x := by
  have hrun : (do
      let ctx ← newCtx nullAccumulator (oneService []) 1
      let r ← accumulateHostCall nullAccumulator (oneService []) 1 10 100
        (withArgs 0xFEFF0000 0 0 0) newCodeMemory ⟨ctx, ctx⟩
      let r' ← accumulateHostCall nullAccumulator (oneService []) 1 4 100 (withArgs 1 0 0 0)
        newCodeMemory r.x
      return (codeHashOf r.x.regularCtx.accumulationState,
        codeHashOf r'.x.regularCtx.accumulationState)) =
      .ret (.replicate 32 1, .replicate 32 0) := by decide +kernel
  obtain ⟨ctx, hctx, hrun⟩ := bind_eq_ret.mp hrun
  obtain ⟨r, hr, hrun⟩ := bind_eq_ret.mp hrun
  obtain ⟨r', hr', hrun⟩ := bind_eq_ret.mp hrun
  rw [pure_eq, Outcome.ret.injEq, Prod.mk.injEq] at hrun
  obtain ⟨hnew, hold⟩ := hrun
  refine ⟨ctx, r, r', hctx, hr, hr', rfl, rfl, hnew, hold, ?_⟩
  intro heq
  rw [heq, hnew] at hold
  exact absurd hold (by decide)

end Strawberry.StateTransition
