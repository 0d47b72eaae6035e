import Strawberry.HostCall.Balance
import Strawberry.Interpreter.Runs
import Strawberry.StateTransition.Delta

/-!
# The host calls of an accumulation

What a call of `Accumulate`'s dispatcher charges and does to the two contexts, and the bound on
the gas of a run that follows from it.
-/

namespace Strawberry.StateTransition

open Polkavm Interpreter Service State HostCall

def accumulateFunctions : List HostFunction := hostFunctions.take 17

def plainFunctions : List HostFunction :=
  accumulateFunctions.filter fun f => f ≠ .transferID ∧ f ≠ .checkpointID

def IsCheckpoint (hostCall : UInt64) (gas : Gas) : Prop :=
  HostFunction.ofNumber hostCall = some .checkpointID ∧ ¬ gas < callCost

structure DispatchedGas (hostCall : UInt64) (gas : Gas) (regs : Registers)
    (r : HostResult AccumulateContextPair) : Prop where
  transfer : HostFunction.ofNumber hostCall = some .transferID →
    GasLaw (callCost + (regs.get Reg.A2).toInt64) gas r ∧
      (¬ gas < callCost + (regs.get Reg.A2).toInt64 → r.err ≠ some .outOfGas)
  served : ∀ f ∈ accumulateFunctions, f ≠ .transferID → HostFunction.ofNumber hostCall = some f →
    GasLaw callCost gas r
  checkpoint : IsCheckpoint hostCall gas → r.err = none
  unknown : (∀ f ∈ accumulateFunctions, HostFunction.ofNumber hostCall ≠ some f) →
    r.gas = gas - accumulateCost ∧ r.err = none

def DispatchedContexts (hostCall : UInt64) (gas : Gas) (ctx ctx' : AccumulateContextPair) : Prop :=
  (IsCheckpoint hostCall gas ∧ ctx' = { ctx with exceptionalCtx := ctx.regularCtx }) ∨
    (¬ IsCheckpoint hostCall gas ∧ ContextStep (HostFunction.ofNumber hostCall) ctx ctx')

structure Dispatched (hostCall : UInt64) (gas : Gas) (regs : Registers)
    (ctx : AccumulateContextPair) (r : HostResult AccumulateContextPair) : Prop where
  charge : DispatchedGas hostCall gas regs r
  contexts : DispatchedContexts hostCall gas ctx r.x
  ready : HostFunction.ofNumber hostCall ≠ some .newID → SameReady ctx r

section

variable {hostCall : UInt64} {gas : Gas} {regs : Registers} {ctx : AccumulateContextPair}
  {f : HostFunction} {r : HostResult AccumulateContextPair}

def Kept (f : HostFunction) (ctx : AccumulateContextPair)
    (r : HostResult AccumulateContextPair) : Prop :=
  ContextStep (some f) ctx r.x ∧ (f ≠ .newID → SameReady ctx r)

theorem kept_same (hx : r.x = ctx) : Kept f ctx r := by
  rw [Kept, SameReady, hx]
  exact ⟨.same, fun _ => rfl⟩

theorem kept_own {account : ServiceAccount} (hx : r.x = setOwn ctx account) : Kept f ctx r := by
  rw [Kept, SameReady, hx]
  exact ⟨.own account, fun _ => rfl⟩

theorem dispatched_of_served (hf : HostFunction.ofNumber hostCall = some f)
    (hplain : f ∈ plainFunctions) (hgas : GasLaw callCost gas r) (hstep : Kept f ctx r) :
    Dispatched hostCall gas regs ctx r := by
  obtain ⟨hmem, hother⟩ := List.mem_filter.mp hplain
  obtain ⟨ht, hc⟩ := of_decide_eq_true hother
  have hno : ¬ IsCheckpoint hostCall gas := by
    rintro ⟨h, -⟩
    rw [hf] at h
    exact hc (Option.some.inj h)
  refine ⟨⟨?_, fun _ _ _ _ => hgas, fun h => absurd h hno, ?_⟩, .inr ⟨hno, hf ▸ hstep.1⟩, ?_⟩
  · intro h
    rw [hf] at h
    exact absurd (Option.some.inj h) ht
  · intro h
    exact absurd hf (h f hmem)
  · intro h
    exact hstep.2 fun hnew => h (hf.trans (congrArg some hnew))

theorem dispatched_checkpoint (hf : HostFunction.ofNumber hostCall = some .checkpointID)
    (hgas : GasLaw callCost gas r) (herr : ¬ gas < callCost → r.err = none)
    (hx : r.x = if gas < callCost then ctx else { ctx with exceptionalCtx := ctx.regularCtx }) :
    Dispatched hostCall gas regs ctx r := by
  refine ⟨⟨?_, fun _ _ _ _ => hgas, fun h => herr h.2, ?_⟩, ?_, fun _ => ?_⟩
  · intro h
    rw [hf] at h
    cases h
  · intro h
    exact absurd hf (h _ (by decide))
  · by_cases hpaid : gas < callCost
    · rw [hx, if_pos hpaid]
      exact .inr ⟨fun hc => hc.2 hpaid, .same⟩
    · rw [hx, if_neg hpaid]
      exact .inl ⟨⟨hf, hpaid⟩, rfl⟩
  · rw [SameReady, hx]
    split <;> rfl

theorem dispatched_transfer (hf : HostFunction.ofNumber hostCall = some .transferID)
    (hgas : GasLaw (callCost + (regs.get Reg.A2).toInt64) gas r ∧
      (¬ gas < callCost + (regs.get Reg.A2).toInt64 → r.err ≠ some .outOfGas))
    (hstep : ContextStep (some .transferID) ctx r.x) (hready : SameReady ctx r) :
    Dispatched hostCall gas regs ctx r := by
  have hno : ¬ IsCheckpoint hostCall gas := by
    rintro ⟨h, -⟩
    rw [hf] at h
    cases h
  refine ⟨⟨fun _ => hgas, ?_, fun h => absurd h hno, ?_⟩, .inr ⟨hno, hf ▸ hstep⟩, fun _ => hready⟩
  · intro f _ hne h
    rw [hf] at h
    exact absurd (Option.some.inj h).symm hne
  · intro h
    exact absurd hf (h _ (by decide))

theorem withContexts_post {X : Type} {o : Outcome (HostResult X)} {g : X → AccumulateContextPair}
    {Q : HostResult X → Prop} {Q' : HostResult AccumulateContextPair → Prop} (h : o.Post Q)
    (hQ : ∀ r, Q r → Q' (withContexts g r)) : (withContexts g <$> o).Post Q' := by
  intro r hr
  obtain ⟨r₀, hr₀, rfl⟩ := map_eq_ret.mp hr
  exact hQ r₀ (h r₀ hr₀)

end

theorem accumulateHostCall_post (a : Accumulator) (accState : AccumulationState)
    (serviceIndex : ServiceId) (hostCall : UInt64) (gas : Gas) (regs : Registers) (mem : Memory)
    (ctx : AccumulateContextPair) :
    (accumulateHostCall a accState serviceIndex hostCall gas regs mem ctx).Post
      (Dispatched hostCall gas regs ctx) := by
  unfold accumulateHostCall
  split
  · next hf =>
    exact withContexts_post gasRemaining_post fun r hr =>
      dispatched_of_served hf (by decide) hr (kept_same rfl)
  · next hf =>
    exact withContexts_post lookup_post fun r hr =>
      dispatched_of_served hf (by decide) hr (kept_own rfl)
  · next hf =>
    exact withContexts_post read_post fun r hr =>
      dispatched_of_served hf (by decide) hr (kept_own rfl)
  · next hf =>
    exact withContexts_post write_post fun r hr =>
      dispatched_of_served hf (by decide) hr.1 (kept_own rfl)
  · next hf =>
    exact withContexts_post info_post fun r hr =>
      dispatched_of_served hf (by decide) hr (kept_own rfl)
  · next hf =>
    exact bless_post.mono fun r hr =>
      dispatched_of_served hf (by decide) hr.1 ⟨hr.2.1, fun _ => hr.2.2⟩
  · next hf =>
    exact assign_post.mono fun r hr =>
      dispatched_of_served hf (by decide) hr.1 ⟨hr.2.1, fun _ => hr.2.2⟩
  · next hf =>
    exact designate_post.mono fun r hr =>
      dispatched_of_served hf (by decide) hr.1 ⟨hr.2.1, fun _ => hr.2.2⟩
  · next hf =>
    exact checkpoint_post.mono fun r hr => dispatched_checkpoint hf hr.1 hr.2.1 hr.2.2
  · next hf =>
    refine new_post.mono fun r hr => dispatched_of_served hf (by decide) hr.1 ?_
    rcases hr.2 with ⟨newId, account, -, -, -, hfresh, hcheck, hx⟩ | ⟨-, -, hx, -⟩
    · rw [Kept, hx]
      exact ⟨.created rfl newId account hfresh (checkIndex_notMem hcheck), fun h => absurd rfl h⟩
    · exact kept_same hx
  · next hf =>
    refine upgrade_post.mono fun r hr => dispatched_of_served hf (by decide) hr.1 ?_
    rcases hr.2 with hx | ⟨_, -, hx⟩
    · exact kept_same hx
    · exact kept_own hx
  · next hf =>
    refine transfer_post.mono fun r hr => ?_
    have hkept : ContextStep (some .transferID) ctx r.x ∧ SameReady ctx r := by
      rcases hr.2.2 with ⟨t, -, -, -, hsender, hx⟩ | ⟨-, hx, -⟩
      · rw [SameReady, hx]
        exact ⟨.sent t hsender, rfl⟩
      · rw [SameReady, hx]
        exact ⟨.same, rfl⟩
    exact dispatched_transfer hf ⟨hr.1, hr.2.1⟩ hkept.1 hkept.2
  · next hf =>
    refine eject_post.mono fun r hr => dispatched_of_served hf (by decide) hr.1 ?_
    rcases hr.2 with ⟨account, ⟨-, hd, hget, h, -, hok⟩, -, hx⟩ | ⟨-, hx⟩
    · rw [Kept, SameReady, hx]
      exact ⟨.ejected rfl _ account hd hget (ejectable_totalItems hok), fun _ => rfl⟩
    · exact kept_same hx
  · next hf =>
    exact query_post.mono fun r hr => dispatched_of_served hf (by decide) hr.1 (kept_same hr.2)
  · next hf =>
    refine solicit_post.mono fun r hr => dispatched_of_served hf (by decide) hr.1 ?_
    rcases hr.2 with ⟨hx, -⟩ | ⟨_, _, _, -, -, -, hx, -, -⟩
    · exact kept_same hx
    · exact kept_own hx
  · next hf =>
    refine forget_post.mono fun r hr => dispatched_of_served hf (by decide) hr.1 ?_
    rcases hr.2 with hx | ⟨-, _, _, -, -, hx⟩
    · exact kept_same hx
    · exact kept_own hx
  · next hf =>
    exact yield_post.mono fun r hr =>
      dispatched_of_served hf (by decide) hr.1 ⟨hr.2.1, fun _ => hr.2.2.1⟩
  · -- the default branch: no identifier of the list leads here
    refine post_ret.mpr ⟨⟨?_, ?_, fun _ => rfl, fun _ => ⟨rfl, rfl⟩⟩, .inr ⟨?_, .same⟩,
      fun _ => rfl⟩
    · simp_all
    · intro f hmem _ h
      simp only [accumulateFunctions, hostFunctions, List.take_succ_cons, List.take_zero,
        List.mem_cons, List.not_mem_nil, or_false] at hmem
      rcases hmem with rfl | rfl | rfl | rfl | rfl | rfl | rfl | rfl | rfl | rfl | rfl | rfl | rfl |
        rfl | rfl | rfl | rfl <;> simp_all
    · rintro ⟨h, -⟩
      simp_all

def Metered {X : Type} (gas : Gas) (r : HostResult X) : Prop :=
  (0 ≤ r.gas.toInt ∧ r.gas.toInt < gas.toInt) ∨ (r.gas = gas ∧ r.err = some .outOfGas)

def FairCall : CallCondition AccumulateContextPair := fun hostCall gas regs _ _ =>
  (HostFunction.ofNumber hostCall = some .transferID →
    (regs.get Reg.A2).toNat < 2 ^ 63 - 10 ∨ 2 ^ 64 - 10 < (regs.get Reg.A2).toNat) ∧
  ((∀ f ∈ accumulateFunctions, HostFunction.ofNumber hostCall ≠ some f) → 10 ≤ gas.toInt)

section

variable {X : Type} {cost gas : Gas} {r : HostResult X}

theorem metered_of_cost_pos (hgas : 0 ≤ gas.toInt) (hcost : 0 < cost.toInt)
    (h : GasLaw cost gas r) : Metered gas r := by
  unfold GasLaw at h
  split at h
  · exact .inr h
  · next hpaid =>
    have hle : cost.toInt ≤ gas.toInt := by
      rw [Int64.lt_iff_toInt_lt] at hpaid
      omega
    have hlt := gas.toInt_lt
    have hsub : (gas - cost).toInt = gas.toInt - cost.toInt :=
      toInt_sub_of_le (by omega) (by omega)
    rw [Metered, h, hsub]
    exact .inl ⟨by omega, by omega⟩

theorem not_metered_of_cost_nonpos (hgas : 0 ≤ gas.toInt) (hcost : cost.toInt ≤ 0)
    (h : GasLaw cost gas r) (herr : ¬ gas < cost → r.err ≠ some .outOfGas) : ¬ Metered gas r := by
  have hpaid : ¬ gas < cost := by
    rw [Int64.lt_iff_toInt_lt]
    omega
  rw [GasLaw, if_neg hpaid] at h
  rintro (⟨h₀, hlt⟩ | ⟨-, hout⟩)
  · have hsub := toInt_sub_wrap hgas hcost
    have hge := cost.le_toInt
    have hhi := gas.toInt_lt
    rw [h] at h₀ hlt
    split at hsub <;> omega
  · exact herr hpaid hout

end

theorem transferCost_pos_iff (l : UInt64) :
    0 < (callCost + l.toInt64).toInt ↔ l.toNat < 2 ^ 63 - 10 ∨ 2 ^ 64 - 10 < l.toNat := by
  have hl := toInt_toInt64 l
  have hlt := l.toNat_lt
  have hten : callCost.toInt = 10 := by decide
  rw [Int64.toInt_add, hten, hl, Int.bmod_def]
  split <;> split <;> omega

variable {gas : Gas} {hostCall : UInt64} {regs : Registers} {mem : Memory}
  {ctx : AccumulateContextPair} {r : HostResult AccumulateContextPair} {a : Accumulator}
  {accState : AccumulationState} {serviceIndex : ServiceId}

theorem unknown_metered_iff {X : Type} {r : HostResult X} (hgas : 0 ≤ gas.toInt)
    (h : r.gas = gas - accumulateCost ∧ r.err = none) : Metered gas r ↔ 10 ≤ gas.toInt := by
  have hten : accumulateCost.toInt = 10 := by decide
  have hlt := gas.toInt_lt
  have hsub : (gas - accumulateCost).toInt = gas.toInt - accumulateCost.toInt :=
    toInt_sub_of_le (by omega) (by omega)
  rw [Metered, h.1, h.2, hsub, hten]
  simp only [reduceCtorEq, and_false, or_false]
  omega

theorem dispatched_metered_iff (hgas : 0 ≤ gas.toInt) (h : DispatchedGas hostCall gas regs r) :
    Metered gas r ↔ FairCall hostCall gas regs mem ctx := by
  have hten : (0 : Int) < callCost.toInt := by decide
  unfold FairCall
  by_cases ht : HostFunction.ofNumber hostCall = some .transferID
  · obtain ⟨hlaw, herr⟩ := h.transfer ht
    constructor
    · intro hm
      refine ⟨fun _ => (transferCost_pos_iff _).mp ?_, fun hall => ?_⟩
      · by_contra hneg
        exact not_metered_of_cost_nonpos hgas (by omega) hlaw herr hm
      · exact absurd ht (hall .transferID (by decide))
    · intro hfair
      exact metered_of_cost_pos hgas ((transferCost_pos_iff _).mpr (hfair.1 ht)) hlaw
  · simp only [ht, false_implies, true_and]
    by_cases hserved : ∃ f ∈ accumulateFunctions, HostFunction.ofNumber hostCall = some f
    · obtain ⟨f, hmem, hf⟩ := hserved
      have hne : f ≠ .transferID := by
        rintro rfl
        exact ht hf
      refine ⟨fun _ hall => absurd hf (hall f hmem), fun _ => ?_⟩
      exact metered_of_cost_pos hgas hten (h.served f hmem hne hf)
    · have hall : ∀ f ∈ accumulateFunctions, HostFunction.ofNumber hostCall ≠ some f :=
        fun f hmem hf => hserved ⟨f, hmem, hf⟩
      rw [unknown_metered_iff hgas (h.unknown hall)]
      exact ⟨fun hle _ => hle, fun hle => hle hall⟩

theorem accumulateHostCall_metered_iff (hgas : 0 ≤ gas.toInt)
    (h : accumulateHostCall a accState serviceIndex hostCall gas regs mem ctx = .ret r) :
    Metered gas r ↔ FairCall hostCall gas regs mem ctx :=
  dispatched_metered_iff hgas (accumulateHostCall_post _ _ _ _ _ _ _ _ r h).charge

theorem gas_of_fair_run
    {i : Instance} {x : AccumulateContextPair} {n k : Nat} {t : Instance × AccumulateContextPair}
    (hi : 0 ≤ i.gasRemaining.toInt)
    (hrun : Runs (accumulateHostCall a accState serviceIndex) FairCall (i, x) n k t) :
    0 ≤ t.1.gasRemaining.toInt ∧ t.1.gasRemaining.toInt + n + k ≤ i.gasRemaining.toInt := by
  refine hrun.gas hi ?_
  intro index gas regs mem x r hgas hfair hr hok
  rcases (accumulateHostCall_metered_iff hgas hr).mpr hfair with h | ⟨-, hout⟩
  · exact h
  · rw [hok] at hout
    cases hout

/-- Which calls leave no more gas than there was. -/
theorem accumulation_gas_bounds (a : Accumulator) (accState : AccumulationState)
    (serviceIndex : ServiceId) :
    (∀ hostCall gas regs mem ctx r, 0 ≤ gas.toInt →
      accumulateHostCall a accState serviceIndex hostCall gas regs mem ctx = .ret r →
        (Metered gas r ↔ FairCall hostCall gas regs mem ctx)) ∧
      ∀ i x n k t, 0 ≤ i.gasRemaining.toInt →
        Runs (accumulateHostCall a accState serviceIndex) FairCall (i, x) n k t →
          0 ≤ t.1.gasRemaining.toInt ∧ t.1.gasRemaining.toInt + n + k ≤ i.gasRemaining.toInt := by
  refine ⟨?_, ?_⟩
  · intro hostCall gas regs mem ctx r hgas h
    exact accumulateHostCall_metered_iff hgas h
  · intro i x n k t hi hrun
    exact gas_of_fair_run hi hrun

def nullAccumulator : Accumulator :=
  { hashData := fun _ => .replicate 32 0, headerTimeslot := 0, newTimeslot := 0
    entropy := .replicate 32 0 }

theorem transfer_metered_iff :
    ∃ r, accumulateHostCall nullAccumulator twoServices.accumulationState 1 11 100
        (withArgs 2 500 20 0xFEFF0000) memoMemory ⟨twoServices, twoServices⟩ = .ret r ∧
      (Metered 100 r ↔
        FairCall 11 100 (withArgs 2 500 20 0xFEFF0000) memoMemory ⟨twoServices, twoServices⟩) := by
  have hreturns : (accumulateHostCall nullAccumulator twoServices.accumulationState 1 11 100
      (withArgs 2 500 20 0xFEFF0000) memoMemory ⟨twoServices, twoServices⟩).Returns := by
    decide +kernel
  obtain ⟨r, hr⟩ := hreturns
  exact ⟨r, hr, (accumulation_gas_bounds nullAccumulator twoServices.accumulationState 1).1 11 100
    (withArgs 2 500 20 0xFEFF0000) memoMemory ⟨twoServices, twoServices⟩ r (by decide) hr⟩

theorem transfer_creates_gas :
    ∃ r, accumulateHostCall nullAccumulator twoServices.accumulationState 1 11 0
        (withArgs 2 0 0xFFFFFFFFFFFFFFEC 0xFEFF0000) memoMemory ⟨twoServices, twoServices⟩ =
          .ret r ∧ r.gas = 10 ∧ r.err = none ∧ ¬ Metered 0 r := by
  have hrun : (fun r => (r.gas, r.err)) <$>
      accumulateHostCall nullAccumulator twoServices.accumulationState 1 11 0
        (withArgs 2 0 0xFFFFFFFFFFFFFFEC 0xFEFF0000) memoMemory ⟨twoServices, twoServices⟩ =
      .ret (10, none) := by decide +kernel
  obtain ⟨r, hr, heq⟩ := map_eq_ret.mp hrun
  obtain ⟨hgas, herr⟩ := Prod.mk.inj heq
  refine ⟨r, hr, hgas, herr, ?_⟩
  rintro (⟨-, hlt⟩ | ⟨-, hout⟩)
  · rw [hgas] at hlt
    exact absurd hlt (by decide)
  · rw [herr] at hout
    cases hout

end Strawberry.StateTransition
