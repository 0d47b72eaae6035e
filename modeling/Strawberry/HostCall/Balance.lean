import Strawberry.HostCall.Contexts

/-!
# Balances and deferred transfers

Which calls keep the sum over the accounts and the pending transfers of a context.
-/

namespace Strawberry.HostCall

open Polkavm Interpreter Service State Constants

def total (x : AccumulateContext) : Nat :=
  x.accumulationState.serviceState.sumBy (·.balance.toNat) +
    (x.deferredTransfers.map (·.balance.toNat)).sum

inductive LedgerCall where
  | new
  | transfer
  | eject
  | upgrade
  | checkpoint
  deriving DecidableEq

namespace LedgerCall

def run (c : LedgerCall) (gas : Gas) (regs : Registers) (mem : Memory)
    (x : AccumulateContextPair) (timeslot : Timeslot) : AccumulateResult :=
  match c with
  | new => HostCall.new gas regs mem x
  | transfer => HostCall.transfer gas regs mem x
  | eject => HostCall.eject gas regs mem x timeslot
  | upgrade => HostCall.upgrade gas regs mem x
  | checkpoint => HostCall.checkpoint gas regs mem x

def Neutral (c : LedgerCall) (gas : Gas) (regs : Registers) (mem : Memory)
    (x : AccumulateContext) (timeslot : Timeslot) : Prop :=
  match c with
  | new => NewCreates gas regs mem x → basicMinimumBalance ≤ x.serviceAccount.balance
  | transfer => TransferSends gas regs mem x → regs.get Reg.A1 = 0
  | eject => ∀ account, EjectRemoves gas regs mem x timeslot account →
      x.serviceAccount.balance.toNat + account.balance.toNat < 2 ^ 64
  | upgrade | checkpoint => True

end LedgerCall

variable {x : AccumulateContext}

theorem own_contribution (x : AccumulateContext) :
    (x.accumulationState.serviceState.lookup x.serviceId).elim 0 (·.balance.toNat) =
      x.serviceAccount.balance.toNat := by
  unfold AccumulateContext.serviceAccount GoMap.getD
  cases x.accumulationState.serviceState.lookup x.serviceId with
  | none | some => rfl

theorem sum_setOwn (x : AccumulateContext) (a : ServiceAccount) :
    (x.setAccount x.serviceId a).accumulationState.serviceState.sumBy (·.balance.toNat) +
        x.serviceAccount.balance.toNat =
      x.accumulationState.serviceState.sumBy (·.balance.toNat) + a.balance.toNat := by
  rw [← own_contribution]
  exact GoMap.sumBy_insert

theorem total_setOwn {a : ServiceAccount} (h : a.balance = x.serviceAccount.balance) :
    total (x.setAccount x.serviceId a) = total x := by
  have hsum := sum_setOwn x a
  rw [h] at hsum
  unfold total
  rw [show (x.setAccount x.serviceId a).deferredTransfers = x.deferredTransfers from rfl]
  omega

theorem toNat_sub_endowment (b : UInt64) : (b - basicMinimumBalance).toNat =
      if basicMinimumBalance ≤ b then b.toNat - 100 else b.toNat + 2 ^ 64 - 100 := by
  have hb := b.toNat_lt
  have hiff : basicMinimumBalance ≤ b ↔ 100 ≤ b.toNat := UInt64.le_iff_toNat_le
  rw [UInt64.toNat_sub]
  split
  · next h =>
    rw [hiff] at h
    have h100 : basicMinimumBalance.toNat = 100 := rfl
    omega
  · next h =>
    rw [hiff] at h
    have h100 : basicMinimumBalance.toNat = 100 := rfl
    omega

theorem sum_createIn {newId : ServiceId} (account : ServiceAccount) (hid : newId ≠ x.serviceId)
    (hnew : newId ∉ x.accumulationState.serviceState) :
    (createIn x newId account).accumulationState.serviceState.sumBy (·.balance.toNat) +
        x.serviceAccount.balance.toNat =
      x.accumulationState.serviceState.sumBy (·.balance.toNat) +
        (x.serviceAccount.balance - basicMinimumBalance).toNat + account.balance.toNat := by
  have hown := sum_setOwn x { x.serviceAccount with
    balance := x.serviceAccount.balance - basicMinimumBalance }
  have hnew' : newId ∉ x.accumulationState.serviceState.insert x.serviceId
      { x.serviceAccount with balance := x.serviceAccount.balance - basicMinimumBalance } := by
    intro hmem
    rcases Finmap.mem_insert.mp hmem with h | h
    · exact hid h
    · exact hnew h
  have hall := GoMap.sumBy_insert_of_notMem (f := fun a : ServiceAccount => a.balance.toNat)
    (v := account) hnew'
  unfold createIn AccumulateContext.setAccount
  unfold AccumulateContext.setAccount at hown
  dsimp only at hown hall ⊢
  omega

theorem total_createIn_iff {newId : ServiceId} {account : ServiceAccount} (hfresh : Fresh account)
    (hnew : newId ∉ x.accumulationState.serviceState) :
    total (createIn x newId account) = total x ↔
      basicMinimumBalance ≤ x.serviceAccount.balance := by
  have hbal : account.balance.toNat = 100 := by rw [hfresh.balance]; rfl
  have htransfers : (createIn x newId account).deferredTransfers = x.deferredTransfers := rfl
  unfold total
  rw [htransfers, Nat.add_right_cancel_iff]
  by_cases hid : newId = x.serviceId
  · -- the running service is not among the accounts, and the new one takes its place
    subst hid
    have hzero : x.serviceAccount = .zero := GoMap.getD_of_notMem hnew
    have hsum : (createIn x x.serviceId account).accumulationState.serviceState =
        x.accumulationState.serviceState.insert x.serviceId account := Finmap.insert_insert _
    rw [hsum, GoMap.sumBy_insert_of_notMem hnew, hbal, hzero]
    constructor
    · intro h
      omega
    · intro h
      exact absurd h (by decide)
  · have hsum := sum_createIn account hid hnew
    have hsub := toNat_sub_endowment x.serviceAccount.balance
    have hlt := x.serviceAccount.balance.toNat_lt
    have hle : basicMinimumBalance ≤ x.serviceAccount.balance ↔
        100 ≤ x.serviceAccount.balance.toNat := UInt64.le_iff_toNat_le
    by_cases h : basicMinimumBalance ≤ x.serviceAccount.balance
    · rw [if_pos h] at hsub
      rw [hle] at h
      simp only [hle, h, iff_true]
      omega
    · rw [if_neg h] at hsub
      simp only [h, iff_false]
      omega

theorem total_ejectIn_iff {d : ServiceId} {account : ServiceAccount} (hd : d ≠ x.serviceId)
    (hget : x.accumulationState.serviceState.lookup d = some account) :
    total (ejectIn x d account) = total x ↔
      x.serviceAccount.balance.toNat + account.balance.toNat < 2 ^ 64 := by
  have hown : (x.deleteAccount d).serviceAccount = x.serviceAccount := by
    unfold AccumulateContext.serviceAccount AccumulateContext.deleteAccount GoMap.getD
    rw [Finmap.lookup_erase_ne (Ne.symm hd)]
  have hsum := sum_setOwn (x.deleteAccount d) { x.serviceAccount with
    balance := x.serviceAccount.balance + account.balance }
  have herase := GoMap.sumBy_erase (f := fun a : ServiceAccount => a.balance.toNat) hget
  rw [hown] at hsum
  have hadd := UInt64.toNat_add x.serviceAccount.balance account.balance
  have hlt₁ := x.serviceAccount.balance.toNat_lt
  have hlt₂ := account.balance.toNat_lt
  unfold total
  rw [show (ejectIn x d account).deferredTransfers = x.deferredTransfers from rfl,
    Nat.add_right_cancel_iff]
  unfold ejectIn
  unfold AccumulateContext.deleteAccount at hsum ⊢
  dsimp only at hsum herase ⊢
  rw [hadd] at hsum
  constructor
  · intro h
    omega
  · intro h
    rw [Nat.mod_eq_of_lt h] at hsum
    omega

theorem total_send_iff (t : DeferredTransfer) :
    total { x with deferredTransfers := x.deferredTransfers ++ [t] } = total x ↔ t.balance = 0 := by
  have hsum : ((x.deferredTransfers ++ [t]).map (·.balance.toNat)).sum =
      (x.deferredTransfers.map (·.balance.toNat)).sum + t.balance.toNat := by simp
  have hzero : t.balance = 0 ↔ t.balance.toNat = 0 := by
    rw [← UInt64.toNat_inj]
    rfl
  unfold total
  dsimp only
  rw [hsum, hzero]
  omega

open LedgerCall

theorem LedgerCall.total_eq_iff {c : LedgerCall} {gas : Gas} {regs : Registers} {mem : Memory}
    {x : AccumulateContextPair} {timeslot : Timeslot} {r : HostResult AccumulateContextPair}
    (h : c.run gas regs mem x timeslot = .ret r) :
    total r.x.regularCtx = total x.regularCtx ↔ c.Neutral gas regs mem x.regularCtx timeslot := by
  cases c with
  | new =>
    rcases (new_post r h).2 with ⟨newId, account, hc, -, -, hfresh, hcheck, hx⟩ | ⟨hc, -, hx, -⟩
    · rw [hx, total_createIn_iff hfresh (checkIndex_notMem hcheck)]
      exact ⟨fun hb _ => hb, fun hb => hb hc⟩
    · rw [hx]
      exact ⟨fun _ hc' => absurd hc' hc, fun _ => rfl⟩
  | transfer =>
    rcases (transfer_post r h).2.2 with ⟨t, hs, -, hbal, -, hx⟩ | ⟨hs, hx, -⟩
    · rw [hx, total_send_iff, hbal]
      exact ⟨fun hb _ => hb, fun hb => hb hs⟩
    · rw [hx]
      exact ⟨fun _ hs' => absurd hs' hs, fun _ => rfl⟩
  | eject =>
    rcases (eject_post r h).2 with ⟨account, hr, -, hx⟩ | ⟨hr, hx⟩
    · rw [hx, total_ejectIn_iff hr.2.1 hr.2.2.1]
      constructor
      · intro hb account' hr'
        have heq : account' = account :=
          Option.some.inj (hr'.2.2.1.symm.trans hr.2.2.1)
        rw [heq]
        exact hb
      · intro hall
        exact hall account hr
    · rw [hx]
      exact ⟨fun _ account hr' => absurd hr' (hr account), fun _ => rfl⟩
  | upgrade =>
    refine ⟨fun _ => trivial, fun _ => ?_⟩
    rcases (upgrade_post r h).2 with hx | ⟨a, hbal, hx⟩
    · rw [hx]
    · rw [hx]
      exact total_setOwn hbal
  | checkpoint =>
    refine ⟨fun _ => trivial, fun _ => ?_⟩
    rw [(checkpoint_post r h).2.2]
    split <;> rfl

inductive NeutralRun (timeslot : Timeslot) :
    AccumulateContextPair → AccumulateContextPair → Prop where
  | refl (x : AccumulateContextPair) : NeutralRun timeslot x x
  | call {x y : AccumulateContextPair} {c : LedgerCall} {gas : Gas} {regs : Registers}
    {mem : Memory} {r : HostResult AccumulateContextPair} (hrun : NeutralRun timeslot x y)
    (hcall : c.run gas regs mem y timeslot = .ret r)
    (hneutral : c.Neutral gas regs mem y.regularCtx timeslot) : NeutralRun timeslot x r.x

theorem NeutralRun.total_eq {timeslot : Timeslot} {x y : AccumulateContextPair}
    (h : NeutralRun timeslot x y) : total y.regularCtx = total x.regularCtx := by
  induction h with
  | refl => rfl
  | call _ hcall hneutral ih => rw [(LedgerCall.total_eq_iff hcall).mpr hneutral, ih]

/-- Which calls keep the total balance. -/
theorem ledger_calls_conserve_iff (timeslot : Timeslot) :
    (∀ (c : LedgerCall) (gas : Gas) (regs : Registers) (mem : Memory)
        (x : AccumulateContextPair) (r : HostResult AccumulateContextPair),
      c.run gas regs mem x timeslot = .ret r → (total r.x.regularCtx = total x.regularCtx ↔
          c.Neutral gas regs mem x.regularCtx timeslot)) ∧
      ∀ x y, NeutralRun timeslot x y → total y.regularCtx = total x.regularCtx :=
  ⟨fun _ _ _ _ _ _ h => LedgerCall.total_eq_iff h, fun _ _ h => h.total_eq⟩

def twoServices : AccumulateContext where
  serviceId := 1
  accumulationState :=
    { serviceState := (Finmap.singleton 1 { ServiceAccount.zero with balance := 1000 }).insert 2 .zero
      validatorKeys := .replicate _ none
      pendingAuthorizersQueues := .replicate _ (.replicate _ (.replicate 32 0))
      privilegedServices := ⟨0, 0, 0, ∅⟩ }
  newServiceId := 0x1000
  deferredTransfers := []
  accumulationHash := none

def memoMemory : Memory :=
  { Memory.emptyLayout with args := ⟨0xFEFF0000, List.replicate 128 0, .readOnly⟩ }

def withArgs (a0 a1 a2 a3 : UInt64) : Registers :=
  (((Registers.set (.replicate 13 0) Reg.A0 a0).set Reg.A1 a1).set Reg.A2 a2).set Reg.A3 a3

theorem transfer_conserves_iff_twoServices :
    ∃ r, LedgerCall.transfer.run 100 (withArgs 2 500 0 0xFEFF0000) memoMemory
        ⟨twoServices, twoServices⟩ 0 = .ret r ∧
      (total r.x.regularCtx = total twoServices ↔
        LedgerCall.transfer.Neutral 100 (withArgs 2 500 0 0xFEFF0000) memoMemory twoServices 0) := by
  have hreturns : (LedgerCall.transfer.run 100 (withArgs 2 500 0 0xFEFF0000) memoMemory
      ⟨twoServices, twoServices⟩ 0).Returns := by decide +kernel
  obtain ⟨r, hr⟩ := hreturns
  exact ⟨r, hr, (ledger_calls_conserve_iff 0).1 .transfer 100 (withArgs 2 500 0 0xFEFF0000)
    memoMemory ⟨twoServices, twoServices⟩ r hr⟩

theorem transfer_duplicates_amount : total twoServices = 1000 ∧
      ∃ r, LedgerCall.transfer.run 100 (withArgs 2 500 0 0xFEFF0000) memoMemory
        ⟨twoServices, twoServices⟩ 0 = .ret r ∧ total r.x.regularCtx = 1500 := by
  have hrun : (fun r => total r.x.regularCtx) <$>
      LedgerCall.transfer.run 100 (withArgs 2 500 0 0xFEFF0000) memoMemory
        ⟨twoServices, twoServices⟩ 0 = .ret 1500 := by decide +kernel
  exact ⟨by decide +kernel, map_eq_ret.mp hrun⟩

end Strawberry.HostCall
