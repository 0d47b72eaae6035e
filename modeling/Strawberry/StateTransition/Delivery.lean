import Strawberry.HostCall.Balance
import Strawberry.Interpreter.Runs
import Strawberry.StateTransition.OnTransfer

/-!
# What the transfers add to the balances

An on-transfer run leaves the credited balance of its account alone.
-/

namespace Strawberry.StateTransition

open Polkavm Interpreter Service HostCall Finmap

def received (transfers : List DeferredTransfer) (id : ServiceId) : Nat :=
  ((transfers.filter fun t => t.receiverServiceIndex = id).map fun t => t.balance.toNat).sum

section

variable {H : HashData} {serviceState : ServiceState} {serviceIndex : ServiceId}

theorem withAccount_post {X : Type} {o : Outcome (HostResult X)} {x : ServiceAccount} :
    (withAccount x <$> o).Post fun r => r.x = x := by
  intro r hr
  obtain ⟨r₀, -, rfl⟩ := map_eq_ret.mp hr
  rfl

theorem onTransferHostCall_balance (hostCall : UInt64) (gas : Gas) (regs : Registers)
    (mem : Memory) (x : ServiceAccount) :
    (onTransferHostCall H serviceState serviceIndex hostCall gas regs mem x).Post
      fun r => r.x.balance = x.balance := by
  unfold onTransferHostCall
  dsimp only
  split
  · exact withAccount_post.mono fun r hr => congrArg _ hr
  · exact withAccount_post.mono fun r hr => congrArg _ hr
  · exact withAccount_post.mono fun r hr => congrArg _ hr
  · refine write_post.mono fun r hr => ?_
    rcases hr.2 with ⟨hx, -⟩ | ⟨_, _, -, -, -, heq⟩
    · rw [hx]
    · rw [heq, writeResult_x]
      rfl
  · exact withAccount_post.mono fun r hr => congrArg _ hr
  · exact post_ret.mpr rfl

theorem onTransferProgram_balance {fuel : Nat} {p : List UInt8} {entryPoint gas : UInt64}
    {args : List UInt8} {x : ServiceAccount} {r : ProgramResult ServiceAccount}
    (h : invokeWholeProgram (onTransferHostCall H serviceState serviceIndex) fuel p
      entryPoint gas args x = .ret r) : r.x.balance = x.balance := by
  refine invokeWholeProgram_invariant (I := fun y => y.balance = x.balance) h rfl ?_
  intro index gas regs mem y r hy hr
  rw [onTransferHostCall_balance _ _ _ _ _ _ hr, hy]

theorem invokePVMOnTransfer_balance {fuel : Nat} {transfers : List DeferredTransfer}
    {a a' : ServiceAccount} (ha : serviceState.lookup serviceIndex = some a)
    (h : invokePVMOnTransfer H fuel serviceState serviceIndex transfers = .ret a') :
    a'.balance = if a.code = none then a.balance else (credited a transfers).balance := by
  unfold invokePVMOnTransfer at h
  rw [GoMap.getD_of_lookup ha] at h
  dsimp only at h
  split at h
  · next hcode =>
    cases h
    rw [if_pos hcode]
  · next code hcode =>
    rw [if_neg (by rw [hcode]; exact Option.some_ne_none code)]
    split at h
    · next hempty =>
      cases h
      rw [List.isEmpty_iff.mp hempty]
      rfl
    · rw [bind_eq_ret] at h
      obtain ⟨r, hr, h⟩ := h
      cases h
      exact onTransferProgram_balance hr

end

theorem credited_balance (a : ServiceAccount) (transfers : List DeferredTransfer)
    (id : ServiceId) (hfit : a.balance.toNat + received transfers id < 2 ^ 64) :
    (credited a (transfersForReceiver transfers id)).balance.toNat =
      a.balance.toNat + received transfers id := by
  have hperm := (transfers.filter fun t => t.receiverServiceIndex = id).perm_insertionSort
    fun a b => a.senderServiceIndex ≤ b.senderServiceIndex
  have hsum := (hperm.map fun t => t.balance.toNat).sum_eq
  rw [credited, foldl_add_toNat, transfersForReceiver, hsum]
  exact Nat.mod_eq_of_lt hfit

def Delivered (d post : ServiceState) (transfers : List DeferredTransfer) : Prop :=
  ∀ id a, d.lookup id = some a → a.balance.toNat + received transfers id < 2 ^ 64 →
    ∃ a', post.lookup id = some a' ∧ a'.balance.toNat = a.balance.toNat + received transfers id

def ReceiversHaveCode (d : ServiceState) (transfers : List DeferredTransfer) : Prop :=
  ∀ id a, d.lookup id = some a → a.balance.toNat + received transfers id < 2 ^ 64 →
    a.code = none → received transfers id = 0

theorem onTransferStage_lookup {H : HashData} {fuel : Nat} {d post : ServiceState}
    {order : GoMap.Traversal d.keys} {transfers : List DeferredTransfer}
    (h : onTransferStage H fuel d order transfers = .ret post) {id : ServiceId}
    {a : ServiceAccount} (ha : d.lookup id = some a) :
    ∃ a', post.lookup id = some a' ∧ a'.balance =
      if a.code = none then a.balance
      else (credited a (transfersForReceiver transfers id)).balance := by
  have hmem : id ∈ order.keys := by
    rw [order.mem_iff, mem_keys]
    exact mem_of_lookup_eq_some ha
  obtain ⟨a', hrun, hpost⟩ := (GoMap.fillFrom_eq_ret h).1 id hmem
  exact ⟨a', hpost, invokePVMOnTransfer_balance ha hrun⟩

/-- When every service is credited with what was sent to it. -/
theorem transfers_delivered_iff (H : HashData) (fuel : Nat) (d post : ServiceState)
    (order : GoMap.Traversal d.keys) (transfers : List DeferredTransfer)
    (h : onTransferStage H fuel d order transfers = .ret post) :
    (∀ id, id ∈ post ↔ id ∈ d) ∧ (Delivered d post transfers ↔ ReceiversHaveCode d transfers) := by
  refine ⟨fun id => ?_, ?_, ?_⟩
  · by_cases hid : id ∈ order.keys
    · obtain ⟨a', -, hpost⟩ := (GoMap.fillFrom_eq_ret h).1 id hid
      exact iff_of_true (mem_of_lookup_eq_some hpost) (mem_keys.mp ((order.mem_iff id).mp hid))
    · have hpost := (GoMap.fillFrom_eq_ret h).2 id hid
      rw [lookup_empty] at hpost
      apply iff_of_false (lookup_eq_none.mp hpost)
      intro hd
      exact hid ((order.mem_iff id).mpr (mem_keys.mpr hd))
  · intro hall id a ha hfit hcode
    obtain ⟨a', hpost, hbalance⟩ := onTransferStage_lookup h ha
    obtain ⟨a'', hpost', hsum⟩ := hall id a ha hfit
    rw [hpost] at hpost'
    cases hpost'
    rw [if_pos hcode] at hbalance
    rw [hbalance] at hsum
    omega
  · intro hall id a ha hfit
    obtain ⟨a', hpost, hbalance⟩ := onTransferStage_lookup h ha
    refine ⟨a', hpost, ?_⟩
    by_cases hcode : a.code = none
    · rw [if_pos hcode] at hbalance
      rw [hbalance, hall id a ha hfit hcode]
      omega
    · rw [if_neg hcode] at hbalance
      rw [hbalance, credited_balance a transfers id hfit]

def codelessReceiver : ServiceState := Finmap.singleton 2 .zero

def codelessOrder : GoMap.Traversal codelessReceiver.keys where
  keys := [2]
  nodup := by decide
  mem_iff k := by rw [List.mem_singleton, codelessReceiver, mem_keys, mem_singleton]

def transferOf500 : DeferredTransfer :=
  { senderServiceIndex := 1, receiverServiceIndex := 2, balance := 500, memo := .replicate _ 0
    gasLimit := 0 }

theorem codeless_delivered_iff :
    ∃ post, onTransferStage (fun _ => .replicate 32 0) 1 codelessReceiver codelessOrder
        [transferOf500] = .ret post ∧ (∀ id, id ∈ post ↔ id ∈ codelessReceiver) ∧
      (Delivered codelessReceiver post [transferOf500] ↔
        ReceiversHaveCode codelessReceiver [transferOf500]) := by
  refine ⟨_, rfl, ?_⟩
  exact transfers_delivered_iff (fun _ => .replicate 32 0) 1 _ _ codelessOrder [transferOf500] rfl

theorem codeless_transfer_dropped :
    ∃ post, onTransferStage (fun _ => .replicate 32 0) 1 codelessReceiver codelessOrder
        [transferOf500] = .ret post ∧ ¬ Delivered codelessReceiver post [transferOf500] := by
  refine ⟨_, rfl, fun h => ?_⟩
  obtain ⟨a', ha', hsum⟩ := h 2 .zero rfl (by decide)
  have hzero : a' = .zero := by
    cases ha'
    rfl
  rw [hzero] at hsum
  exact absurd hsum (by decide)

end Strawberry.StateTransition
