import Mathlib.Data.List.Sort
import Strawberry.HostCall.General

/-!
# Delivery of deferred transfers

`InvokePVMOnTransfer`, and the stage of accumulation that calls it.
-/

namespace Strawberry.StateTransition

open Polkavm Interpreter Service HostCall

def onTransferCost : Gas := 10

def sharedState (serviceState : ServiceState) (serviceIndex : ServiceId) (x : ServiceAccount) :
    ServiceState :=
  match serviceState.lookup serviceIndex with
  | none => serviceState
  | some a => serviceState.insert serviceIndex { a with storage := x.storage }

def withAccount {X : Type} (x : ServiceAccount) (r : HostResult X) : HostResult ServiceAccount :=
  ⟨r.gas, r.regs, r.mem, x, r.err⟩

def onTransferHostCall (H : HashData) (serviceState : ServiceState)
    (serviceIndex : ServiceId) : HostCall ServiceAccount := fun hostCall gasCounter regs mem x =>
  let services := sharedState serviceState serviceIndex x
  match HostFunction.ofNumber hostCall with
  | some .gasID => withAccount x <$> gasRemaining gasCounter regs mem
  | some .lookupID => withAccount x <$> lookup gasCounter regs mem x serviceIndex services
  | some .readID => withAccount x <$> read H gasCounter regs mem x serviceIndex services
  | some .writeID => write H gasCounter regs mem x serviceIndex
  | some .infoID => withAccount x <$> info gasCounter regs mem serviceIndex services
  | _ => .ret ⟨gasCounter - onTransferCost, withCode regs .what, mem, x, none⟩

def encodeTransfer (t : DeferredTransfer) : List UInt8 :=
  encodeUint32 t.senderServiceIndex ++ encodeUint32 t.receiverServiceIndex ++
    encodeUint64 t.balance ++ t.memo.toList ++ encodeUint64 t.gasLimit

def credited (a : ServiceAccount) (transfers : List DeferredTransfer) : ServiceAccount :=
  { a with balance := transfers.foldl (fun balance t => balance + t.balance) a.balance }

def invokePVMOnTransfer (H : HashData) (fuel : Nat) (serviceState : ServiceState)
    (serviceIndex : ServiceId) (transfers : List DeferredTransfer) : Outcome ServiceAccount :=
  let serviceAccount := serviceState.getD serviceIndex .zero
  match serviceAccount.code with
  | none => .ret serviceAccount
  | some serviceCode =>
    if transfers.isEmpty then .ret serviceAccount
    else do
      let gas := transfers.foldl (fun gas t => gas + t.gasLimit) 0
      let r ← invokeWholeProgram (onTransferHostCall H serviceState serviceIndex) fuel
        serviceCode 10 gas (Jam.encodeSlice encodeTransfer transfers)
        (credited serviceAccount transfers)
      return r.x

def transfersForReceiver (transfers : List DeferredTransfer) (serviceId : ServiceId) :
    List DeferredTransfer :=
  (transfers.filter fun t => t.receiverServiceIndex = serviceId).insertionSort
    fun a b => a.senderServiceIndex ≤ b.senderServiceIndex

def onTransferStage (H : HashData) (fuel : Nat) (serviceState : ServiceState)
    (order : GoMap.Traversal serviceState.keys) (transfers : List DeferredTransfer) :
    Outcome ServiceState :=
  GoMap.fillFrom (fun serviceId => invokePVMOnTransfer H fuel serviceState serviceId
    (transfersForReceiver transfers serviceId)) order.keys ∅

end Strawberry.StateTransition
