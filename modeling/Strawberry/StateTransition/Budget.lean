import Strawberry.StateTransition.Availability
import Strawberry.StateTransition.Checkpoint
import Strawberry.StateTransition.Merging

/-!
# The gas budget of a block

The rounds should together report no more than the limit and one grant of the privileged gas.
-/

namespace Strawberry.StateTransition

open Polkavm Interpreter Service State Block HostCall List

structure DeltaRound where
  gasLimit : UInt64
  workReports : List WorkReport
  ctx : AccumulationState
  privilegedGas : GoMap ServiceId UInt64
  gasUsed : UInt64

section

variable (a : Accumulator) (fuel : Nat) (schedule : Schedule)

variable {a fuel schedule} {privileged : PrivilegedServices} {limit : UInt64}
  {reports : List WorkReport} {ctx : AccumulationState} {rounds : List DeltaRound}
  {free : GoMap ServiceId UInt64}

def Threaded : UInt64 → List DeltaRound → Prop
  | _, [] => True
  | limit, r :: rounds => r.gasLimit = limit ∧ Threaded (limit - r.gasUsed) rounds

end

theorem Threaded.within {limit : UInt64} {rounds : List DeltaRound}
    (h : Threaded limit rounds) (hwithin : ∀ r ∈ rounds, r.gasUsed.toNat ≤ r.gasLimit.toNat) :
    (rounds.map fun r => r.gasUsed.toNat).sum ≤ limit.toNat ∧
      rounds.IsChain fun r next => next.gasLimit.toNat + r.gasUsed.toNat = r.gasLimit.toNat := by
  induction rounds generalizing limit with
  | nil => simp
  | cons r rounds ih =>
    obtain ⟨rfl, hrest⟩ := h
    rw [forall_mem_cons] at hwithin
    have hsub : (r.gasLimit - r.gasUsed).toNat = r.gasLimit.toNat - r.gasUsed.toNat :=
      UInt64.toNat_sub_of_le _ _ (UInt64.le_iff_toNat_le.mpr hwithin.1)
    obtain ⟨hsum, hchain⟩ := ih hrest hwithin.2
    rw [map_cons, sum_cons, isChain_cons]
    refine ⟨by omega, fun next hnext => ?_, hchain⟩
    cases rounds with
    | nil => cases hnext
    | cons r' rounds =>
      rw [List.head?_cons, Option.mem_some_iff] at hnext
      rw [← hnext, hrest.1]
      omega

section

variable {a : Accumulator} {fuel : Nat} {free : GoMap ServiceId UInt64}
  {reports : List WorkReport} {limit : UInt64} {rounds : List DeltaRound}

section

variable {fuel : Nat} {ctx : AccumulationState} {free : GoMap ServiceId UInt64}
  {r r' : DeltaResult}

end

end

end Strawberry.StateTransition
