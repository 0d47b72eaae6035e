import Strawberry.Common
import Strawberry.Lib.Maps

/-!
# Service accounts

Package `service`. A nil map is not told from an empty one.
-/

namespace Strawberry.Service

open Constants

structure PreImageMetaKey where
  hash : Hash
  length : UInt32
  deriving DecidableEq

structure ServiceAccount where
  storage : GoMap Hash (List UInt8)
  preimageLookup : GoMap Hash (List UInt8)
  preimageMeta : GoMap PreImageMetaKey (List Timeslot)
  codeHash : Hash
  balance : UInt64
  gasLimitForAccumulator : UInt64
  gasLimitOnTransfer : UInt64
  deriving DecidableEq

abbrev ServiceState := GoMap ServiceId ServiceAccount

namespace ServiceAccount

def zero : ServiceAccount :=
  { storage := ∅, preimageLookup := ∅, preimageMeta := ∅, codeHash := .replicate 32 0
    balance := 0, gasLimitForAccumulator := 0, gasLimitOnTransfer := 0 }

def code (sa : ServiceAccount) : Option (List UInt8) := sa.preimageLookup.lookup sa.codeHash

def totalItems (sa : ServiceAccount) : UInt32 :=
  UInt32.ofNat (2 * sa.preimageLookup.len + sa.storage.len)

def totalStorageSize (sa : ServiceAccount) : UInt64 :=
  UInt64.ofNat (sa.preimageLookup.sumBy (fun z => 81 + z.length) +
    sa.storage.sumBy fun x => 32 + x.length)

def thresholdBalance (sa : ServiceAccount) : UInt64 :=
  basicMinimumBalance + additionalMinimumBalancePerItem * sa.totalItems.toUInt64 +
    additionalMinimumBalancePerOctet * sa.totalStorageSize

end ServiceAccount

def isPreimageAvailableAt (metadata : List Timeslot) (t : Timeslot) : Bool :=
  match metadata with
  | [h₀] => h₀ ≤ t
  | [h₀, h₁] => h₀ ≤ t && t < h₁
  | [h₀, h₁, h₂] => (h₀ ≤ t && t < h₁) || h₂ ≤ t
  | _ => false

def ServiceAccount.lookupPreimage (sa : ServiceAccount) (t : Timeslot) (h : Hash) :
    Option (List UInt8) := do
  let p ← sa.preimageLookup.lookup h
  let metadata ← sa.preimageMeta.lookup ⟨h, UInt32.ofNat p.length⟩
  if isPreimageAvailableAt metadata t then some p else none

structure PrivilegedServices where
  managerServiceId : ServiceId
  assignServiceId : ServiceId
  designateServiceId : ServiceId
  amountOfGasPerServiceId : GoMap ServiceId UInt64
  deriving DecidableEq

structure DeferredTransfer where
  senderServiceIndex : ServiceId
  receiverServiceIndex : ServiceId
  balance : UInt64
  memo : Vector UInt8 transferMemoSizeBytes
  gasLimit : UInt64
  deriving DecidableEq

def bit8 : ServiceId := 0x100

def indexSpan : ServiceId := 0xFFFFFE00

def bumpIndex (serviceIndex : ServiceId) : ServiceId :=
  (serviceIndex - bit8 + 42) % indexSpan + bit8

def nextIndex (serviceIndex : ServiceId) : ServiceId :=
  (serviceIndex - bit8 + 1) % indexSpan + bit8

def checkIndexWithin (serviceState : ServiceState) : Nat → ServiceId → Outcome ServiceId
  | 0, _ => .hang
  | fuel + 1, serviceIndex =>
    if serviceIndex ∈ serviceState then checkIndexWithin serviceState fuel (nextIndex serviceIndex)
    else .ret serviceIndex

def checkIndex (serviceIndex : ServiceId) (serviceState : ServiceState) : Outcome ServiceId :=
  checkIndexWithin serviceState (serviceState.len + 1) serviceIndex

def deriveIndex (serviceIndex : ServiceId) (serviceState : ServiceState) : Outcome ServiceId :=
  checkIndex (nextIndex serviceIndex) serviceState

theorem checkIndexWithin_eq_ret {d : ServiceState} {n : Nat} {i j : ServiceId} :
    checkIndexWithin d n i = .ret j ↔
      ∃ k < n, (∀ a < k, nextIndex^[a] i ∈ d) ∧ nextIndex^[k] i ∉ d ∧ j = nextIndex^[k] i := by
  induction n generalizing i with
  | zero => simp [checkIndexWithin]
  | succ n ih =>
    rw [checkIndexWithin]
    by_cases hi : i ∈ d
    · rw [if_pos hi, ih]
      constructor
      · rintro ⟨k, hk, htaken, hfree, rfl⟩
        refine ⟨k + 1, by omega, ?_, hfree, rfl⟩
        intro a ha
        cases a with
        | zero => exact hi
        | succ a => exact htaken a (by omega)
      · rintro ⟨k, hk, htaken, hfree, rfl⟩
        cases k with
        | zero => exact absurd hi hfree
        | succ k => exact ⟨k, by omega, fun a ha => htaken (a + 1) (by omega), hfree, rfl⟩
    · rw [if_neg hi]
      constructor
      · intro h
        cases h
        exact ⟨0, by omega, by simp, hi, rfl⟩
      · rintro ⟨k, -, htaken, -, rfl⟩
        cases k with
        | zero => rfl
        | succ k => exact absurd (htaken 0 (by omega)) hi

theorem nextIndex_iterate_injOn {d : ServiceState} {i : ServiceId} {k : Nat}
    (htaken : ∀ a < k, nextIndex^[a] i ∈ d) (hfree : nextIndex^[k] i ∉ d) :
    Set.InjOn (fun a => nextIndex^[a] i) (Finset.range k) := by
  have hne : ∀ a b, a < b → b < k → nextIndex^[a] i ≠ nextIndex^[b] i := by
    intro a b hab hbk heq
    have hk : nextIndex^[k] i = nextIndex^[k - b + a] i := by
      conv_lhs => rw [show k = k - b + b by omega]
      rw [Function.iterate_add_apply, ← heq, ← Function.iterate_add_apply]
    rw [hk] at hfree
    exact hfree (htaken _ (by omega))
  intro a ha b hb heq
  simp only [Finset.coe_range, Set.mem_Iio] at ha hb
  rcases Nat.lt_trichotomy a b with hab | hab | hab
  · exact absurd heq (hne a b hab hb)
  · exact hab
  · exact absurd heq.symm (hne b a hab ha)

theorem checkIndex_notMem {d : ServiceState} {i j : ServiceId} (h : checkIndex i d = .ret j) :
    j ∉ d := by
  obtain ⟨k, -, -, hfree, rfl⟩ := checkIndexWithin_eq_ret.mp h
  exact hfree

end Strawberry.Service
