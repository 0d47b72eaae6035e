import Strawberry.Lib.Tables
import Strawberry.StateTransition.Records

/-!
# Authorizer pools

A block takes the authorizers of its guarantees out of the pools of the cores and puts one of the
queue of each core in.
-/

namespace Strawberry.StateTransition

open Block State Constants List

structure AuthorizerCall where
  header : Header
  guarantees : List Guarantee
  pendingAuthorizations : PendingAuthorizersQueues

namespace AuthorizerCall

def newPools (call : AuthorizerCall) (pools : CoreAuthorizersPool) : CoreAuthorizersPool :=
  calculateNewCoreAuthorizations call.header call.guarantees call.pendingAuthorizations pools

def used (call : AuthorizerCall) (core : Core) : List Hash :=
  (call.guarantees.filter fun g => g.workReport.coreIndex.toNat = core.val).map
    (·.workReport.authorizerHash)

def queued (call : AuthorizerCall) (core : Core) : Hash :=
  (call.pendingAuthorizations.get core).get ⟨_, queueIndex_lt call.header.timeSlotIndex⟩

end AuthorizerCall

inductive RemovesEach : List Hash → List Hash → List Hash → Prop
  | done (auths : List Hash) : RemovesEach [] auths auths
  | absent {a : Hash} {used auths kept : List Hash} :
      a ∉ auths → RemovesEach used auths kept → RemovesEach (a :: used) auths kept
  | leftmost {a : Hash} {used before after kept : List Hash} :
      a ∉ before → RemovesEach used (before ++ after) kept →
        RemovesEach (a :: used) (before ++ a :: after) kept

def UpdatesPool (used : List Hash) (queued : Hash) (auths newAuths : List Hash) : Prop :=
  ∃ kept rest, (used = [] ∧ kept = auths.drop 1 ∨ used ≠ [] ∧ RemovesEach used auths kept) ∧
    (rest = kept ∨ rest = kept.drop 1) ∧ rest.Sublist auths ∧
    (newAuths = rest ∨ newAuths = rest ++ [queued])

def WithinLimit (pools : CoreAuthorizersPool) : Prop :=
  ∀ core, (pools.get core).length ≤ maxAuthorizersPerCore

section

variable {used auths kept : List Hash} {call call' : AuthorizerCall}
  {pools pools' : CoreAuthorizersPool} {core : Core}

theorem removesEach_foldl (used auths : List Hash) :
    RemovesEach used auths (used.foldl List.erase auths) := by
  induction used generalizing auths with
  | nil => exact .done auths
  | cons a used ih =>
    by_cases ha : a ∈ auths
    · obtain ⟨before, after, hbefore, rfl, herase⟩ := exists_erase_eq ha
      refine .leftmost hbefore ?_
      rw [foldl_cons, herase]
      exact ih _
    · refine .absent ha ?_
      rw [foldl_cons, erase_of_not_mem ha]
      exact ih _

theorem RemovesEach.sublist (h : RemovesEach used auths kept) : kept.Sublist auths := by
  induction h with
  | done auths => exact List.Sublist.refl auths
  | absent _ _ ih => exact ih
  | leftmost _ _ ih => exact ih.trans ((sublist_cons_self _ _).append_left _)

theorem usedAuthorizersRemoved_eq (call : AuthorizerCall) (core : Core) (auths : List Hash) :
    usedAuthorizersRemoved call.guarantees core auths =
      if call.used core = [] then auths.drop 1 else (call.used core).foldl List.erase auths := by
  simp only [usedAuthorizersRemoved, AuthorizerCall.used, List.foldl_map, List.map_eq_nil_iff,
    List.isEmpty_iff]

theorem get_newPools : (call.newPools pools).get core =
    if call.queued core = .replicate 32 0 then
      usedAuthorizersRemoved call.guarantees core (pools.get core)
    else appendAuthorizerLimited (usedAuthorizersRemoved call.guarantees core (pools.get core))
      (call.queued core) maxAuthorizersPerCore := by
  rw [AuthorizerCall.newPools, calculateNewCoreAuthorizations, get_ofFn]
  rfl

theorem usedAuthorizersRemoved_sublist (call : AuthorizerCall) (core : Core) (auths : List Hash) :
    (usedAuthorizersRemoved call.guarantees core auths).Sublist auths := by
  rw [usedAuthorizersRemoved_eq]
  split
  · exact drop_sublist 1 auths
  · exact (removesEach_foldl _ _).sublist

theorem WithinLimit.newPools (h : WithinLimit pools) : WithinLimit (call.newPools pools) := by
  intro core
  have hkept :=
    (usedAuthorizersRemoved_sublist call core (pools.get core)).length_le.trans (h core)
  rw [get_newPools]
  split
  · exact hkept
  · unfold appendAuthorizerLimited
    split
    · rw [length_append, length_drop, length_singleton]
      have hpositive : 0 < maxAuthorizersPerCore := by decide
      omega
    · rw [length_append, length_singleton]
      omega

theorem WithinLimit.foldl (h : WithinLimit pools) (calls : List AuthorizerCall) :
    WithinLimit (calls.foldl (fun pools call => call.newPools pools) pools) := by
  induction calls generalizing pools with
  | nil => exact h
  | cons call calls ih =>
    rw [foldl_cons]
    exact ih h.newPools

theorem updatesPool_newPools : UpdatesPool (call.used core) (call.queued core) (pools.get core)
    ((call.newPools pools).get core) := by
  have hsublist := usedAuthorizersRemoved_sublist call core (pools.get core)
  rw [get_newPools]
  refine ⟨usedAuthorizersRemoved call.guarantees core (pools.get core), ?_⟩
  have hremoved : call.used core = [] ∧
        usedAuthorizersRemoved call.guarantees core (pools.get core) = (pools.get core).drop 1 ∨
      call.used core ≠ [] ∧ RemovesEach (call.used core) (pools.get core)
        (usedAuthorizersRemoved call.guarantees core (pools.get core)) := by
    rw [usedAuthorizersRemoved_eq]
    split
    · next hnone => exact .inl ⟨hnone, rfl⟩
    · next hsome => exact .inr ⟨hsome, removesEach_foldl _ _⟩
  split
  · exact ⟨_, hremoved, .inl rfl, hsublist, .inl rfl⟩
  · unfold appendAuthorizerLimited
    split
    · exact ⟨_, hremoved, .inr rfl, (drop_sublist 1 _).trans hsublist, .inr rfl⟩
    · exact ⟨_, hremoved, .inl rfl, hsublist, .inr rfl⟩

theorem newPools_congr (hused : call.used core = call'.used core)
    (hqueued : call.queued core = call'.queued core) (hpool : pools.get core = pools'.get core) :
    (call.newPools pools).get core = (call'.newPools pools').get core := by
  rw [get_newPools, get_newPools, usedAuthorizersRemoved_eq, usedAuthorizersRemoved_eq, hused,
    hqueued, hpool]

end

/-- The pools stay bounded and take from the queues. -/
theorem authorizer_pools (call : AuthorizerCall) (pools : CoreAuthorizersPool) (core : Core) :
    (WithinLimit pools → ∀ calls : List AuthorizerCall,
        WithinLimit (calls.foldl (fun pools call => call.newPools pools) pools)) ∧
      UpdatesPool (call.used core) (call.queued core) (pools.get core)
        ((call.newPools pools).get core) ∧
      ∀ (call' : AuthorizerCall) (pools' : CoreAuthorizersPool),
        call.used core = call'.used core → call.queued core = call'.queued core →
          pools.get core = pools'.get core →
            (call.newPools pools).get core = (call'.newPools pools').get core :=
  ⟨WithinLimit.foldl, updatesPool_newPools, fun _ _ => newPools_congr⟩

end Strawberry.StateTransition
