import Strawberry.StateTransition.Gas

/-!
# The services after a round

An account that is missing from the result of some run is taken for ejected.
-/

namespace Strawberry.StateTransition

open Polkavm Interpreter Service State Block HostCall Finmap GoMap

structure RunLog where
  created : Finset ServiceId
  ejected : Finset ServiceId

def RunLog.empty : RunLog := ⟨∅, ∅⟩

def noteServices (index : UInt64) (x : AccumulateContextPair)
    (r : HostResult AccumulateContextPair) (log : RunLog) : RunLog :=
  let before := x.regularCtx.accumulationState.serviceState.keys
  let after := r.x.regularCtx.accumulationState.serviceState.keys
  match HostFunction.ofNumber index with
  | some .newID => { log with created := log.created ∪ (after \ before) }
  | some .ejectID => { log with ejected := log.ejected ∪ (before \ after) }
  | _ => log

structure Secluded (s : ServiceId) (x : AccumulateContext) : Prop where
  serviceId : x.serviceId = s
  own : s ∈ x.accumulationState.serviceState
  fresh : ∀ k account, k ≠ s → x.accumulationState.serviceState.lookup k = some account →
    Fresh account

variable {s : ServiceId} {x y : AccumulateContext}

theorem Secluded.setOwn (hx : Secluded s x) (account : ServiceAccount) :
    Secluded s (x.setAccount x.serviceId account) := by
  refine ⟨hx.serviceId, ?_, ?_⟩
  · exact mem_insert.mpr (.inr hx.own)
  · intro k other hk hget
    refine hx.fresh k other hk ?_
    rwa [AccumulateContext.setAccount, hx.serviceId, lookup_insert_of_ne _ hk] at hget

theorem Secluded.create (hx : Secluded s x) {newId : ServiceId} {account : ServiceAccount}
    (hfresh : Fresh account) (hnew : newId ∉ x.accumulationState.serviceState) :
    Secluded s (createIn x newId account) := by
  have hself : Secluded s { x with newServiceId := newId } := ⟨hx.serviceId, hx.own, hx.fresh⟩
  have hown := hself.setOwn { x.serviceAccount with
    balance := x.serviceAccount.balance - Constants.basicMinimumBalance }
  refine ⟨hx.serviceId, mem_insert.mpr (.inr hown.own), ?_⟩
  intro k other hk hget
  by_cases hkn : k = newId
  · subst hkn
    rw [createIn, AccumulateContext.setAccount, lookup_insert] at hget
    cases hget
    exact hfresh
  · rw [createIn, AccumulateContext.setAccount, lookup_insert_of_ne _ hkn] at hget
    exact hown.fresh k other hk hget

theorem Secluded.step {f : Option HostFunction} {x y : AccumulateContextPair}
    (hx : Secluded s x.regularCtx) (h : ContextStep f x y) :
    Secluded s y.regularCtx ∧ (∀ k ∈ x.regularCtx.accumulationState.serviceState,
        k ∈ y.regularCtx.accumulationState.serviceState) ∧
      (f ≠ some .newID → ∀ k ∈ y.regularCtx.accumulationState.serviceState,
        k ∈ x.regularCtx.accumulationState.serviceState) := by
  cases h with
  | same => exact ⟨hx, fun k hk => hk, fun _ k hk => hk⟩
  | fields u hid hstate =>
    refine ⟨⟨hid.trans hx.serviceId, ?_, ?_⟩, fun k hk => ?_, fun _ k hk => ?_⟩
    · rw [hstate]
      exact hx.own
    · rw [hstate]
      exact hx.fresh
    · rwa [hstate]
    · rwa [hstate] at hk
  | sent t hsender =>
    exact ⟨⟨hx.serviceId, hx.own, hx.fresh⟩, fun k hk => hk, fun _ k hk => hk⟩
  | own account =>
    refine ⟨hx.setOwn account, fun k hk => mem_insert.mpr (.inr hk), fun _ k hk => ?_⟩
    rcases mem_insert.mp hk with rfl | hk
    · rw [hx.serviceId]
      exact hx.own
    · exact hk
  | created hf newId account hfresh hnew =>
    refine ⟨hx.create hfresh hnew, fun k hk => ?_, fun hne => absurd hf hne⟩
    exact mem_insert.mpr (.inr (mem_insert.mpr (.inr hk)))
  | ejected _ d account hd hget hitems =>
    rw [hx.serviceId] at hd
    exact absurd hitems (hx.fresh d account hd hget).totalItems_ne

structure Logged (s : ServiceId) (y : AccumulateContextPair × RunLog) : Prop where
  secluded : Secluded s y.1.regularCtx
  mem_iff : ∀ k, k ∈ y.1.regularCtx.accumulationState.serviceState ↔ k = s ∨ k ∈ y.2.created
  ejected : y.2.ejected = ∅

variable {a : Accumulator} {fuel : Nat} {accState : AccumulationState}

theorem Logged.note {index : UInt64} {x : AccumulateContextPair} {log : RunLog}
    {r : HostResult AccumulateContextPair} (h : Logged s (x, log))
    (hsec : Secluded s r.x.regularCtx)
    (hkeep : ∀ k ∈ x.regularCtx.accumulationState.serviceState,
      k ∈ r.x.regularCtx.accumulationState.serviceState)
    (hnew : HostFunction.ofNumber index ≠ some .newID →
      ∀ k ∈ r.x.regularCtx.accumulationState.serviceState,
        k ∈ x.regularCtx.accumulationState.serviceState) :
    Logged s (r.x, noteServices index x r log) := by
  have hsame : HostFunction.ofNumber index ≠ some .newID →
      ∀ k, k ∈ r.x.regularCtx.accumulationState.serviceState ↔ k = s ∨ k ∈ log.created :=
    fun hne k => ⟨fun hk => (h.mem_iff k).mp (hnew hne k hk),
      fun hk => hkeep k ((h.mem_iff k).mpr hk)⟩
  unfold noteServices
  dsimp only
  split
  · refine ⟨hsec, fun k => ?_, h.ejected⟩
    simp only [Finset.mem_union, Finset.mem_sdiff, mem_keys]
    constructor
    · intro hk
      by_cases hbefore : k ∈ x.regularCtx.accumulationState.serviceState
      · exact ((h.mem_iff k).mp hbefore).imp_right .inl
      · exact .inr (.inr ⟨hk, hbefore⟩)
    · rintro (hk | hk | hk)
      · exact hkeep k ((h.mem_iff k).mpr (.inl hk))
      · exact hkeep k ((h.mem_iff k).mpr (.inr hk))
      · exact hk.1
  · next hf =>
    refine ⟨hsec, hsame (by rw [hf]; decide), ?_⟩
    have hnone : x.regularCtx.accumulationState.serviceState.keys \
        r.x.regularCtx.accumulationState.serviceState.keys = ∅ := by
      rw [Finset.sdiff_eq_empty_iff_subset]
      intro k hk
      exact mem_keys.mpr (hkeep k (mem_keys.mp hk))
    rw [hnone, h.ejected, Finset.union_empty]
  · next hf _ => exact ⟨hsec, hsame hf, h.ejected⟩

theorem Logged.call {index : UInt64} {gas : Gas} {regs : Registers} {mem : Memory}
    {y : AccumulateContextPair × RunLog} {r : HostResult (AccumulateContextPair × RunLog)}
    (hy : Logged s y)
    (h : observed noteServices (accumulateHostCall a accState s) index gas regs mem y = .ret r) :
    Logged s r.x := by
  obtain ⟨r₀, hr₀, rfl⟩ := map_eq_ret.mp h
  obtain ⟨-, ⟨hcheck, hx⟩ | ⟨-, hstep⟩, -⟩ := accumulateHostCall_post _ _ _ _ _ _ _ _ r₀ hr₀
  · have hreg : r₀.x.regularCtx = y.1.regularCtx := by rw [hx]
    refine hy.note ?_ ?_ ?_
    · rw [hreg]
      exact hy.secluded
    · intro k hk
      rwa [hreg]
    · intro _ k hk
      rwa [hreg] at hk
  · obtain ⟨hsec, hkeep, hnew⟩ := hy.secluded.step hstep
    exact hy.note hsec hkeep hnew

theorem logged_newCtx {ctx : AccumulateContext} (h : newCtx a accState s = .ret ctx) :
    Logged s (⟨ctx, ctx⟩, .empty) := by
  rw [newCtx, bind_eq_ret] at h
  obtain ⟨_, -, h⟩ := h
  cases h
  refine ⟨⟨rfl, (mem_singleton _ _ _).mpr rfl, ?_⟩, fun k => ?_, rfl⟩
  · intro k account hk hget
    have hmem := mem_of_lookup_eq_some hget
    exact absurd ((mem_singleton _ _ _).mp hmem) hk
  · simp [RunLog.empty, mem_singleton]

section

variable (a : Accumulator) (fuel : Nat) (u : AccumulationState) (reports : List WorkReport)
  (free : GoMap ServiceId UInt64)

variable {a fuel u reports free}

theorem runServices_spec {order : List ServiceId} {r r' : Round}
    (h : runServices a fuel u reports free order r = .ret r') :
    (∀ s ∈ order, (delta1 a fuel u reports free s).Returns) ∧
      (∀ k, k ∈ r'.resultServicesExclude ↔ k ∈ r.resultServicesExclude ∨
        ∃ s ∈ order, ∃ res, delta1 a fuel u reports free s = .ret res ∧
          k ∈ u.serviceState ∧ k ∉ res.accumulationState.serviceState) ∧
      ∀ k, k ∈ r'.allResultServices ↔ k ∈ r.allResultServices ∨
        ∃ s ∈ order, ∃ res, delta1 a fuel u reports free s = .ret res ∧
          k ∈ res.accumulationState.serviceState ∧ (k = s ∨ k ∉ u.serviceState) := by
  induction order generalizing r with
  | nil =>
    cases h
    simp
  | cons s₀ order ih =>
    rw [runServices, List.foldlM_cons, bind_eq_ret] at h
    obtain ⟨r₁, hr₁, h⟩ := h
    rw [bind_eq_ret] at hr₁
    obtain ⟨res, hres, hr₁⟩ := hr₁
    cases hr₁
    obtain ⟨hreturns, hexclude, hall⟩ := ih h
    refine ⟨?_, fun k => ?_, fun k => ?_⟩
    · intro s hs
      rcases List.mem_cons.mp hs with rfl | hs
      · exact ⟨res, hres⟩
      · exact hreturns s hs
    · rw [hexclude]
      simp only [Round.merge, Finset.mem_union, Finset.mem_filter, mem_keys, List.mem_cons,
        exists_eq_or_imp, hres, Outcome.ret.injEq, exists_eq_left', or_assoc]
    · rw [hall]
      simp only [Round.merge, mem_copy, mem_filterKeys, List.mem_cons, exists_eq_or_imp,
        hres, Outcome.ret.injEq, exists_eq_left', decide_eq_true_eq]
      constructor
      · rintro ((⟨hk, hmem⟩ | hk) | hk)
        · exact .inr (.inl ⟨hmem, hk⟩)
        · exact .inl hk
        · exact .inr (.inr hk)
      · rintro (hk | ⟨hmem, hk⟩ | hk)
        · exact .inl (.inr hk)
        · exact .inl (.inl ⟨hk, hmem⟩)
        · exact .inr hk

end

end Strawberry.StateTransition
