import Strawberry.HostCall.Atomicity
import Strawberry.StateTransition.ServiceSet

/-!
# The identifiers of new services

`New` returns the identifier that the context has ready, looks for the next one, and stores the
account under that.
-/

namespace Strawberry.StateTransition

open Polkavm Interpreter Service State Block HostCall List

structure NewCall where
  /-- The identifiers in use in the context of the call. -/
  before : Finset ServiceId
  /-- What the result register holds. -/
  returned : UInt64
  /-- The key of the new account. -/
  stored : ServiceId

inductive NewRun (a : Accumulator) (accState : AccumulationState) (s : ServiceId)
    (x : AccumulateContextPair) : List NewCall → AccumulateContextPair → Prop where
  | start : NewRun a accState s x [] x
  | other {calls : List NewCall} {y : AccumulateContextPair} {hostCall : UInt64} {gas : Gas}
    {regs : Registers} {mem : Memory} {r : HostResult AccumulateContextPair}
    (hrun : NewRun a accState s x calls y)
    (hcall : accumulateHostCall a accState s hostCall gas regs mem y = .ret r)
    (hother : HostFunction.ofNumber hostCall = some .newID → Failed r) :
    NewRun a accState s x calls r.x
  | new {calls : List NewCall} {y : AccumulateContextPair} {hostCall : UInt64} {gas : Gas}
    {regs : Registers} {mem : Memory} {r : HostResult AccumulateContextPair} {id : ServiceId}
    (hrun : NewRun a accState s x calls y)
    (hcall : accumulateHostCall a accState s hostCall gas regs mem y = .ret r)
    (hnew : HostFunction.ofNumber hostCall = some .newID) (hdone : ¬ Failed r)
    (hid : id ∈ r.x.regularCtx.accumulationState.serviceState)
    (hid' : id ∉ y.regularCtx.accumulationState.serviceState) :
    NewRun a accState s x
      (calls ++ [⟨y.regularCtx.accumulationState.serviceState.keys, r.regs.get Reg.A0, id⟩]) r.x

structure HonestIds (calls : List NewCall) : Prop where
  stored : ∀ c ∈ calls, c.returned = c.stored.toUInt64
  unused : ∀ c ∈ calls, ∀ id ∈ c.before, c.returned ≠ id.toUInt64
  distinct : (calls.map NewCall.returned).Nodup

theorem toNat_index (i step : ServiceId) : ((i - bit8 + step) % indexSpan + bit8).toNat =
    ((i.toNat + (2 ^ 32 - 256) + step.toNat) % 2 ^ 32) % (2 ^ 32 - 512) + 256 := by
  have hspan : indexSpan.toNat = 2 ^ 32 - 512 := rfl
  have hbit : bit8.toNat = 256 := rfl
  rw [UInt32.toNat_add, UInt32.toNat_mod, UInt32.toNat_add, UInt32.toNat_sub, hspan, hbit]
  omega

theorem toNat_bumpIndex (i : ServiceId) :
    (bumpIndex i).toNat = ((i.toNat + (2 ^ 32 - 256) + 42) % 2 ^ 32) % (2 ^ 32 - 512) + 256 :=
  toNat_index i 42

theorem toNat_nextIndex (i : ServiceId) :
    (nextIndex i).toNat = ((i.toNat + (2 ^ 32 - 256) + 1) % 2 ^ 32) % (2 ^ 32 - 512) + 256 :=
  toNat_index i 1

theorem bumpIndex_ne (i : ServiceId) : bumpIndex i ≠ i ∧ nextIndex (bumpIndex i) ≠ i := by
  have hbump := toNat_bumpIndex i
  have hnext := toNat_nextIndex (bumpIndex i)
  constructor
  · intro heq
    rw [heq] at hbump
    omega
  · intro heq
    rw [heq] at hnext
    omega

theorem checkIndex_ne {d : ServiceState} {s i j : ServiceId} (hd : ∀ k, k ∈ d ↔ k = s)
    (h : checkIndex (bumpIndex i) d = .ret j) : j ≠ i := by
  obtain ⟨k, -, htaken, hfree, rfl⟩ := checkIndexWithin_eq_ret.mp h
  obtain ⟨hfirst, hsecond⟩ := bumpIndex_ne i
  rcases k with _ | _ | k
  · exact hfirst
  · exact hsecond
  · -- two candidates that are both taken would be the same
    have hzero := (hd _).mp (htaken 0 (by omega))
    have hone := (hd _).mp (htaken 1 (by omega))
    have hsame : 0 = 1 := nextIndex_iterate_injOn htaken hfree (by simp) (by simp)
      (hzero.trans hone.symm)
    cases hsame

def candidate (start : ServiceId) (k : Nat) : ServiceId :=
  UInt32.ofNat (2 ^ 8 + (start.toNat - 2 ^ 8 + k) % (2 ^ 32 - 2 ^ 9))

structure Fresh (d : ServiceState) (start id : ServiceId) : Prop where
  unused : id ∉ d
  low : 2 ^ 8 ≤ id.toNat
  high : id.toNat ≤ 2 ^ 32 - 2 ^ 8 - 1
  first : ∃ k, id = candidate start k ∧ ∀ a < k, candidate start a ∈ d

section

variable {d : ServiceState} {start : ServiceId}

variable (start) in
theorem toNat_candidate (k : Nat) :
    (candidate start k).toNat = 2 ^ 8 + (start.toNat - 2 ^ 8 + k) % (2 ^ 32 - 2 ^ 9) := by
  rw [candidate, UInt32.toNat_ofNat']
  omega

theorem candidate_injOn : Set.InjOn (candidate start) (Finset.range (2 ^ 32 - 2 ^ 9)) := by
  intro a ha b hb heq
  have hnat := congrArg UInt32.toNat heq
  rw [Finset.coe_range, Set.mem_Iio] at ha hb
  rw [toNat_candidate, toNat_candidate] at hnat
  omega

variable (start) in
theorem exists_free (hd : d.len < 2 ^ 32 - 2 ^ 9) : ∃ k ≤ d.len, candidate start k ∉ d := by
  have hrange : Finset.range (d.len + 1) ⊆ Finset.range (2 ^ 32 - 2 ^ 9) :=
    Finset.range_subset_range.mpr hd
  have hcard : ((Finset.range (d.len + 1)).image (candidate start)).card = d.len + 1 := by
    rw [Finset.card_image_of_injOn (candidate_injOn.mono (Finset.coe_subset.mpr hrange)),
      Finset.card_range]
  have hlt : d.keys.card < ((Finset.range (d.len + 1)).image (candidate start)).card := by
    rw [hcard]
    exact Nat.lt_succ_self _
  obtain ⟨id, hid, hfree⟩ := Finset.exists_mem_notMem_of_card_lt_card hlt
  obtain ⟨k, hk, rfl⟩ := Finset.mem_image.mp hid
  exact ⟨k, Nat.lt_succ_iff.mp (Finset.mem_range.mp hk),
    fun hmem => hfree (Finmap.mem_keys.mpr hmem)⟩

variable (hlow : 2 ^ 8 ≤ start.toNat) (hhigh : start.toNat ≤ 2 ^ 32 - 2 ^ 8 - 1)

include hlow hhigh

theorem nextIndex_iterate (k : Nat) : nextIndex^[k] start = candidate start k := by
  apply UInt32.toNat_inj.mp
  induction k with
  | zero =>
    rw [Function.iterate_zero_apply, toNat_candidate]
    omega
  | succ k ih =>
    rw [Function.iterate_succ_apply', toNat_nextIndex, ih, toNat_candidate, toNat_candidate]
    omega

theorem checkIndex_fresh (hd : d.len < 2 ^ 32 - 2 ^ 9) :
    ∃ id, checkIndex start d = .ret id ∧ Fresh d start id := by
  obtain ⟨k, hk, hfree⟩ := exists_free start hd
  have hexists : ∃ k, candidate start k ∉ d := ⟨k, hfree⟩
  have hbound := (Nat.find_min' hexists hfree).trans hk
  have htaken : ∀ a < Nat.find hexists, candidate start a ∈ d := fun a ha =>
    not_not.mp (Nat.find_min hexists ha)
  have hnat := toNat_candidate start (Nat.find hexists)
  refine ⟨candidate start (Nat.find hexists), checkIndexWithin_eq_ret.mpr ?_,
    ⟨Nat.find_spec hexists, by omega, by omega, _, rfl, htaken⟩⟩
  simp only [nextIndex_iterate hlow hhigh]
  exact ⟨_, Nat.lt_succ_of_le hbound, htaken, Nat.find_spec hexists, rfl⟩

end

/-- The search ends at a free identifier. -/
theorem fresh_identifiers (seed : ServiceId) (d : ServiceState) (hd : d.len < 2 ^ 32 - 2 ^ 9) :
    (∃ id, deriveIndex seed d = .ret id ∧ Fresh d (nextIndex seed) id) ∧
      ∃ id, checkIndex (bumpIndex seed) d = .ret id ∧ Fresh d (bumpIndex seed) id := by
  have hnext := toNat_nextIndex seed
  have hbump := toNat_bumpIndex seed
  exact ⟨checkIndex_fresh (by omega) (by omega) hd, checkIndex_fresh (by omega) (by omega) hd⟩

/-- The derived start 1001 and the one after it are taken, and so is the bumped index 1042. -/
def takenServices : ServiceState :=
  ((Finmap.singleton 1001 ServiceAccount.zero).insert 1002 .zero).insert 1042 .zero

theorem fresh_identifiers_when_taken :
    nextIndex 1000 ∈ takenServices ∧ bumpIndex 1000 ∈ takenServices ∧
      deriveIndex 1000 takenServices = .ret 1003 ∧
      (∃ id, deriveIndex 1000 takenServices = .ret id ∧
        Fresh takenServices (nextIndex 1000) id) ∧
      ∃ id, checkIndex (bumpIndex 1000) takenServices = .ret id ∧
        Fresh takenServices (bumpIndex 1000) id :=
  ⟨by decide, by decide, by decide, fresh_identifiers 1000 takenServices (by decide)⟩

variable {a : Accumulator} {accState : AccumulationState} {s : ServiceId} {hostCall : UInt64}
  {gas : Gas} {regs : Registers} {mem : Memory} {x : AccumulateContextPair}

theorem accumulateHostCall_new (h : HostFunction.ofNumber hostCall = some .newID) :
    accumulateHostCall a accState s hostCall gas regs mem x = new gas regs mem x := by
  unfold accumulateHostCall
  rw [h]

theorem accumulateHostCall_sameReady :
    (accumulateHostCall a accState s hostCall gas regs mem x).Post fun r =>
      (HostFunction.ofNumber hostCall = some .newID → Failed r) → SameReady x r := by
  intro r hr hother
  by_cases hf : HostFunction.ofNumber hostCall = some .newID
  · rw [accumulateHostCall_new hf] at hr
    rw [SameReady, new_failed r hr (hother hf)]
  · exact (accumulateHostCall_post _ _ _ _ _ _ _ _ r hr).ready hf

theorem accumulateHostCall_secluded (hx : Secluded s x.regularCtx) :
    (accumulateHostCall a accState s hostCall gas regs mem x).Post fun r =>
      Secluded s r.x.regularCtx ∧ ((HostFunction.ofNumber hostCall = some .newID → Failed r) →
          ∀ k, k ∈ r.x.regularCtx.accumulationState.serviceState ↔
            k ∈ x.regularCtx.accumulationState.serviceState) := by
  intro r hr
  rcases (accumulateHostCall_post _ _ _ _ _ _ _ _ r hr).contexts with ⟨-, hcheck⟩ | ⟨-, hstep⟩
  · rw [hcheck]
    exact ⟨hx, fun _ _ => Iff.rfl⟩
  · obtain ⟨hsec, hkeep, hnew⟩ := hx.step hstep
    refine ⟨hsec, fun hother k => ⟨?_, hkeep k⟩⟩
    by_cases hf : HostFunction.ofNumber hostCall = some .newID
    · rw [accumulateHostCall_new hf] at hr
      rw [new_failed r hr (hother hf)]
      exact id
    · exact hnew hf k

structure Numbered (s i₀ : ServiceId) (calls : List NewCall) (y : AccumulateContext) : Prop where
  secluded : Secluded s y
  mem_iff : ∀ k, k ∈ y.accumulationState.serviceState ↔ k = s ∨ k ∈ calls.map NewCall.stored
  /-- The first identifier and the stored ones are the returned ones and that which is ready. -/
  chain : i₀ :: calls.map NewCall.stored =
    (calls.map fun c => c.returned.toUInt32) ++ [y.newServiceId]
  returned : ∀ c ∈ calls, c.returned.toUInt32.toUInt64 = c.returned
  nodup : (calls.map NewCall.stored).Nodup
  unused : ∀ c ∈ calls, c.stored ∉ c.before
  differ : ∀ c ∈ calls, c.returned ≠ c.stored.toUInt64

variable {i₀ : ServiceId} {calls : List NewCall} {y : AccumulateContextPair}

variable {r : HostResult AccumulateContextPair} {id : ServiceId}

theorem Numbered.other (hy : Numbered s i₀ calls y.regularCtx)
    (hcall : accumulateHostCall a accState s hostCall gas regs mem y = .ret r)
    (hother : HostFunction.ofNumber hostCall = some .newID → Failed r) :
    Numbered s i₀ calls r.x.regularCtx := by
  obtain ⟨hsec, hkeys⟩ := accumulateHostCall_secluded hy.secluded r hcall
  have hready := accumulateHostCall_sameReady r hcall hother
  refine ⟨hsec, fun k => (hkeys hother k).trans (hy.mem_iff k), ?_, hy.returned, hy.nodup,
    hy.unused, hy.differ⟩
  rw [hready]
  exact hy.chain

theorem Numbered.ready_ne {y : AccumulateContext} (hy : Numbered s i₀ calls y)
    (hcheck : checkIndex (bumpIndex y.newServiceId) y.accumulationState.serviceState = .ret id) :
    id ≠ y.newServiceId := by
  cases calls with
  | nil =>
    refine checkIndex_ne (s := s) (fun k => ?_) hcheck
    rw [hy.mem_iff, map_nil]
    simp
  | cons c calls =>
    have hchain := hy.chain
    rw [map_cons, map_cons, cons_append, List.cons.injEq, ← map_cons] at hchain
    have hready : y.newServiceId ∈ (c :: calls).map NewCall.stored := by
      rw [hchain.2]
      exact mem_append_right _ (mem_singleton_self _)
    rintro rfl
    exact checkIndex_notMem hcheck ((hy.mem_iff _).mpr (.inr hready))

theorem Numbered.new (hy : Numbered s i₀ calls y.regularCtx)
    (hcall : HostCall.new gas regs mem y = .ret r) (hdone : ¬ Failed r)
    (hid : id ∈ r.x.regularCtx.accumulationState.serviceState)
    (hid' : id ∉ y.regularCtx.accumulationState.serviceState) :
    Numbered s i₀
      (calls ++ [⟨y.regularCtx.accumulationState.serviceState.keys, r.regs.get Reg.A0, id⟩])
      r.x.regularCtx := by
  obtain ⟨newId, account, -, -, hA0, hfresh, hcheck, hx⟩ | ⟨-, hfailed⟩ := (new_post r hcall).2
  swap
  · exact absurd hfailed hdone
  have hfree := checkIndex_notMem hcheck
  have hself := hy.secluded.serviceId
  have hkeys : ∀ k, k ∈ r.x.regularCtx.accumulationState.serviceState ↔
      k = newId ∨ k ∈ y.regularCtx.accumulationState.serviceState := by
    intro k
    rw [hx]
    change k ∈ (Finmap.insert _ _ (Finmap.insert _ _ _)) ↔ _
    rw [Finmap.mem_insert, Finmap.mem_insert]
    constructor
    · rintro (rfl | rfl | hk)
      · exact .inl rfl
      · exact .inr (hself ▸ hy.secluded.own)
      · exact .inr hk
    · rintro (rfl | hk)
      · exact .inl rfl
      · exact .inr (.inr hk)
  obtain rfl : id = newId := ((hkeys id).mp hid).resolve_right hid'
  have hnext : r.x.regularCtx.newServiceId = id := by
    rw [hx]
    rfl
  refine ⟨?_, ?_, ?_, ?_, ?_, ?_, ?_⟩
  · rw [hx]
    exact hy.secluded.create hfresh hfree
  · intro k
    rw [hkeys, hy.mem_iff, map_append, mem_append, map_singleton, mem_singleton]
    tauto
  · rw [map_append, map_append, ← cons_append, hy.chain, hnext, hA0]
    simp
  · intro c hc
    rcases mem_append.mp hc with hc | hc
    · exact hy.returned c hc
    · rw [mem_singleton.mp hc, hA0]
      simp
  · rw [map_append, map_singleton]
    refine nodup_append.mpr ⟨hy.nodup, nodup_singleton _, ?_⟩
    rintro k hk _ hid'' rfl
    rw [mem_singleton] at hid''
    subst hid''
    exact hid' ((hy.mem_iff k).mpr (.inr hk))
  · intro c hc
    rcases mem_append.mp hc with hc | hc
    · exact hy.unused c hc
    · rw [mem_singleton.mp hc, Finmap.mem_keys]
      exact hid'
  · intro c hc
    rcases mem_append.mp hc with hc | hc
    · exact hy.differ c hc
    · rw [mem_singleton.mp hc, hA0]
      intro heq
      have hsame : y.regularCtx.newServiceId = id := by
        simpa using congrArg UInt64.toUInt32 heq
      exact hy.ready_ne hcheck hsame.symm

theorem numbered_newCtx {ctx : AccumulateContext} (h : newCtx a accState s = .ret ctx) :
    Numbered s ctx.newServiceId [] ctx := by
  have hlogged := logged_newCtx h
  refine ⟨hlogged.secluded, fun k => ?_, rfl, nofun, nodup_nil, nofun, nofun⟩
  rw [hlogged.mem_iff k]
  simp [RunLog.empty]

theorem NewRun.numbered (hx : Numbered s i₀ [] x.regularCtx)
    (hrun : NewRun a accState s x calls y) : Numbered s i₀ calls y.regularCtx := by
  induction hrun with
  | start => exact hx
  | other _ hcall hother ih => exact ih.other hcall hother
  | new _ hcall hnew hdone hid hid' ih =>
    rw [accumulateHostCall_new hnew] at hcall
    exact ih.new hcall hdone hid hid'

theorem Numbered.returned_eq {y : AccumulateContext} (hy : Numbered s i₀ calls y) :
    calls.map NewCall.returned = (i₀ :: calls.map NewCall.stored).dropLast.map UInt32.toUInt64 := by
  rw [hy.chain, dropLast_concat, map_map]
  refine map_congr_left fun c hc => ?_
  exact (hy.returned c hc).symm

theorem Numbered.nodup_returned_iff {y : AccumulateContext} (hy : Numbered s i₀ calls y) :
    (calls.map NewCall.returned).Nodup ↔ i₀ ∉ (calls.map NewCall.stored).dropLast := by
  have hinj : Function.Injective UInt32.toUInt64 := by
    intro i j hij
    simpa using congrArg UInt64.toUInt32 hij
  rw [hy.returned_eq, nodup_map_iff hinj]
  cases hstored : calls.map NewCall.stored with
  | nil => simp
  | cons id ids =>
    have hnodup := hy.nodup
    rw [hstored] at hnodup
    rw [dropLast_cons_of_ne_nil (cons_ne_nil _ _), nodup_cons]
    exact and_iff_left (hnodup.sublist (dropLast_sublist _))

/-- Which identifiers a run of New returns. -/
theorem new_identifiers {a : Accumulator} {accState : AccumulationState} {s : ServiceId}
    {ctx : AccumulateContext} {calls : List NewCall} {y : AccumulateContextPair}
    (hctx : newCtx a accState s = .ret ctx) (hrun : NewRun a accState s ⟨ctx, ctx⟩ calls y) :
    (HonestIds calls ↔ calls = []) ∧ (∀ c ∈ calls, c.returned ≠ c.stored.toUInt64) ∧
      calls.map NewCall.returned =
        (ctx.newServiceId :: calls.map NewCall.stored).dropLast.map UInt32.toUInt64 ∧
      (∀ c ∈ calls, c.stored ∉ c.before) ∧ (calls.map NewCall.stored).Nodup ∧
      ((calls.map NewCall.returned).Nodup ↔
        ctx.newServiceId ∉ (calls.map NewCall.stored).dropLast) := by
  have hy := hrun.numbered (numbered_newCtx hctx)
  refine ⟨⟨?_, ?_⟩, hy.differ, hy.returned_eq, hy.unused, hy.nodup, hy.nodup_returned_iff⟩
  · intro hhonest
    cases calls with
    | nil => rfl
    | cons c calls =>
      exact absurd (hhonest.stored c mem_cons_self) (hy.differ c mem_cons_self)
  · rintro rfl
    exact ⟨nofun, nofun, nodup_nil⟩

def threeServices : AccumulationState :=
  { twoServices.accumulationState with
    serviceState := twoServices.accumulationState.serviceState.insert 555 .zero }

theorem creation_by_one : ∃ ctx r, newCtx nullAccumulator threeServices 1 = .ret ctx ∧
      accumulateHostCall nullAccumulator threeServices 1 9 100 (withArgs 0xFEFF0000 0 0 0)
        memoMemory ⟨ctx, ctx⟩ = .ret r ∧ ¬ Failed r ∧ r.regs.get Reg.A0 = 513 ∧
      513 ∉ r.x.regularCtx.accumulationState.serviceState ∧
      555 ∉ ctx.accumulationState.serviceState ∧
      555 ∈ r.x.regularCtx.accumulationState.serviceState := by
  have hrun : (do
      let ctx ← newCtx nullAccumulator threeServices 1
      let r ← accumulateHostCall nullAccumulator threeServices 1 9 100
        (withArgs 0xFEFF0000 0 0 0) memoMemory ⟨ctx, ctx⟩
      return (r.regs.get Reg.A0, r.err.isNone,
        decide (513 ∈ r.x.regularCtx.accumulationState.serviceState),
        decide (555 ∈ ctx.accumulationState.serviceState),
        decide (555 ∈ r.x.regularCtx.accumulationState.serviceState))) =
      .ret (513, true, false, false, true) := by decide +kernel
  obtain ⟨ctx, hctx, hrun⟩ := bind_eq_ret.mp hrun
  obtain ⟨r, hr, hrun⟩ := bind_eq_ret.mp hrun
  simp only [pure_eq, Outcome.ret.injEq, Prod.mk.injEq, Option.isNone_iff_eq_none,
    decide_eq_false_iff_not, decide_eq_true_eq] at hrun
  obtain ⟨hA0, herr, hfirst, hbefore, hafter⟩ := hrun
  refine ⟨ctx, r, hctx, hr, ?_, hA0, hfirst, hbefore, hafter⟩
  rintro (h | ⟨code, hcode, h⟩)
  · exact h herr
  · rw [hA0] at h
    revert code
    decide

theorem new_identifiers_of_one_call : ∃ ctx y c, newCtx nullAccumulator threeServices 1 = .ret ctx ∧
      NewRun nullAccumulator threeServices 1 ⟨ctx, ctx⟩ [c] y ∧
      c.returned ≠ c.stored.toUInt64 ∧ c.stored ∉ c.before := by
  obtain ⟨ctx, r, hctx, hr, hdone, -, -, hbefore, hafter⟩ := creation_by_one
  have hcalls := NewRun.new .start hr rfl hdone hafter hbefore
  obtain ⟨-, hdiffer, -, hunused, -, -⟩ := new_identifiers hctx hcalls
  exact ⟨ctx, r.x, _, hctx, hcalls, hdiffer _ mem_cons_self, hunused _ mem_cons_self⟩

theorem returned_identifier_unused : 555 ∈ threeServices.serviceState ∧
      ∃ ctx r, newCtx nullAccumulator threeServices 1 = .ret ctx ∧
        accumulateHostCall nullAccumulator threeServices 1 9 100 (withArgs 0xFEFF0000 0 0 0)
          memoMemory ⟨ctx, ctx⟩ = .ret r ∧ ¬ Failed r ∧ r.regs.get Reg.A0 = 513 ∧
        513 ∉ r.x.regularCtx.accumulationState.serviceState ∧
        555 ∉ ctx.accumulationState.serviceState ∧
        555 ∈ r.x.regularCtx.accumulationState.serviceState :=
  ⟨by decide +kernel, creation_by_one⟩

end Strawberry.StateTransition
