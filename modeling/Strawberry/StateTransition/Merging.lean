import Mathlib.Algebra.Order.BigOperators.Group.Finset
import Strawberry.HostCall.Atomicity
import Strawberry.Lib.Ranked
import Strawberry.StateTransition.OnTransfer
import Strawberry.StateTransition.ServiceSet

/-!
# Merging the results of a round

The order of the services shows in the transfers and hash pairs, and is gone after the sorts.
-/

namespace Strawberry.StateTransition

open Polkavm Interpreter Service State Block HostCall List

structure OwnTransfers (s : ServiceId) (x : AccumulateContextPair) : Prop where
  serviceId : x.regularCtx.serviceId = s
  regular : ∀ t ∈ x.regularCtx.deferredTransfers, t.senderServiceIndex = s
  exceptional : ∀ t ∈ x.exceptionalCtx.deferredTransfers, t.senderServiceIndex = s

variable {a : Accumulator} {fuel : Nat} {u : AccumulationState} {s : ServiceId}

theorem OwnTransfers.step {f : Option HostFunction} {x y : AccumulateContextPair}
    (hx : OwnTransfers s x) (h : ContextStep f x y) : OwnTransfers s y := by
  cases h with
  | same => exact hx
  | fields u hid _ htransfers =>
    refine ⟨hid.trans hx.serviceId, ?_, hx.exceptional⟩
    intro t ht
    rw [htransfers] at ht
    exact hx.regular t ht
  | sent t hsender =>
    refine ⟨hx.serviceId, ?_, hx.exceptional⟩
    intro t' ht'
    rcases mem_append.mp ht' with hold | hnew
    · exact hx.regular t' hold
    · rw [mem_singleton.mp hnew, hsender, hx.serviceId]
  | own | created | ejected => exact ⟨hx.serviceId, hx.regular, hx.exceptional⟩

theorem OwnTransfers.call {index : UInt64} {gas : Gas} {regs : Registers} {mem : Memory}
    {x : AccumulateContextPair} {r : HostResult AccumulateContextPair} (hx : OwnTransfers s x)
    (h : accumulateHostCall a u s index gas regs mem x = .ret r) : OwnTransfers s r.x := by
  rcases (accumulateHostCall_post _ _ _ _ _ _ _ _ r h).contexts with ⟨-, hcheck⟩ | ⟨-, hstep⟩
  · rw [hcheck]
    exact ⟨hx.serviceId, hx.regular, hx.regular⟩
  · exact hx.step hstep

theorem ownTransfers_newCtx {ctx : AccumulateContext} (h : newCtx a u s = .ret ctx) :
    OwnTransfers s ⟨ctx, ctx⟩ := by
  have hnone := newCtx_deferredTransfers h
  have hown : ∀ t ∈ ctx.deferredTransfers, t.senderServiceIndex = s := by
    intro t ht
    rw [hnone] at ht
    exact absurd ht not_mem_nil
  exact ⟨(logged_newCtx h).secluded.serviceId, hown, hown⟩

theorem delta1_senders {reports : List WorkReport} {free : GoMap ServiceId UInt64}
    {res : Accumulated} (h : delta1 a fuel u reports free s = .ret res) :
    ∀ t ∈ res.deferredTransfers, t.senderServiceIndex = s := by
  obtain ⟨ctx, hctx, ⟨-, rfl⟩ | ⟨code, args, r, -, -, hr, rfl⟩⟩ := invokePVM_cases h
  · intro t ht
    exact absurd ht not_mem_nil
  · have hown : OwnTransfers s r.x := invokeWholeProgram_invariant (I := OwnTransfers s) hr
      (ownTransfers_newCtx hctx) fun _ _ _ _ _ _ hx hcall => hx.call hcall
    unfold selectContext
    split
    · exact hown.exceptional
    · exact hown.regular

variable {initial : ServiceState} {run : ServiceId → Accumulated}

def mergeAll (initial : ServiceState) (run : ServiceId → Accumulated) (order : List ServiceId)
    (r : Round) : Round :=
  order.foldl (fun r s => r.merge initial s (run s)) r

def contribution (initial : ServiceState) (s : ServiceId) (res : Accumulated) : ServiceState :=
  res.accumulationState.serviceState.filterKeys fun id => id = s ∨ id ∉ initial

def hashPair (s : ServiceId) (res : Accumulated) : List ServiceHashPair :=
  (res.hash.map (ServiceHashPair.mk s)).toList

theorem mergeAll_allTransfers (order : List ServiceId) (r : Round) :
    (mergeAll initial run order r).allTransfers =
      r.allTransfers ++ order.flatMap fun s => (run s).deferredTransfers := by
  rw [flatMap_def, ← foldl_append_eq_append]
  exact (foldl_hom Round.allTransfers fun _ _ => rfl).symm

theorem mergeAll_accumHashPairs (order : List ServiceId) (r : Round) :
    (mergeAll initial run order r).accumHashPairs =
      r.accumHashPairs ++ order.flatMap fun s => hashPair s (run s) := by
  rw [flatMap_def, ← foldl_append_eq_append]
  exact (foldl_hom Round.accumHashPairs fun _ _ => rfl).symm

theorem mergeAll_totalGasUsed (order : List ServiceId) (r : Round) :
    (mergeAll initial run order r).totalGasUsed =
      order.foldl (fun gas s => gas + (run s).gas) r.totalGasUsed :=
  (foldl_hom Round.totalGasUsed fun _ _ => rfl).symm

theorem mergeAll_allResultServices (order : List ServiceId) (r : Round) :
    (mergeAll initial run order r).allResultServices =
      order.foldl (fun d s => d.copy (contribution initial s (run s))) r.allResultServices :=
  (foldl_hom Round.allResultServices fun _ _ => rfl).symm

theorem mergeAll_resultServicesExclude (order : List ServiceId) (r : Round) :
    (mergeAll initial run order r).resultServicesExclude =
      order.foldl (fun m s => m ∪ initial.keys.filter fun id =>
        id ∉ (run s).accumulationState.serviceState) r.resultServicesExclude :=
  (foldl_hom Round.resultServicesExclude fun _ _ => rfl).symm

section

variable (a : Accumulator) (fuel : Nat) (u : AccumulationState) (reports : List WorkReport)
  (free : GoMap ServiceId UInt64)

def CreatesDistinct : Prop :=
  ∀ s ∈ serviceIndices reports free,
    ∀ s' ∈ serviceIndices reports free, s ≠ s' →
      ∀ res res', delta1 a fuel u reports free s = .ret res →
        delta1 a fuel u reports free s' = .ret res' →
          ∀ k ∉ u.serviceState, k ∈ res.accumulationState.serviceState →
            k ∉ res'.accumulationState.serviceState

variable {a fuel u reports free}

theorem runServices_eq_mergeAll {order : List ServiceId}
    (hrun : ∀ s ∈ order, delta1 a fuel u reports free s = .ret (run s)) (r : Round) :
    runServices a fuel u reports free order r =
      .ret (mergeAll u.serviceState run order r) := by
  induction order generalizing r with
  | nil => rfl
  | cons s order ih =>
    have hs := hrun s mem_cons_self
    have hrest := ih (fun t ht => hrun t (mem_cons_of_mem s ht))
      (r.merge u.serviceState s (run s))
    rw [runServices, foldlM_cons, hs]
    exact hrest

theorem exists_run {order : List ServiceId} {r r' : Round}
    (h : runServices a fuel u reports free order r = .ret r') :
    ∃ run : ServiceId → Accumulated,
      ∀ s ∈ order, delta1 a fuel u reports free s = .ret (run s) := by
  have hreturns := (runServices_spec h).1
  have hnonempty : Nonempty Accumulated := ⟨⟨u, [], none, 0⟩⟩
  choose! run hrun using hreturns
  exact ⟨run, hrun⟩

variable {order order' : List ServiceId}

theorem contribution_disjoint (hdist : CreatesDistinct a fuel u reports free)
    {s' : ServiceId} (hs : s ∈ serviceIndices reports free)
    (hs' : s' ∈ serviceIndices reports free) (hne : s ≠ s')
    (hrun : delta1 a fuel u reports free s = .ret (run s))
    (hrun' : delta1 a fuel u reports free s' = .ret (run s')) :
    ∀ k ∈ contribution u.serviceState s (run s), k ∉ contribution u.serviceState s' (run s') := by
  intro k hk hk'
  rw [contribution, GoMap.mem_filterKeys, decide_eq_true_eq] at hk hk'
  by_cases hold : k ∈ u.serviceState
  · -- an account of the initial state comes back from its own run only
    have hks : k = s := hk.1.resolve_right (not_not_intro hold)
    have hks' : k = s' := hk'.1.resolve_right (not_not_intro hold)
    exact hne (hks.symm.trans hks')
  · exact hdist s hs s' hs' hne (run s) (run s') hrun hrun' k hold hk.2 hk'.2

structure Round.Same (r r' : Round) : Prop where
  totalGasUsed : r.totalGasUsed = r'.totalGasUsed
  allResultServices : r.allResultServices = r'.allResultServices
  resultServicesExclude : r.resultServicesExclude = r'.resultServicesExclude
  accumHashPairs : (r.accumHashPairs.insertionSort fun x y => x.serviceId ≤ y.serviceId) =
    r'.accumHashPairs.insertionSort fun x y => x.serviceId ≤ y.serviceId
  allTransfers : ∀ receiver,
    transfersForReceiver r.allTransfers receiver = transfersForReceiver r'.allTransfers receiver

theorem hashPair_serviceId (s : ServiceId) (res : Accumulated) :
    ∀ x ∈ hashPair s res, x.serviceId = s := by
  intro x hx
  rw [hashPair, Option.mem_toList, Option.map_eq_some_iff] at hx
  obtain ⟨_, -, rfl⟩ := hx
  rfl

theorem transfersForReceiver_flatMap (hnodup : order.Nodup) (hperm : order.Perm order')
    (hrun : ∀ s ∈ order, delta1 a fuel u reports free s = .ret (run s))
    (receiver : ServiceId) :
    transfersForReceiver (order.flatMap fun s => (run s).deferredTransfers) receiver =
      transfersForReceiver (order'.flatMap fun s => (run s).deferredTransfers) receiver := by
  rw [transfersForReceiver, transfersForReceiver, filter_flatMap, filter_flatMap]
  refine insertionSort_flatMap_eq hnodup hperm fun s hs t ht => ?_
  exact delta1_senders (hrun s hs) t (mem_filter.mp ht).1

theorem mergeAll_same (hdist : CreatesDistinct a fuel u reports free)
    (hnodup : order.Nodup) (hmem : ∀ s ∈ order, s ∈ serviceIndices reports free)
    (hperm : order.Perm order')
    (hrun : ∀ s ∈ order, delta1 a fuel u reports free s = .ret (run s)) :
    (mergeAll u.serviceState run order .empty).Same
      (mergeAll u.serviceState run order' .empty) := by
  refine ⟨?_, ?_, ?_, ?_, fun receiver => ?_⟩
  · rw [mergeAll_totalGasUsed, mergeAll_totalGasUsed]
    refine hperm.foldl_eq' (fun s _ s' _ gas => ?_) _
    rw [UInt64.add_assoc, UInt64.add_comm (run s).gas, ← UInt64.add_assoc]
  · rw [mergeAll_allResultServices, mergeAll_allResultServices]
    refine hperm.foldl_eq' (fun s hs s' hs' d => ?_) _
    by_cases hne : s = s'
    · rw [hne]
    · exact GoMap.copy_comm (contribution_disjoint hdist (hmem s hs) (hmem s' hs') hne
        (hrun s hs) (hrun s' hs'))
  · rw [mergeAll_resultServicesExclude, mergeAll_resultServicesExclude]
    exact hperm.foldl_eq' (fun s _ s' _ m => Finset.union_right_comm _ _ _) _
  · rw [mergeAll_accumHashPairs, mergeAll_accumHashPairs]
    exact insertionSort_flatMap_eq hnodup hperm fun s _ => hashPair_serviceId s (run s)
  · rw [mergeAll_allTransfers, mergeAll_allTransfers]
    exact transfersForReceiver_flatMap hnodup hperm hrun receiver

structure DeltaResult.Same (res res' : DeltaResult) : Prop where
  gasUsed : res.gasUsed = res'.gasUsed
  accState : res.accState = res'.accState
  hashPairs : res.hashPairs = res'.hashPairs
  transfers : ∀ receiver,
    transfersForReceiver res.transfers receiver = transfersForReceiver res'.transfers receiver

theorem Round.Same.result {r r' : Round} (h : r.Same r') (initial : ServiceState)
    (manager assign designate : Accumulated) :
    (r.result initial manager assign designate).Same
      (r'.result initial manager assign designate) := by
  refine ⟨h.totalGasUsed, ?_, h.accumHashPairs, h.allTransfers⟩
  simp only [Round.result, Round.services, h.allResultServices, h.resultServicesExclude]

theorem parallelDelta_same (hdist : CreatesDistinct a fuel u reports free)
    {order order' : GoMap.Traversal (serviceIndices reports free)}
    {res res' : DeltaResult} (h : parallelDelta a fuel u reports free order = .ret res)
    (h' : parallelDelta a fuel u reports free order' = .ret res') : res.Same res' := by
  obtain ⟨r, manager, assign, designate, hruns, rfl⟩ := parallelDelta_eq_ret.mp h
  obtain ⟨r', manager', assign', designate', hruns', rfl⟩ := parallelDelta_eq_ret.mp h'
  have hmanager : manager' = manager := Outcome.ret.inj (hruns'.manager.symm.trans hruns.manager)
  have hassign : assign' = assign := Outcome.ret.inj (hruns'.assign.symm.trans hruns.assign)
  have hdesignate : designate' = designate :=
    Outcome.ret.inj (hruns'.designate.symm.trans hruns.designate)
  have hperm : order.keys.Perm order'.keys := by
    refine (perm_ext_iff_of_nodup order.nodup order'.nodup).mpr fun s => ?_
    rw [order.mem_iff, order'.mem_iff]
  obtain ⟨run, hrun⟩ := exists_run hruns.services
  have hrun' : ∀ s ∈ order'.keys, delta1 a fuel u reports free s = .ret (run s) :=
    fun s hs => hrun s (hperm.mem_iff.mpr hs)
  have hr := hruns.services
  have hr' := hruns'.services
  rw [runServices_eq_mergeAll hrun, Outcome.ret.injEq] at hr
  rw [runServices_eq_mergeAll hrun', Outcome.ret.injEq] at hr'
  have hsame : r.Same r' := by
    rw [← hr, ← hr']
    exact mergeAll_same hdist order.nodup (fun s hs => (order.mem_iff s).mp hs) hperm hrun
  rw [hmanager, hassign, hdesignate]
  exact hsame.result u.serviceState manager assign designate

end

section

variable (a : Accumulator) (fuel : Nat) (u : AccumulationState) (reports : List WorkReport)
  (free : GoMap ServiceId UInt64)

variable {a fuel u reports free}

end

def givenTo (reports : List WorkReport) (free : GoMap ServiceId UInt64)
    (s : ServiceId) : Nat :=
  (free.getD s 0).toNat +
    (((reports.flatMap (·.workResults)).filter fun result => result.serviceId = s).map
      fun result => result.gasPrioritizationRatio.toNat).sum

def resultsGas (reports : List WorkReport) : Nat :=
  ((reports.flatMap (·.workResults)).map fun result =>
    result.gasPrioritizationRatio.toNat).sum

theorem resultsGas_cons (report : WorkReport) (reports : List WorkReport) :
    resultsGas (report :: reports) = resultsGas [report] + resultsGas reports := by
  simp [resultsGas]

variable {reports : List WorkReport} {free : GoMap ServiceId UInt64}

theorem serviceGas_toNat (s : ServiceId) : (serviceGas reports free s).toNat =
      givenTo reports free s % 2 ^ 64 := by
  have hfilter : serviceGas reports free s =
      ((reports.flatMap (·.workResults)).filter fun result => result.serviceId = s).foldl
        (fun gas result => gas + result.gasPrioritizationRatio) (free.getD s 0) := by
    rw [List.foldl_filter]
    simp only [decide_eq_true_eq]
    rfl
  rw [hfilter, foldl_add_toNat, givenTo]

variable {a : Accumulator} {fuel : Nat} {u : AccumulationState} {s : ServiceId}

section

variable (a : Accumulator) (u : AccumulationState) (reports : List WorkReport)
  (free : GoMap ServiceId UInt64)

end

end Strawberry.StateTransition
