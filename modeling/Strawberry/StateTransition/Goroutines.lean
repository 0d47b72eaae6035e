import Mathlib.Logic.Relation
import Strawberry.StateTransition.Merging

/-!
# The goroutines of a round

What `parallelDelta` returns is what the interleavings of the goroutines end with.
-/

namespace Strawberry.StateTransition

open Service State Block HostCall List Function

inductive Goroutine where
  | service (serviceId : ServiceId)
  | manager
  | assign
  | designate
  deriving DecidableEq

def Goroutine.runs (p : PrivilegedServices) : Goroutine → ServiceId
  | .service serviceId => serviceId
  | .manager => p.managerServiceId
  | .assign => p.assignServiceId
  | .designate => p.designateServiceId

structure Shared where
  round : Round
  validatorKeys : ValidatorsData
  pendingAuthorizersQueues : PendingAuthorizersQueues
  privilegedServices : PrivilegedServices

def Shared.zero : Shared where
  round := .empty
  validatorKeys := .replicate _ none
  pendingAuthorizersQueues := .replicate _ (.replicate _ (.replicate _ 0))
  privilegedServices := ⟨0, 0, 0, ∅⟩

def Goroutine.update (initial : ServiceState) (res : Accumulated) (x : Shared) : Goroutine → Shared
  | .service serviceId => { x with round := x.round.merge initial serviceId res }
  | .manager => { x with privilegedServices := res.accumulationState.privilegedServices }
  | .assign => { x with validatorKeys := res.accumulationState.validatorKeys }
  | .designate =>
    { x with pendingAuthorizersQueues := res.accumulationState.pendingAuthorizersQueues }

def Shared.result (initial : ServiceState) (x : Shared) : DeltaResult where
  gasUsed := x.round.totalGasUsed
  accState :=
    { serviceState := x.round.services initial
      validatorKeys := x.validatorKeys
      pendingAuthorizersQueues := x.pendingAuthorizersQueues
      privilegedServices := x.privilegedServices }
  transfers := x.round.allTransfers
  hashPairs := x.round.accumHashPairs.insertionSort fun x y => x.serviceId ≤ y.serviceId

inductive Position where
  | computing
  | waiting (res : Accumulated)
  | done

structure Threads where
  position : Goroutine → Position
  shared : Shared

def Threads.Ended (t : Threads) : Prop := ∀ g, t.position g = .done

def startPosition (indices : Finset ServiceId) : Goroutine → Position
  | .service serviceId => if serviceId ∈ indices then .computing else .done
  | _ => .computing

def Threads.finish (t : Threads) (initial : ServiceState) (g : Goroutine) (res : Accumulated) :
    Threads :=
  ⟨Function.update t.position g .done, g.update initial res t.shared⟩

def Threads.start (indices : Finset ServiceId) : Threads := ⟨startPosition indices, .zero⟩

section

variable (a : Accumulator) (fuel : Nat) (u : AccumulationState) (reports : List WorkReport)
  (free : GoMap ServiceId UInt64)

/-- A goroutine computes `Delta1` as a function of the inputs of the round, which it is in a quiet
round (`QuietRound`), and later makes its update under the lock. -/
inductive Threads.Step (t : Threads) : Threads → Prop where
  | compute (g : Goroutine) (res : Accumulated) (hg : t.position g = .computing)
    (hres : delta1 a fuel u reports free (g.runs u.privilegedServices) = .ret res) :
    t.Step { t with position := Function.update t.position g (.waiting res) }
  | lock (g : Goroutine) (res : Accumulated) (hg : t.position g = .waiting res) :
    t.Step (t.finish u.serviceState g res)

def Interleaves : Threads → Prop :=
  Relation.ReflTransGen (Threads.Step a fuel u reports free)
    (.start (serviceIndices reports free))

/-- What a goroutine that has made its update has left in the variables of the roles. -/
def Goroutine.Left (x : Shared) : Goroutine → Prop
  | .service _ => True
  | .manager => ∃ res,
    delta1 a fuel u reports free u.privilegedServices.managerServiceId = .ret res ∧
      x.privilegedServices = res.accumulationState.privilegedServices
  | .assign => ∃ res,
    delta1 a fuel u reports free u.privilegedServices.assignServiceId = .ret res ∧
      x.validatorKeys = res.accumulationState.validatorKeys
  | .designate => ∃ res,
    delta1 a fuel u reports free u.privilegedServices.designateServiceId = .ret res ∧
      x.pendingAuthorizersQueues = res.accumulationState.pendingAuthorizersQueues

structure LockedBy (order : List ServiceId) (t : Threads) : Prop where
  nodup : order.Nodup
  mem_iff : ∀ s, s ∈ order ↔
    s ∈ serviceIndices reports free ∧ t.position (.service s) = .done
  started : ∀ s, t.position (.service s) ≠ .done → s ∈ serviceIndices reports free
  waiting : ∀ g res, t.position g = .waiting res →
    delta1 a fuel u reports free (g.runs u.privilegedServices) = .ret res
  round : runServices a fuel u reports free order .empty = .ret t.shared.round
  left : ∀ g, t.position g = .done → g.Left a fuel u reports free t.shared

variable {a fuel u reports free}

variable {g : Goroutine} {res : Accumulated}

theorem done_compute {position : Goroutine → Position} (res : Accumulated)
    (hg : position g = .computing) (g' : Goroutine) :
    Function.update position g (.waiting res) g' = .done ↔ position g' = .done := by
  by_cases h : g' = g
  · rw [h, update_self, hg]
    simp
  · rw [update_of_ne h]

theorem Threads.finish_position_of_ne {g' : Goroutine} (hne : g' ≠ g) (initial : ServiceState)
    (res : Accumulated) (t : Threads) : (t.finish initial g res).position g' = t.position g' :=
  update_of_ne hne ..

theorem Threads.finish_position_self (g : Goroutine) (initial : ServiceState) (res : Accumulated)
    (t : Threads) : (t.finish initial g res).position g = .done :=
  update_self ..

theorem lockedBy_start : LockedBy a fuel u reports free []
      (.start (serviceIndices reports free)) := by
  have hservice : ∀ s, startPosition (serviceIndices reports free) (.service s) = .done ↔
      s ∉ serviceIndices reports free := by
    intro s
    by_cases hs : s ∈ serviceIndices reports free
    · simp [startPosition, hs]
    · simp [startPosition, hs]
  have hwaiting : ∀ g res,
      startPosition (serviceIndices reports free) g ≠ .waiting res := by
    intro g res
    cases g with
    | service s => by_cases hs : s ∈ serviceIndices reports free <;>
        simp [startPosition, hs]
    | manager | assign | designate => simp [startPosition]
  refine ⟨nodup_nil, fun s => ?_, fun s hs => ?_, fun g res h => absurd h (hwaiting g res), rfl,
    fun g h => ?_⟩
  · change _ ↔ s ∈ serviceIndices reports free ∧
      startPosition (serviceIndices reports free) (.service s) = .done
    rw [hservice]
    simp
  · by_contra hnot
    exact hs ((hservice s).mpr hnot)
  · cases g with
    | service s => trivial
    | manager | assign | designate => cases h

variable {order : List ServiceId} {t : Threads}

theorem LockedBy.compute (h : LockedBy a fuel u reports free order t)
    (hg : t.position g = .computing)
    (hres : delta1 a fuel u reports free (g.runs u.privilegedServices) = .ret res) :
    LockedBy a fuel u reports free order
      { t with position := Function.update t.position g (.waiting res) } := by
  have hdone := done_compute res hg
  refine ⟨h.nodup, fun s => ?_, fun s hs => ?_, fun g' res' h' => ?_, h.round,
    fun g' h' => h.left g' ((hdone g').mp h')⟩
  · rw [h.mem_iff, hdone]
  · exact h.started s fun hold => hs ((hdone _).mpr hold)
  · by_cases heq : g' = g
    · subst heq
      have hres' : Position.waiting res = .waiting res' := (update_self ..).symm.trans h'
      rw [← Position.waiting.inj hres']
      exact hres
    · exact h.waiting g' res' ((update_of_ne heq ..).symm.trans h')

theorem runServices_concat {s : ServiceId} {r r' : Round}
    (h : runServices a fuel u reports free order r = .ret r')
    (hres : delta1 a fuel u reports free s = .ret res) :
    runServices a fuel u reports free (order ++ [s]) r =
      .ret (r'.merge u.serviceState s res) := by
  unfold runServices at h ⊢
  rw [foldlM_append, h, ret_bind, foldlM_cons, hres]
  rfl

theorem LockedBy.started_finish (h : LockedBy a fuel u reports free order t)
    (g : Goroutine) (res : Accumulated) :
    ∀ s, (t.finish u.serviceState g res).position (.service s) ≠ .done →
      s ∈ serviceIndices reports free := by
  intro s hs
  have hne : Goroutine.service s ≠ g := by
    rintro rfl
    exact hs (Threads.finish_position_self ..)
  rw [Threads.finish_position_of_ne hne] at hs
  exact h.started s hs

theorem LockedBy.waiting_finish (h : LockedBy a fuel u reports free order t)
    (g : Goroutine) (res : Accumulated) :
    ∀ g' res', (t.finish u.serviceState g res).position g' = .waiting res' →
      delta1 a fuel u reports free (g'.runs u.privilegedServices) = .ret res' := by
  intro g' res' h'
  by_cases heq : g' = g
  · rw [heq, Threads.finish_position_self] at h'
    cases h'
  · rw [Threads.finish_position_of_ne heq] at h'
    exact h.waiting g' res' h'

theorem Goroutine.left_update {x : Shared} {g' : Goroutine} (hne : g' ≠ g)
    (h : g'.Left a fuel u reports free x) :
    g'.Left a fuel u reports free (g.update u.serviceState res x) := by
  cases g' with
  | service s => trivial
  | manager | assign | designate =>
    cases g with
    | service | manager | assign | designate => first | exact h | exact absurd rfl hne

theorem LockedBy.left_finish (h : LockedBy a fuel u reports free order t)
    (hres : delta1 a fuel u reports free (g.runs u.privilegedServices) = .ret res) (g' : Goroutine)
    (hdone : (t.finish u.serviceState g res).position g' = .done) :
    g'.Left a fuel u reports free (t.finish u.serviceState g res).shared := by
  by_cases heq : g' = g
  · subst heq
    cases g' with
    | service s => trivial
    | manager | assign | designate => exact ⟨res, hres, rfl⟩
  · rw [Threads.finish_position_of_ne heq] at hdone
    exact Goroutine.left_update heq (h.left g' hdone)

theorem LockedBy.lock (h : LockedBy a fuel u reports free order t)
    (hg : t.position g = .waiting res) :
    ∃ order', LockedBy a fuel u reports free order' (t.finish u.serviceState g res) := by
  have hres := h.waiting g res hg
  have hstarted := h.started_finish g res
  have hwaiting := h.waiting_finish g res
  have hleft := h.left_finish hres
  cases g with
  | service s =>
    have hs : s ∈ serviceIndices reports free := by
      refine h.started s ?_
      rw [hg]
      nofun
    have hnew : s ∉ order := by
      intro hmem
      have hdone := ((h.mem_iff s).mp hmem).2
      rw [hg] at hdone
      cases hdone
    refine ⟨order ++ [s], ?_, fun s' => ?_, hstarted, hwaiting, runServices_concat h.round hres,
      hleft⟩
    · exact nodup_append_comm.mp (nodup_cons.mpr ⟨hnew, h.nodup⟩)
    · rw [mem_append, mem_singleton, h.mem_iff]
      by_cases heq : s' = s
      · rw [heq, Threads.finish_position_self]
        simp [hs]
      · have hne : Goroutine.service s' ≠ .service s := fun h => heq (Goroutine.service.inj h)
        rw [Threads.finish_position_of_ne hne, or_iff_left heq]
  | manager | assign | designate =>
    exact ⟨order, h.nodup, h.mem_iff, hstarted, hwaiting, h.round, hleft⟩

theorem Interleaves.lockedBy (h : Interleaves a fuel u reports free t) :
    ∃ order, LockedBy a fuel u reports free order t := by
  induction h with
  | refl => exact ⟨[], lockedBy_start⟩
  | tail _ hstep ih =>
    obtain ⟨order, horder⟩ := ih
    cases hstep with
    | compute g res hg hres => exact ⟨order, horder.compute hg hres⟩
    | lock g res hg => exact horder.lock hg

theorem Interleaves.parallelDelta_eq (h : Interleaves a fuel u reports free t)
    (hend : t.Ended) :
    ∃ order, parallelDelta a fuel u reports free order =
      .ret (t.shared.result u.serviceState) := by
  obtain ⟨order, horder⟩ := h.lockedBy
  have hmem : ∀ s, s ∈ order ↔ s ∈ serviceIndices reports free := by
    intro s
    rw [horder.mem_iff, and_iff_left (hend _)]
  obtain ⟨manager, hmanager, hprivileged⟩ := horder.left .manager (hend _)
  obtain ⟨assign, hassign, hkeys⟩ := horder.left .assign (hend _)
  obtain ⟨designate, hdesignate, hqueues⟩ := horder.left .designate (hend _)
  refine ⟨⟨order, horder.nodup, hmem⟩, parallelDelta_eq_ret.mpr ⟨t.shared.round, manager, assign,
    designate, ⟨horder.round, hmanager, hassign, hdesignate⟩, ?_⟩⟩
  rw [Shared.result, Round.result, hprivileged, hkeys, hqueues]

theorem Threads.runs_to_end (g : Goroutine) (res : Accumulated) (t : Threads)
    (hg : t.position g = .computing)
    (hres : delta1 a fuel u reports free (g.runs u.privilegedServices) = .ret res) :
    Relation.ReflTransGen (Threads.Step a fuel u reports free) t
      (t.finish u.serviceState g res) := by
  have hlock : Threads.Step a fuel u reports free
      { t with position := Function.update t.position g (.waiting res) }
      (Threads.finish { t with position := Function.update t.position g (.waiting res) }
        u.serviceState g res) := .lock g res (update_self ..)
  unfold Threads.finish at hlock
  rw [update_idem] at hlock
  exact .head (.compute g res hg hres) (.single hlock)

theorem Threads.services_run_to_end {r : Round} (t : Threads)
    (h : runServices a fuel u reports free order t.shared.round = .ret r)
    (hnodup : order.Nodup) (hcomputing : ∀ s ∈ order, t.position (.service s) = .computing) :
    ∃ t', Relation.ReflTransGen (Threads.Step a fuel u reports free) t t' ∧
      t'.shared = { t.shared with round := r } ∧
      (∀ s ∈ order, t'.position (.service s) = .done) ∧
      ∀ g, (∀ s ∈ order, g ≠ .service s) → t'.position g = t.position g := by
  induction order generalizing t with
  | nil =>
    cases h
    exact ⟨t, .refl, rfl, nofun, fun g _ => rfl⟩
  | cons s order ih =>
    rw [runServices, foldlM_cons, bind_eq_ret] at h
    obtain ⟨r₁, hr₁, h⟩ := h
    rw [bind_eq_ret] at hr₁
    obtain ⟨res, hres, hr₁⟩ := hr₁
    cases hr₁
    have hne : ∀ s' ∈ order, Goroutine.service s' ≠ .service s := by
      intro s' hs' heq
      rw [Goroutine.service.injEq] at heq
      exact (nodup_cons.mp hnodup).1 (heq ▸ hs')
    have hfirst := Threads.runs_to_end (.service s) res t (hcomputing s mem_cons_self) hres
    obtain ⟨t', hrest, hshared, hdone, hother⟩ :=
      ih (t.finish u.serviceState (.service s) res) h (nodup_cons.mp hnodup).2 <| by
        intro s' hs'
        rw [finish_position_of_ne (hne s' hs')]
        exact hcomputing s' (mem_cons_of_mem s hs')
    refine ⟨t', hfirst.trans hrest, hshared, fun s' hs' => ?_, fun g hg => ?_⟩
    · rcases mem_cons.mp hs' with rfl | hs'
      · rw [hother _ fun s'' hs'' => (hne s'' hs'').symm, finish_position_self]
      · exact hdone s' hs'
    · rw [hother g fun s' hs' => hg s' (mem_cons_of_mem s hs'),
        finish_position_of_ne (hg s mem_cons_self)]

theorem parallelDelta_interleaves
    {order : GoMap.Traversal (serviceIndices reports free)} {res : DeltaResult}
    (h : parallelDelta a fuel u reports free order = .ret res) :
    ∃ t, Interleaves a fuel u reports free t ∧ t.Ended ∧
      t.shared.result u.serviceState = res := by
  obtain ⟨r, manager, assign, designate, hruns, rfl⟩ := parallelDelta_eq_ret.mp h
  obtain ⟨t, ht, hshared, hdone, hother⟩ := Threads.services_run_to_end
    (.start (serviceIndices reports free)) hruns.services order.nodup
    fun s hs => if_pos ((order.mem_iff s).mp hs)
  have hm := Threads.runs_to_end .manager manager t (hother _ nofun) hruns.manager
  have ha := Threads.runs_to_end .assign assign (t.finish u.serviceState .manager manager)
    (hother .assign nofun) hruns.assign
  have hd := Threads.runs_to_end .designate designate
    ((t.finish u.serviceState .manager manager).finish u.serviceState .assign assign)
    (hother .designate nofun) hruns.designate
  refine ⟨_, ((ht.trans hm).trans ha).trans hd, fun g => ?_, ?_⟩
  · cases g with
    | service s =>
      change t.position (.service s) = .done
      by_cases hs : s ∈ order.keys
      · exact hdone s hs
      · rw [hother (.service s) fun s' hs' heq => hs (Goroutine.service.inj heq ▸ hs')]
        exact if_neg fun hmem => hs ((order.mem_iff s).mpr hmem)
    | manager | assign | designate => rfl
  · simp only [Shared.result, Round.result, Threads.finish, Goroutine.update, hshared]

end

/-- The goroutines refine the sequential model, and leave none of its results out. -/
theorem goroutines_refine_parallelDelta (a : Accumulator) (fuel : Nat) (u : AccumulationState)
    (reports : List WorkReport) (free : GoMap ServiceId UInt64) (res : DeltaResult) :
    (∃ t, Interleaves a fuel u reports free t ∧ t.Ended ∧
        t.shared.result u.serviceState = res) ↔
      ∃ order, parallelDelta a fuel u reports free order = .ret res := by
  constructor
  · rintro ⟨t, ht, hend, rfl⟩
    exact ht.parallelDelta_eq hend
  · rintro ⟨order, h⟩
    exact parallelDelta_interleaves h

/-- All interleavings of a round end with the same result. -/
theorem schedule_independence (a : Accumulator) (fuel : Nat) (u : AccumulationState)
    (reports : List WorkReport) (free : GoMap ServiceId UInt64)
    (hdistinct : CreatesDistinct a fuel u reports free) (t t' : Threads)
    (h : Interleaves a fuel u reports free t) (hend : t.Ended)
    (h' : Interleaves a fuel u reports free t') (hend' : t'.Ended) :
    (t.shared.result u.serviceState).Same (t'.shared.result u.serviceState) := by
  obtain ⟨order, horder⟩ := h.parallelDelta_eq hend
  obtain ⟨order', horder'⟩ := h'.parallelDelta_eq hend'
  exact parallelDelta_same hdistinct horder horder'

def gasForBoth : GoMap ServiceId UInt64 := (Finmap.singleton 1 0).insert 2 0

theorem mem_gasForBoth (k : ServiceId) : k ∈ serviceIndices [] gasForBoth ↔ k = 2 ∨ k = 1 := by
  change k ∈ ∅ ∪ gasForBoth.keys ↔ k = 2 ∨ k = 1
  rw [Finset.empty_union, Finmap.mem_keys, gasForBoth, Finmap.mem_insert, Finmap.mem_singleton]

def firstThenSecond : GoMap.Traversal (serviceIndices [] gasForBoth) where
  keys := [1, 2]
  nodup := by decide
  mem_iff k := by
    rw [mem_gasForBoth]
    simp [or_comm]

def secondThenFirst : GoMap.Traversal (serviceIndices [] gasForBoth) where
  keys := [2, 1]
  nodup := by decide
  mem_iff k := by
    rw [mem_gasForBoth]
    simp

theorem createsDistinct_twoServices :
    CreatesDistinct nullAccumulator 1 twoServices.accumulationState [] gasForBoth := by
  have hown : ∀ s ∈ serviceIndices [] gasForBoth, ∀ res,
      delta1 nullAccumulator 1 twoServices.accumulationState [] gasForBoth s = .ret res →
        ∀ k ∈ res.accumulationState.serviceState, k ∈ twoServices.accumulationState.serviceState := by
    intro s hs res hres k hk
    have hkeys : (fun res => res.accumulationState.serviceState.keys) <$>
        delta1 nullAccumulator 1 twoServices.accumulationState [] gasForBoth s = .ret {s} := by
      rcases (mem_gasForBoth s).mp hs with rfl | rfl
      · decide +kernel
      · decide +kernel
    rw [hres, map_ret, Outcome.ret.injEq] at hkeys
    rw [← Finmap.mem_keys, hkeys, Finset.mem_singleton] at hk
    rw [hk]
    rcases (mem_gasForBoth s).mp hs with rfl | rfl
    · decide
    · decide
  intro s hs s' _ _ res res' hres _ k hk hmem
  exact absurd (hown s hs res hres k hmem) hk

theorem schedule_independence_twoServices :
    ∃ t t', Interleaves nullAccumulator 1 twoServices.accumulationState [] gasForBoth t ∧ t.Ended ∧
      Interleaves nullAccumulator 1 twoServices.accumulationState [] gasForBoth t' ∧ t'.Ended ∧
      parallelDelta nullAccumulator 1 twoServices.accumulationState [] gasForBoth firstThenSecond =
        .ret (t.shared.result twoServices.accumulationState.serviceState) ∧
      parallelDelta nullAccumulator 1 twoServices.accumulationState [] gasForBoth secondThenFirst =
        .ret (t'.shared.result twoServices.accumulationState.serviceState) ∧
      (t.shared.result twoServices.accumulationState.serviceState).Same
        (t'.shared.result twoServices.accumulationState.serviceState) := by
  have hret : (parallelDelta nullAccumulator 1 twoServices.accumulationState [] gasForBoth
      firstThenSecond).Returns := by decide +kernel
  have hret' : (parallelDelta nullAccumulator 1 twoServices.accumulationState [] gasForBoth
      secondThenFirst).Returns := by decide +kernel
  obtain ⟨res, hres⟩ := hret
  obtain ⟨res', hres'⟩ := hret'
  obtain ⟨t, ht, hend, rfl⟩ := parallelDelta_interleaves hres
  obtain ⟨t', ht', hend', rfl⟩ := parallelDelta_interleaves hres'
  exact ⟨t, t', ht, hend, ht', hend', hres, hres', schedule_independence nullAccumulator 1
    twoServices.accumulationState [] gasForBoth createsDistinct_twoServices t t' ht hend ht' hend'⟩

end Strawberry.StateTransition
