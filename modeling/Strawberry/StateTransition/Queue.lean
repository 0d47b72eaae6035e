import Strawberry.StateTransition.Availability

/-!
# The queue of waiting reports

A report waits until the packages it depends on have been accumulated.
-/

namespace Strawberry.StateTransition

open Service State Block Constants List

abbrev queuedPackage (wd : WorkReportWithUnAccumulatedDependencies) : Hash :=
  wd.workReport.workPackageSpecification.workPackageHash

inductive Satisfiable (queue : List WorkReportWithUnAccumulatedDependencies) : Hash → Prop where
  | intro (wd : WorkReportWithUnAccumulatedDependencies) (mem : wd ∈ queue)
      (dependencies : ∀ hash ∈ wd.dependencies, Satisfiable queue hash) :
      Satisfiable queue (queuedPackage wd)

def ComesAfter (workReports : List WorkReport) (w : WorkReport) (hash : Hash) : Prop :=
  ∃ before after, workReports = before ++ w :: after ∧ hash ∈ getWorkPackageHashes before

structure PriorityLaw (queue : List WorkReportWithUnAccumulatedDependencies)
    (workReports : List WorkReport) : Prop where
  mem_iff : ∀ w, w ∈ workReports ↔
    ∃ wd ∈ queue, wd.workReport = w ∧ Satisfiable queue (queuedPackage wd)
  nodup : workReports.Nodup
  ordered : ∀ wd ∈ queue, wd.workReport ∈ workReports →
    ∀ hash ∈ wd.dependencies, ComesAfter workReports wd.workReport hash

variable {queue : List WorkReportWithUnAccumulatedDependencies}
  {wd wd' : WorkReportWithUnAccumulatedDependencies} {hashes : Finset Hash} {hash : Hash}

@[simp] theorem mem_getWorkPackageHashes {reports : List WorkReport} :
    hash ∈ getWorkPackageHashes reports ↔
      ∃ w ∈ reports, w.workPackageSpecification.workPackageHash = hash := by
  simp [getWorkPackageHashes]

theorem mem_updateQueue : wd' ∈ updateQueue queue hashes ↔ ∃ wd ∈ queue, queuedPackage wd ∉ hashes ∧
      { wd with dependencies := wd.dependencies \ hashes } = wd' := by
  simp [updateQueue, and_assoc]

theorem updateQueue_updateQueue (queue : List WorkReportWithUnAccumulatedDependencies)
    (x y : Finset Hash) : updateQueue (updateQueue queue x) y = updateQueue queue (x ∪ y) := by
  simp only [updateQueue, filter_map, filter_filter, map_map]
  congr 1
  · funext wd
    simp only [Function.comp_apply, sdiff_sdiff, Finset.sup_eq_union]
  · simp [Bool.and_comm]

theorem map_updateQueue (queue : List WorkReportWithUnAccumulatedDependencies) (x : Finset Hash) :
    (updateQueue queue x).map (·.workReport) = (queue.map (·.workReport)).filter fun w =>
      w.workPackageSpecification.workPackageHash ∉ x := by
  simp only [updateQueue, filter_map, map_map]
  rfl

/-- Edits of the queue compose. -/
theorem queue_editing (queue : List WorkReportWithUnAccumulatedDependencies) (x y : Finset Hash) :
    updateQueue (updateQueue queue x) y = updateQueue queue (x ∪ y) ∧
    updateQueue (updateQueue queue x) x = updateQueue queue x ∧
    updateQueue (updateQueue queue x) y = updateQueue (updateQueue queue y) x ∧
    (updateQueue queue x).map (·.workReport) = (queue.map (·.workReport)).filter (fun w =>
      w.workPackageSpecification.workPackageHash ∉ x) ∧
    (∀ wd ∈ updateQueue queue x, ∀ hash ∈ wd.dependencies, hash ∉ x) := by
  refine ⟨updateQueue_updateQueue queue x y, ?_, ?_, map_updateQueue queue x, ?_⟩
  · rw [updateQueue_updateQueue, Finset.union_self]
  · rw [updateQueue_updateQueue, updateQueue_updateQueue, Finset.union_comm]
  · intro wd hwd hash hhash
    obtain ⟨wd', -, -, rfl⟩ := mem_updateQueue.mp hwd
    exact (Finset.mem_sdiff.mp hhash).2

theorem Satisfiable.exists_free (h : Satisfiable queue hash) :
    ∃ wd ∈ queue, wd.dependencies = ∅ := by
  induction h with
  | intro wd mem _ ih =>
    rcases Finset.eq_empty_or_nonempty wd.dependencies with hempty | ⟨hash, hhash⟩
    · exact ⟨wd, mem, hempty⟩
    · exact ih hash hhash

theorem updateQueue_all :
    updateQueue queue (getWorkPackageHashes (queue.map (·.workReport))) = [] := by
  rw [eq_nil_iff_forall_not_mem]
  intro wd' hwd'
  obtain ⟨wd, hwd, hnot, -⟩ := mem_updateQueue.mp hwd'
  apply hnot
  rw [mem_getWorkPackageHashes]
  exact ⟨wd.workReport, mem_map_of_mem hwd, rfl⟩

theorem accumulationPriority_eq_nil (queue : List WorkReportWithUnAccumulatedDependencies) :
    accumulationPriority queue = .ret [] := by
  cases queue with
  | nil => rfl
  | cons wd queue =>
    rw [accumulationPriority, accumulationPriorityWithin]
    rw [updateQueue_all]
    rfl

theorem satisfiable_of_free (hwd : wd ∈ queue)
    (hempty : wd.dependencies = ∅) : Satisfiable queue (queuedPackage wd) :=
  .intro wd hwd (by simp [hempty])

theorem law_nil_iff : PriorityLaw queue [] ↔ ∀ wd ∈ queue, wd.dependencies.Nonempty := by
  constructor
  · intro hlaw wd hwd
    rw [Finset.nonempty_iff_ne_empty]
    intro hempty
    cases (hlaw.mem_iff wd.workReport).mpr ⟨wd, hwd, rfl, satisfiable_of_free hwd hempty⟩
  · intro hwaits
    refine ⟨?_, nodup_nil, ?_⟩
    · intro w
      refine iff_of_false not_mem_nil ?_
      rintro ⟨wd, -, -, hready⟩
      obtain ⟨free, hfree, hempty⟩ := hready.exists_free
      exact (hwaits free hfree).ne_empty hempty
    · intro wd _ hmem
      cases hmem

/-- When the order of accumulation respects the dependencies. -/
theorem accumulationPriority_law_iff (queue : List WorkReportWithUnAccumulatedDependencies) :
    ∃ reports, accumulationPriority queue = .ret reports ∧
      (PriorityLaw queue reports ↔ ∀ wd ∈ queue, wd.dependencies.Nonempty) :=
  ⟨[], accumulationPriority_eq_nil queue, law_nil_iff⟩

theorem accumulationPriority_free_report : accumulationPriority [⟨emptyReport, ∅⟩] = .ret [] ∧
      ¬ PriorityLaw [⟨emptyReport, ∅⟩] [] ∧
      PriorityLaw [⟨emptyReport, ∅⟩] [emptyReport] := by
  refine ⟨accumulationPriority_eq_nil _, ?_, ?_⟩
  · rw [law_nil_iff]
    simp
  · refine ⟨fun w => ?_, nodup_singleton _, ?_⟩
    · rw [mem_singleton]
      constructor
      · rintro rfl
        exact ⟨_, mem_singleton_self _, rfl, satisfiable_of_free (mem_singleton_self _) rfl⟩
      · rintro ⟨wd, hwd, rfl, -⟩
        rw [mem_singleton.mp hwd]
    · intro wd hwd _ hash hhash
      rw [mem_singleton.mp hwd] at hhash
      cases hhash

def slotBefore (timeslot : Timeslot) (i : Nat) : Fin timeslotsPerEpoch :=
  ⟨(((timeslot.toNat % timeslotsPerEpoch : ℕ) - i : ℤ) % timeslotsPerEpoch).toNat, by
    unfold timeslotsPerEpoch
    omega⟩

def newlyQueued (s : State) (workReports : List WorkReport) :
    List WorkReportWithUnAccumulatedDependencies :=
  updateQueue ((workReports.filter fun w => !isImmediate w).map getWorkReportDependencies)
    (flattenAccumulationHistory s.accumulationHistory)

def lastAccumulation (r : BlockAccumulation) : Finset Hash :=
  r.accumulationHistory.get ⟨timeslotsPerEpoch - 1, by decide⟩

structure QueueLaw (s : State) (timeslot : Timeslot) (workReports : List WorkReport)
    (r : BlockAccumulation) : Prop where
  slots : ∀ i < timeslotsPerEpoch, r.accumulationQueue.get (slotBefore timeslot i) =
    if i = 0 then updateQueue (newlyQueued s workReports) (lastAccumulation r)
    else if i < timeslot.toNat - s.timeslotIndex.toNat then []
    else updateQueue (s.accumulationQueue.get (slotBefore timeslot i)) (lastAccumulation r)
  once : ∀ slot, ∃! i, i < timeslotsPerEpoch ∧ indexPerEpoch (timeslotInEpoch timeslot) i = slot

section

variable {timeslot m : Timeslot} {i : Nat}

theorem indexPerEpoch_val (hi : i < timeslotsPerEpoch) :
    (indexPerEpoch m i).val = (2 ^ 32 - i + m.toNat) % 2 ^ 32 % 600 := by
  unfold timeslotsPerEpoch at hi
  have hofNat : (UInt32.ofNat i).toNat = i := by
    rw [UInt32.toNat_ofNat', Nat.mod_eq_of_lt]
    omega
  change ((m - UInt32.ofNat i) % UInt32.ofNat 600).toNat = _
  rw [UInt32.toNat_mod, UInt32.toNat_sub, hofNat]
  rfl

theorem indexPerEpoch_last (hm : m.toNat = 599) (hi : i < timeslotsPerEpoch) :
    (indexPerEpoch m i).val = 599 - i := by
  rw [indexPerEpoch_val hi, hm]
  unfold timeslotsPerEpoch at hi
  omega

theorem indexPerEpoch_meet (hm : m.toNat < 599) :
    ∃ i < timeslotsPerEpoch, ∃ j < timeslotsPerEpoch, i ≠ j ∧
      indexPerEpoch m i = indexPerEpoch m j := by
  by_cases hsmall : m.toNat ≤ 495
  · refine ⟨0, by decide, 496, by decide, by decide, Fin.ext ?_⟩
    rw [indexPerEpoch_val (by decide), indexPerEpoch_val (by decide)]
    omega
  · have hlow : m.toNat - 495 < timeslotsPerEpoch := by
      unfold timeslotsPerEpoch
      omega
    have hhigh : m.toNat + 1 < timeslotsPerEpoch := by
      unfold timeslotsPerEpoch
      omega
    refine ⟨m.toNat - 495, hlow, m.toNat + 1, hhigh, by omega, Fin.ext ?_⟩
    rw [indexPerEpoch_val hlow, indexPerEpoch_val hhigh]
    omega

theorem assigned_once_iff (hm : m.toNat < 600) :
    (∀ slot, ∃! i, i < timeslotsPerEpoch ∧ indexPerEpoch m i = slot) ↔ m.toNat = 599 := by
  constructor
  · intro honce
    by_contra hne
    obtain ⟨i, hi, j, hj, hij, heq⟩ := indexPerEpoch_meet (m := m) (by omega)
    exact hij ((honce _).unique ⟨hi, heq⟩ ⟨hj, rfl⟩)
  · intro hlast slot
    have hslot : slot.val < 600 := slot.isLt
    have hback : 599 - slot.val < timeslotsPerEpoch := by
      unfold timeslotsPerEpoch
      omega
    refine ⟨599 - slot.val, ⟨hback, Fin.ext ?_⟩, ?_⟩
    · rw [indexPerEpoch_last hlast hback]
      omega
    · rintro i ⟨hi, rfl⟩
      rw [indexPerEpoch_last hlast hi]
      unfold timeslotsPerEpoch at hi
      omega

theorem slotBefore_last (hlast : timeslot.toNat % 600 = 599) (hi : i < timeslotsPerEpoch) :
    slotBefore timeslot i = indexPerEpoch (timeslotInEpoch timeslot) i := by
  apply Fin.ext
  rw [indexPerEpoch_last ((timeslotInEpoch_toNat _).trans hlast) hi]
  unfold slotBefore
  unfold timeslotsPerEpoch at hi ⊢
  dsimp only
  omega

variable {queue : AccumulationQueue} {queued : List WorkReportWithUnAccumulatedDependencies}
  {last : Finset Hash} {elapsed : Timeslot}

theorem range_split {n : Nat} (hi : i < n) :
    ∃ after, List.range n = List.range i ++ i :: after ∧ ∀ k ∈ after, i < k ∧ k < n := by
  obtain ⟨d, rfl⟩ := Nat.exists_eq_add_of_lt hi
  refine ⟨(List.range d).map fun k => i + (k + 1), ?_, ?_⟩
  · rw [Nat.add_assoc, range_add, range_succ_eq_map, map_cons, map_map]
    rfl
  · intro k hk
    obtain ⟨k', hk', rfl⟩ := mem_map.mp hk
    rw [mem_range] at hk'
    omega

theorem get_newAccumulationQueue (hi : i < timeslotsPerEpoch)
    (hlater : ∀ k, i < k → k < timeslotsPerEpoch → indexPerEpoch m k ≠ indexPerEpoch m i) :
    (newAccumulationQueue queue queued last m elapsed).get (indexPerEpoch m i) =
      queueSlot queue queued last m elapsed i := by
  obtain ⟨after, hrange, hafter⟩ := range_split hi
  have hwrites : newAccumulationQueue queue queued last m elapsed =
      writeAll (indexPerEpoch m) (queueSlot queue queued last m elapsed)
        (List.range timeslotsPerEpoch) (.replicate timeslotsPerEpoch []) := rfl
  rw [hwrites, hrange]
  apply get_writeAll_last
  intro k hk
  exact hlater k (hafter k hk).1 (hafter k hk).2

theorem ofNat_lt_sub_iff {new old : Timeslot} (hold : old < new) (hi : i < timeslotsPerEpoch) :
    UInt32.ofNat i < new - old ↔ i < new.toNat - old.toNat := by
  have hle : old ≤ new := UInt32.le_of_lt hold
  rw [UInt32.lt_iff_toNat_lt, UInt32.toNat_sub_of_le _ _ hle, UInt32.toNat_ofNat', Nat.mod_eq_of_lt]
  unfold timeslotsPerEpoch at hi
  omega

end

variable {H : HashData} {fuel : Nat} {orders : Orders} {header : Header} {s : State}
  {newTimeslot : Timeslot} {reports : List WorkReport} {r : BlockAccumulation}

theorem accumulationQueue_eq
    (h : calculateWorkReportsAndAccumulate H fuel orders header s newTimeslot reports =
      .ret r) :
    r.accumulationQueue = newAccumulationQueue s.accumulationQueue (newlyQueued s reports)
      (lastAccumulation r) (timeslotInEpoch header.timeSlotIndex)
      (newTimeslot - s.timeslotIndex) := by
  obtain ⟨⟨queued, accumulatable⟩, hselect, h⟩ := bind_eq_ret.mp h
  obtain ⟨⟨maxReports, delta⟩, -, h⟩ := bind_eq_ret.mp h
  obtain ⟨serviceState, -, h⟩ := bind_eq_ret.mp h
  obtain ⟨fromQueue, -, hselect⟩ := bind_eq_ret.mp hselect
  cases hselect
  rw [pure_eq, Outcome.ret.injEq] at h
  rw [← h, lastAccumulation, shiftHistory, get_ofFn, dif_neg (by decide), newlyQueued]

/-- When no queued report is lost. -/
theorem accumulation_queue_law_iff (H : HashData) (fuel : Nat) (orders : Orders)
    (header : Header) (s : State) (reports : List WorkReport) (r : BlockAccumulation)
    (hlater : s.timeslotIndex < header.timeSlotIndex)
    (h : calculateWorkReportsAndAccumulate H fuel orders header s header.timeSlotIndex
      reports = .ret r) :
    QueueLaw s header.timeSlotIndex reports r ↔
      header.timeSlotIndex.toNat % timeslotsPerEpoch = timeslotsPerEpoch - 1 := by
  have hm : (timeslotInEpoch header.timeSlotIndex).toNat = _ := timeslotInEpoch_toNat _
  have honce := assigned_once_iff (m := timeslotInEpoch header.timeSlotIndex)
    (by rw [hm]; exact Nat.mod_lt _ (by decide))
  rw [hm] at honce
  constructor
  · intro hlaw
    exact honce.mp hlaw.once
  · intro hlast
    refine ⟨?_, honce.mpr hlast⟩
    intro i hi
    rw [slotBefore_last hlast hi, accumulationQueue_eq h, get_newAccumulationQueue hi]
    · unfold queueSlot
      simp only [ofNat_lt_sub_iff hlater hi]
    · intro k hik hk heq
      have hunique := (honce.mpr hlast _).unique ⟨hk, heq⟩ ⟨hi, rfl⟩
      omega

def emptyState : State := stateWith (.replicate totalNumberOfCores none)

def waitingReport : WorkReport :=
  { emptyReport with
    refinementContext :=
      { emptyReport.refinementContext with prerequisiteWorkPackage := [.replicate 32 1] } }

def headerOf (timeslot : Timeslot) : Header := { Header.zero with timeSlotIndex := timeslot }

theorem accumulation_returns_at_last_slot :
    (calculateWorkReportsAndAccumulate accepting.hashData 0 sortedOrders
      (headerOf 599) emptyState 599 [waitingReport]).Returns := by
  decide +kernel

theorem queue_law_at_last_slot :
    ∃ r, calculateWorkReportsAndAccumulate accepting.hashData 0 sortedOrders
        (headerOf 599) emptyState 599 [waitingReport] = .ret r ∧
      QueueLaw emptyState 599 [waitingReport] r := by
  obtain ⟨r, hr⟩ := accumulation_returns_at_last_slot
  exact ⟨r, hr, (accumulation_queue_law_iff accepting.hashData 0 sortedOrders
    (headerOf 599) emptyState [waitingReport] r (by decide) hr).mpr (by decide)⟩

theorem accumulation_returns_at_first_slot :
    (calculateWorkReportsAndAccumulate accepting.hashData 0 sortedOrders
      (headerOf 1) emptyState 1 [waitingReport]).Returns := by
  decide +kernel

theorem queued_report_lost :
    ∃ r, calculateWorkReportsAndAccumulate accepting.hashData 0 sortedOrders
        (headerOf 1) emptyState 1 [waitingReport] = .ret r ∧
      (newlyQueued emptyState [waitingReport]).map (·.workReport) = [waitingReport] ∧
      r.accumulationQueue.get ⟨1, by decide⟩ = [] ∧
      ¬ QueueLaw emptyState 1 [waitingReport] r := by
  obtain ⟨r, hr⟩ := accumulation_returns_at_first_slot
  have hslot : indexPerEpoch (timeslotInEpoch 1) 496 = ⟨1, by decide⟩ := by decide +kernel
  refine ⟨r, hr, by decide +kernel, ?_, ?_⟩
  · have hlater : ∀ k, 496 < k → k < timeslotsPerEpoch →
        indexPerEpoch (timeslotInEpoch 1) k ≠ indexPerEpoch (timeslotInEpoch 1) 496 := by
      intro k hk hlt heq
      rw [hslot, Fin.ext_iff, indexPerEpoch_val hlt] at heq
      change (2 ^ 32 - k + 1) % 2 ^ 32 % 600 = 1 at heq
      unfold timeslotsPerEpoch at hlt
      rw [Nat.mod_eq_of_lt (show 2 ^ 32 - k + 1 < 2 ^ 32 by omega)] at heq
      omega
    rw [accumulationQueue_eq hr, ← hslot]
    change (newAccumulationQueue _ _ _ (timeslotInEpoch 1) _).get _ = []
    rw [get_newAccumulationQueue (by decide) hlater, queueSlot, if_neg (by decide),
      if_neg (by decide), hslot, emptyState, stateWith, get_replicate]
    rfl
  · intro hlaw
    exact absurd ((assigned_once_iff (by decide)).mp hlaw.once) (by decide)

end Strawberry.StateTransition
