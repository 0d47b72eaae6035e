import Strawberry.StateTransition.Update

/-!
# Availability safety of a block

`UpdateState` hands over what is on the table and not the reports that became available.
-/

namespace Strawberry.StateTransition

open Block State Constants List Option

theorem readWorkReport_eq_ret {a : Assignment} {w : WorkReport} :
    readWorkReport a = .ret w ↔ a.workReport = some w := by
  unfold readWorkReport
  cases a.workReport with
  | none | some => simp

theorem mapM_readWorkReport_eq_ret {assignments : List (Option Assignment)}
    {workReports : List WorkReport}
    (h : (assignments.filterMap id).mapM readWorkReport = .ret workReports) :
    (∀ a, some a ∈ assignments → ∃ w, a.workReport = some w) ∧
      workReports = assignments.filterMap fun a => a.bind (·.workReport) := by
  induction assignments generalizing workReports with
  | nil =>
    cases h
    exact ⟨by simp, rfl⟩
  | cons assignment assignments ih =>
    cases assignment with
    | none =>
      obtain ⟨hsome, heq⟩ := ih h
      exact ⟨by simpa using hsome, by simpa using heq⟩
    | some a =>
      change (a :: assignments.filterMap id).mapM readWorkReport = _ at h
      rw [mapM_cons] at h
      obtain ⟨w, hw, h⟩ := bind_eq_ret.mp h
      obtain ⟨ws, hws, h⟩ := bind_eq_ret.mp h
      cases h
      rw [readWorkReport_eq_ret] at hw
      obtain ⟨hsome, rfl⟩ := ih hws
      constructor
      · intro a' ha'
        rcases mem_cons.mp ha' with heq | hmem
        · cases heq
          exact ⟨w, hw⟩
        · exact hsome a' hmem
      · rw [filterMap_cons_some (by simpa using hw)]

theorem toList_eq_map_get (table : CoreAssignments) : table.toList = allCores.map table.get := by
  apply ext_getElem
  · simp [allCores]
  · simp [allCores, Vector.get]

theorem getAvailableWorkReports_eq_ret {table : CoreAssignments} {workReports : List WorkReport}
    (h : getAvailableWorkReports table = .ret workReports) :
    (∀ core a, table.get core = some a → ∃ w, a.workReport = some w) ∧
      workReports = allCores.filterMap (reportOn table) := by
  obtain ⟨hsome, heq⟩ := mapM_readWorkReport_eq_ret h
  rw [toList_eq_map_get] at hsome heq
  constructor
  · intro core a ha
    exact hsome a (mem_map.mpr ⟨core, mem_allCores core, ha⟩)
  · rw [heq, filterMap_map]
    rfl

def Leaves (prims : Primitives) (block : Block) (core : Core) (a : Assignment) : Prop :=
  (∃ verdict ∈ block.extrinsic.ed.verdicts, condemns prims verdict a) ∨
    isAssignmentStale (some a) block.header.timeSlotIndex ∨
    availabilityThreshold < (entriesFor block.extrinsic.ea core).length

variable {assurances : List Assurance} {table : CoreAssignments} {timeslot : Timeslot}
  {core : Core} {a : Assignment}

theorem card_assurers_le : (assurers assurances core).card ≤ (entriesFor assurances core).length := by
  exact (toFinset_card_le _).trans_eq (length_map _)

theorem get_availabilityOf_eq_some :
    (availabilityOf assurances table timeslot).coreAssignments.get core = some a ↔
      table.get core = some a ∧ isAssignmentStale (some a) timeslot = false ∧
        ¬ availabilityThreshold < (entriesFor assurances core).length := by
  rw [availabilityOf, get_ofFn, assignmentAfter]
  cases table.get core with
  | none => simp [isAssignmentStale]
  | some a' =>
    split
    · next hassured => simp [hassured]
    · next hassured =>
      split
      · next hstale =>
        constructor
        · intro h
          cases h
        · rintro ⟨h, hfresh, -⟩
          cases h
          exact absurd hstale (by simp [hfresh])
      · next hstale =>
        constructor
        · intro h
          cases h
          exact ⟨rfl, by simpa using hstale, hassured⟩
        · rintro ⟨h, -, -⟩
          exact h

theorem get_intermediate_eq_some {prims : Primitives} {block : Block} :
    (availabilityOf block.extrinsic.ea
        (calculateIntermediateCoreAssignmentsFromExtrinsics prims block.extrinsic.ed table)
        block.header.timeSlotIndex).coreAssignments.get core = some a ↔
      table.get core = some a ∧ ¬ Leaves prims block core a := by
  rw [get_availabilityOf_eq_some, get_calculateIntermediateCoreAssignmentsFromExtrinsics,
    filter_eq_some_iff]
  unfold Leaves
  simp [and_assoc]

theorem intermediate_of_empty (prims : Primitives) (disputes : DisputeExtrinsic) :
    (availabilityOf assurances (calculateIntermediateCoreAssignmentsFromExtrinsics prims disputes
        (.replicate totalNumberOfCores none)) timeslot).coreAssignments =
      .replicate totalNumberOfCores none := by
  apply ext_get
  intro core
  rw [get_replicate, eq_none_iff_forall_ne_some]
  intro a ha
  obtain ⟨hget, -, -⟩ := get_availabilityOf_eq_some.mp ha
  rw [get_calculateIntermediateCoreAssignmentsFromExtrinsics, get_replicate] at hget
  cases hget

theorem getAvailableWorkReports_of_empty :
    getAvailableWorkReports (.replicate totalNumberOfCores none) = .ret [] := by
  decide +kernel

def AvailabilitySafe (prims : Primitives) (s : State) (block : Block) (t : Transition) : Prop :=
  ∀ core w, reportOn t.newState.coreAssignments core = some w →
    reportOn s.coreAssignments core = some w ∧ (∀ verdict ∈ block.extrinsic.ed.verdicts,
        countPositiveJudgments verdict.judgements < validatorsSuperMajority →
          w.hash prims.hashData ≠ .ok verdict.reportHash) ∧
      availabilityThreshold < (assurers block.extrinsic.ea core).card

def ClearsTable (prims : Primitives) (s : State) (block : Block) : Prop :=
  block.extrinsic.eg = [] ∧
    ∀ core a, s.coreAssignments.get core = some a → Leaves prims block core a

variable {prims : Primitives} {now : Timeslot} {fuel : Nat} {orders : Orders} {s : State}
  {block : Block} {chain : Chain} {t : Transition}

theorem isAssignmentValid_of_left {before after : Option Assignment} {slot : Timeslot}
    (h : ∀ a, after = some a → before = some a) (hvalid : isAssignmentValid before slot) :
    isAssignmentValid after slot := by
  cases after with
  | none => rfl
  | some a => rwa [h a rfl] at hvalid

theorem get_newState (st : Stages prims now fuel orders s block chain t) (core : Core) :
    (∃ g ∈ block.extrinsic.eg, GuaranteedOn g core ∧
        t.newState.coreAssignments.get core = some ⟨some g.workReport, block.header.timeSlotIndex⟩) ∨
      ((∀ g ∈ block.extrinsic.eg, ¬ GuaranteedOn g core) ∧
        ∀ a, t.newState.coreAssignments.get core = some a ↔
          s.coreAssignments.get core = some a ∧ ¬ Leaves prims block core a) := by
  obtain ⟨-, -, -, havailability⟩ :=
    calculateIntermediateCoreFromAssurances_eq_ok.mp st.availability_eq
  have hget := assignGuarantees_get st.reported_eq core
  rw [st.newState_eq]
  rw [havailability] at hget
  rcases hget with ⟨g, hg, hon, -, hget⟩ | ⟨hinvalid, heq⟩
  · exact .inl ⟨g, hg, hon, hget⟩
  refine .inr ⟨?_, ?_⟩
  · -- the core of a guarantee was free or stale before the block, and still is
    intro g hg hon
    obtain ⟨core', hon', hvalid⟩ := validateExtrinsicGuarantees_core st.guaranteesValid g hg
    obtain rfl : core = core' := Fin.ext (hon.symm.trans hon')
    refine hinvalid g hg hon (isAssignmentValid_of_left ?_ hvalid)
    intro a ha
    exact (get_intermediate_eq_some.mp ha).1
  · intro a
    rw [heq]
    exact get_intermediate_eq_some

theorem assured_pending (st : Stages prims now fuel orders s block chain t)
    (h : availabilityThreshold < (assurers block.extrinsic.ea core).card) :
    ∃ a, s.coreAssignments.get core = some a ∧
      isAssignmentStale (some a) block.header.timeSlotIndex = false := by
  obtain ⟨-, -, hchecks, -⟩ :=
    calculateIntermediateCoreFromAssurances_eq_ok.mp st.availability_eq
  have hne : entriesFor block.extrinsic.ea core ≠ [] := by
    intro hnil
    have hcard : (assurers block.extrinsic.ea core).card ≤ _ := card_assurers_le
    rw [hnil, length_nil] at hcard
    omega
  obtain ⟨hsome, hstale⟩ := hchecks core hne
  obtain ⟨a, ha⟩ := isSome_iff_exists.mp hsome
  rw [ha] at hstale
  rw [get_calculateIntermediateCoreAssignmentsFromExtrinsics, filter_eq_some_iff] at ha
  exact ⟨a, ha.1, hstale⟩

theorem no_guarantees_of_safe (st : Stages prims now fuel orders s block chain t)
    (hsafe : AvailabilitySafe prims s block t) : block.extrinsic.eg = [] := by
  rw [eq_nil_iff_forall_not_mem]
  intro g hg
  obtain ⟨core, hon, hvalid⟩ := validateExtrinsicGuarantees_core st.guaranteesValid g hg
  rcases get_newState st core with ⟨g', -, -, hget⟩ | ⟨hnone, -⟩
  · have hreport : reportOn t.newState.coreAssignments core = some g'.workReport := by
      rw [reportOn, hget]
      rfl
    obtain ⟨hpending, -, hassured⟩ := hsafe core _ hreport
    obtain ⟨a, ha, hstale⟩ := assured_pending st hassured
    rw [reportOn, ha] at hpending
    rw [ha, isAssignmentValid, hstale, show a.workReport = some g'.workReport from hpending] at hvalid
    cases hvalid
  · exact hnone g hg hon

theorem leaves_of_safe (st : Stages prims now fuel orders s block chain t)
    (hsafe : AvailabilitySafe prims s block t)
    (ha : s.coreAssignments.get core = some a) : Leaves prims block core a := by
  by_contra hstays
  rcases get_newState st core with ⟨g, hg, -⟩ | ⟨-, hget⟩
  · rw [no_guarantees_of_safe st hsafe] at hg
    cases hg
  · have hnew := (hget a).mpr ⟨ha, hstays⟩
    obtain ⟨hread, -⟩ := getAvailableWorkReports_eq_ret st.workReports_eq
    rw [st.newState_eq] at hnew
    obtain ⟨w, hw⟩ := hread core a hnew
    have hreport : reportOn t.newState.coreAssignments core = some w := by
      rw [st.newState_eq, reportOn]
      exact bind_eq_some_iff.mpr ⟨a, hnew, hw⟩
    obtain ⟨-, -, hassured⟩ := hsafe core w hreport
    exact hstays (.inr (.inr (hassured.trans_le card_assurers_le)))

/-- When accumulation gets only reports that the block made available. -/
theorem availability_safe_iff (prims : Primitives) (now : Timeslot) (fuel : Nat) (orders : Orders)
    (s : State) (block : Block) (chain : Chain) (t : Transition)
    (h : transition prims now fuel orders s block chain = .ok t) :
    t.workReports = allCores.filterMap (reportOn t.newState.coreAssignments) ∧
      (AvailabilitySafe prims s block t ↔ ClearsTable prims s block) := by
  obtain ⟨st⟩ := (transition_eq_ok prims now fuel orders).mp h
  obtain ⟨-, hreports⟩ := getAvailableWorkReports_eq_ret st.workReports_eq
  refine ⟨by rw [hreports, st.newState_eq], ?_, ?_⟩
  · intro hsafe
    exact ⟨no_guarantees_of_safe st hsafe, fun core a ha => leaves_of_safe st hsafe ha⟩
  · rintro ⟨hguarantees, hleaves⟩ core w hw
    rcases get_newState st core with ⟨g, hg, -⟩ | ⟨-, hget⟩
    · rw [hguarantees] at hg
      cases hg
    · obtain ⟨a, ha, -⟩ := bind_eq_some_iff.mp hw
      obtain ⟨hpending, hstays⟩ := (hget a).mp ha
      exact absurd (hleaves core a hpending) hstays

def sortedOrders : Orders where
  locks _ s := .sorted UInt32.toNat UInt32.ofNat (fun _ => UInt32.ofNat_toNat) s
  services s := .sorted UInt32.toNat UInt32.ofNat (fun _ => UInt32.ofNat_toNat) s

def stateWith (coreAssignments : CoreAssignments) : State where
  services := ∅
  privilegedServices := ⟨0, 0, 0, ∅⟩
  validatorState :=
    { currentValidators := zeroValidators
      archivedValidators := zeroValidators
      queuedValidators := zeroValidators
      safroleState := ⟨zeroValidators, [], .none, .replicate 144 0⟩ }
  entropyPool := .replicate 4 (.replicate 32 0)
  coreAuthorizersPool := .replicate totalNumberOfCores []
  pendingAuthorizersQueues :=
    .replicate totalNumberOfCores (.replicate pendingAuthorizersQueueSize (.replicate 32 0))
  coreAssignments
  recentBlocks := []
  timeslotIndex := 0
  pastJudgements := ⟨[], [], [], []⟩
  validatorStatistics :=
    ⟨.replicate numberOfValidators .zero, .replicate numberOfValidators .zero⟩
  accumulationQueue := .replicate timeslotsPerEpoch []
  accumulationHistory := .replicate timeslotsPerEpoch ∅

def emptyBlock : Block where
  header := { Header.zero with timeSlotIndex := 1 }
  extrinsic := ⟨[], [], [], [], ⟨[], [], []⟩⟩

def pendingAfter : CoreAssignments := (availabilityOf [] pendingOnFirstCore 1).coreAssignments

theorem pendingAfter_get :
    pendingAfter.get = fun core => if core.val = 0 then some ⟨some emptyReport, 0⟩ else none := by
  funext core
  rw [pendingAfter, availabilityOf, get_ofFn, pendingOnFirstCore, get_ofFn]
  split <;> rfl

theorem getAvailableWorkReports_pendingAfter :
    getAvailableWorkReports pendingAfter = .ret [emptyReport] := by
  decide +kernel

theorem accumulation_returns : (calculateWorkReportsAndAccumulate accepting.hashData 0 sortedOrders
      emptyBlock.header (stateWith pendingOnFirstCore) 1 [emptyReport]).Returns := by
  decide +kernel

theorem emptyBlock_accepted :
    ∃ t, transition accepting 1 0 sortedOrders (stateWith pendingOnFirstCore) emptyBlock
        ⟨false, .ok []⟩ = .ok t ∧
      t.workReports = [emptyReport] ∧ t.newState.coreAssignments = pendingAfter := by
  obtain ⟨accumulation, haccumulation⟩ := accumulation_returns
  refine ⟨⟨_, [emptyReport]⟩, (transition_eq_ok _ _ _ _).mpr ⟨{
    safroleInput := ⟨1, [], .replicate 32 0, []⟩
    safrole := _
    availability := availabilityOf [] pendingOnFirstCore 1
    reported := ⟨pendingAfter, ∅⟩
    accumulation
    judgements := ⟨[], [], [], []⟩
    notInFuture := by decide
    guaranteesValid := rfl
    safroleInput_eq := rfl
    safrole_eq := rfl
    availability_eq := ?_
    reported_eq := rfl
    workReports_eq := getAvailableWorkReports_pendingAfter
    accumulation_eq := haccumulation
    judgements_eq := rfl
    newState_eq := rfl }⟩, rfl, rfl⟩
  rw [calculateIntermediateCoreFromAssurances_eq_ok]
  exact ⟨by simp [emptyBlock], rfl, fun core hcore => absurd rfl hcore, rfl⟩

theorem emptyBlock_safe_iff :
    ∃ t, transition accepting 1 0 sortedOrders (stateWith pendingOnFirstCore) emptyBlock
        ⟨false, .ok []⟩ = .ok t ∧
      (AvailabilitySafe accepting (stateWith pendingOnFirstCore) emptyBlock t ↔
        ClearsTable accepting (stateWith pendingOnFirstCore) emptyBlock) := by
  obtain ⟨t, ht, -⟩ := emptyBlock_accepted
  exact ⟨t, ht, (availability_safe_iff accepting 1 0 sortedOrders
    (stateWith pendingOnFirstCore) emptyBlock ⟨false, .ok []⟩ t ht).2⟩

theorem unassured_report_handed_over :
    ∃ t, transition accepting 1 0 sortedOrders (stateWith pendingOnFirstCore) emptyBlock
        ⟨false, .ok []⟩ = .ok t ∧
      t.workReports = [emptyReport] ∧ emptyBlock.extrinsic.ea = [] ∧
      ¬ AvailabilitySafe accepting (stateWith pendingOnFirstCore) emptyBlock t := by
  obtain ⟨t, ht, hreports, htable⟩ := emptyBlock_accepted
  refine ⟨t, ht, hreports, rfl, fun hsafe => ?_⟩
  have hreport : reportOn t.newState.coreAssignments ⟨0, by decide⟩ = some emptyReport := by
    rw [reportOn, htable, pendingAfter_get]
    rfl
  obtain ⟨-, -, hassured⟩ := hsafe _ _ hreport
  exact absurd hassured (by decide)

end Strawberry.StateTransition
