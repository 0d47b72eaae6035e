import Strawberry.StateTransition.Queue
import Strawberry.StateTransition.Merging

/-!
# What accepted guarantees satisfy

Each loop of `ValidateExtrinsicGuarantees` is described on its own; `Validated` is all of them.
-/

namespace Strawberry.StateTransition

open Block State Constants List Finmap GoMap

variable {prims : Primitives} {s : State} {p p' : Packages} {guarantee : Guarantee}
  {gs : List Guarantee}

theorem checkDuplicates_eq_ok {past seenPackages : Finset Hash}
    (h : checkDuplicates past gs seenPackages = .ok ()) :
    (gs.map packageHash).Nodup ∧ ∀ g ∈ gs, packageHash g ∉ seenPackages ∧ packageHash g ∉ past := by
  induction gs generalizing seenPackages with
  | nil => simp
  | cons g gs ih =>
    simp only [checkDuplicates, bind_unit_eq_ok, check_eq_ok, decide_eq_true_eq] at h
    obtain ⟨hseen, hpast, h⟩ := h
    obtain ⟨hnodup, hrest⟩ := ih h
    rw [map_cons, nodup_cons, forall_mem_cons]
    refine ⟨⟨?_, hnodup⟩, ⟨hseen, hpast⟩, ?_⟩
    · intro hmem
      obtain ⟨g', hg', heq⟩ := mem_map.mp hmem
      apply (hrest g' hg').1
      rw [heq]
      exact Finset.mem_insert_self _ _
    · intro g' hg'
      exact ⟨fun hmem => (hrest g' hg').1 (Finset.mem_insert_of_mem hmem), (hrest g' hg').2⟩

theorem checkGas_eq_ok {services : Service.ServiceState} {results : List WorkResult}
    {totalGas : UInt64} :
    checkGas services results totalGas = .ok () ↔
      (∀ r ∈ results, (services.getD r.serviceId .zero).gasLimitForAccumulator ≤
        r.gasPrioritizationRatio) ∧
      results.foldl (fun sum r => sum + r.gasPrioritizationRatio) totalGas ≤
        maxAllocatedGasAccumulation := by
  induction results generalizing totalGas with
  | nil => simp [checkGas]
  | cons r results ih =>
    rw [checkGas, bind_unit_eq_ok, check_eq_ok, decide_eq_true_eq, ih, forall_mem_cons,
      foldl_cons, and_assoc]

theorem gatherPackages_eq_ok (h : gatherPackages prims s p guarantee = .ok p') :
    checkGas s.services guarantee.workReport.workResults 0 = .ok () ∧
      p'.extrinsicWorkPackages = p.extrinsicWorkPackages.insert (packageHash guarantee)
        guarantee.workReport.workPackageSpecification.segmentRoot ∧
      p'.prerequisitePackageHashes = p.prerequisitePackageHashes ∪
        guarantee.workReport.segmentRootLookup.keys ∪
        guarantee.workReport.refinementContext.prerequisiteWorkPackage.toFinset := by
  simp only [gatherPackages, bind_unit_eq_ok] at h
  obtain ⟨hgas, -, h⟩ := h
  split at h
  · rw [← pure_eq_ok.mp h]
    exact ⟨hgas, rfl, rfl⟩
  · obtain ⟨queued, -, h⟩ := bind_eq_ok.mp h
    rw [← pure_eq_ok.mp h]
    exact ⟨hgas, rfl, rfl⟩

theorem gather_eq_ok (h : gs.foldlM (gatherPackages prims s) p = .ok p') :
    (∀ g ∈ gs, checkGas s.services g.workReport.workResults 0 = .ok ()) ∧
      p'.extrinsicWorkPackages = gs.foldl (fun m g => m.insert (packageHash g)
        g.workReport.workPackageSpecification.segmentRoot) p.extrinsicWorkPackages ∧
      p.prerequisitePackageHashes ⊆ p'.prerequisitePackageHashes ∧
      ∀ g ∈ gs, (getWorkReportDependencies g.workReport).dependencies ⊆
        p'.prerequisitePackageHashes := by
  induction gs generalizing p with
  | nil =>
    rw [foldlM_nil, pure_eq_ok] at h
    subst h
    simp
  | cons g gs ih =>
    rw [foldlM_cons, bind_eq_ok] at h
    obtain ⟨p₁, hround, h⟩ := h
    obtain ⟨hgas, hpackages, hprerequisites⟩ := gatherPackages_eq_ok hround
    obtain ⟨hgases, hfold, hsubset, hdependencies⟩ := ih h
    rw [forall_mem_cons, forall_mem_cons, foldl_cons]
    refine ⟨⟨hgas, hgases⟩, by rw [hfold, hpackages], ?_, ?_, hdependencies⟩
    · rw [hprerequisites, Finset.union_assoc] at hsubset
      exact Finset.union_subset_left hsubset
    · rw [hprerequisites, Finset.union_assoc] at hsubset
      have hunion := Finset.union_subset_right hsubset
      rwa [Finset.union_comm] at hunion

def extrinsicWorkPackages (guarantees : List Guarantee) : GoMap Hash Hash :=
  guarantees.foldl (fun m g => m.insert (packageHash g)
    g.workReport.workPackageSpecification.segmentRoot) ∅

def extrinsicAndRecentWorkPackages (s : State) (guarantees : List Guarantee) : GoMap Hash Hash :=
  (extrinsicWorkPackages guarantees).copy (recentBlockPrerequisites s.recentBlocks)

structure Validated (prims : Primitives) (header : Header) (s : State)
    (guarantees : List Guarantee) (table : CoreAssignments) (slot : Timeslot) (chain : Chain) :
    Prop where
  distinct : (guarantees.map packageHash).Nodup
  notRecent : ∀ g ∈ guarantees, packageHash g ∉ recentBlockPrerequisites s.recentBlocks
  guarantee : ∀ g ∈ guarantees, checkGuarantee header s table slot g = .ok ()
  gas : ∀ g ∈ guarantees, checkGas s.services g.workReport.workResults 0 = .ok ()
  context : ∃ contexts, ∀ g ∈ guarantees, checkContext prims header s chain contexts g = .ok ()
  dependencies : ∀ g ∈ guarantees, ∀ hash ∈ (getWorkReportDependencies g.workReport).dependencies,
    hash ∈ extrinsicAndRecentWorkPackages s guarantees
  sorted : guarantees.IsChain fun a b => a.workReport.coreIndex < b.workReport.coreIndex
  credentials : ∀ g ∈ guarantees,
    checkCredentials (extrinsicAndRecentWorkPackages s guarantees) slot g = .ok ()

variable {header : Header} {table : CoreAssignments} {slot : Timeslot} {chain : Chain}

theorem validated_of_ok
    (h : validateExtrinsicGuarantees prims header s gs table slot chain = .ok ()) :
    Validated prims header s gs table slot chain := by
  simp only [validateExtrinsicGuarantees, bind_unit_eq_ok] at h
  obtain ⟨hduplicates, hguarantee, h⟩ := h
  obtain ⟨p, hgather, h⟩ := bind_eq_ok.mp h
  simp only [bind_unit_eq_ok, check_eq_ok, decide_eq_true_eq, forM_eq_ok] at h hguarantee
  obtain ⟨-, hcontext, -, -, hdependencies, hsorted, hcredentials⟩ := h
  obtain ⟨hdistinct, hnotPast⟩ := checkDuplicates_eq_ok hduplicates
  obtain ⟨hgas, hpackages, -, hgathered⟩ := gather_eq_ok hgather
  rw [hpackages] at hdependencies hcredentials
  refine ⟨hdistinct, ?_, hguarantee, hgas, ⟨_, hcontext⟩, ?_, ?_, hcredentials⟩
  · intro g hg
    exact (hnotPast g hg).2
  · intro g hg hash hhash
    exact hdependencies (hgathered g hg hhash)
  · exact of_decide_eq_true hsorted

theorem lookup_recentBlockPrerequisites {recentBlocks : List BlockState} {hash root : Hash}
    (h : (recentBlockPrerequisites recentBlocks).lookup hash = some root) :
    ∃ b ∈ recentBlocks, b.workReportHashes.lookup hash = some root := by
  rcases lookup_foldl_copy h with hempty | hblock
  · cases hempty
  · exact hblock

theorem mem_recentBlockPrerequisites {recentBlocks : List BlockState} {hash : Hash} :
    hash ∈ recentBlockPrerequisites recentBlocks ↔
      ∃ b ∈ recentBlocks, hash ∈ b.workReportHashes := by
  unfold recentBlockPrerequisites
  rw [mem_foldl_copy, or_iff_right notMem_empty]

def RootRecorded (s : State) (guarantees : List Guarantee) (hash root : Hash) : Prop :=
  (∃ g ∈ guarantees, packageHash g = hash ∧
      g.workReport.workPackageSpecification.segmentRoot = root) ∨
    ∃ b ∈ s.recentBlocks, b.workReportHashes.lookup hash = some root

theorem rootRecorded_of_lookup {hash root : Hash}
    (h : (extrinsicAndRecentWorkPackages s gs).lookup hash = some root) :
    RootRecorded s gs hash root := by
  rw [extrinsicAndRecentWorkPackages, lookup_copy] at h
  split at h
  · exact .inr (lookup_recentBlockPrerequisites h)
  · rcases lookup_foldl_insert h with hempty | hguarantee
    · cases hempty
    · exact .inl hguarantee

structure DependenciesKnown (s : State) (guarantees : List Guarantee) : Prop where
  packages : ∀ g ∈ guarantees, ∀ hash,
    (hash ∈ g.workReport.refinementContext.prerequisiteWorkPackage ∨
        hash ∈ g.workReport.segmentRootLookup) →
      (∃ g' ∈ guarantees, packageHash g' = hash) ∨ ∃ b ∈ s.recentBlocks, hash ∈ b.workReportHashes
  roots : ∀ g ∈ guarantees, ∀ hash root, g.workReport.segmentRootLookup.lookup hash = some root →
    RootRecorded s guarantees hash root

theorem mem_dependencies {report : WorkReport} {hash : Hash} :
    hash ∈ (getWorkReportDependencies report).dependencies ↔
      hash ∈ report.refinementContext.prerequisiteWorkPackage ∨
        hash ∈ report.segmentRootLookup := by
  rw [getWorkReportDependencies, Finset.mem_union, mem_toFinset, Finmap.mem_keys]

theorem Validated.root (h : Validated prims header s gs table slot chain) {g : Guarantee}
    (hg : g ∈ gs) {hash root : Hash}
    (hget : g.workReport.segmentRootLookup.lookup hash = some root) :
    (extrinsicAndRecentWorkPackages s gs).lookup hash = some root := by
  have hkey : hash ∈ g.workReport.segmentRootLookup := mem_of_lookup_eq_some hget
  have hvalue := h.credentials g hg
  simp only [checkCredentials, checkSegmentRoots, bind_unit_eq_ok, check_eq_ok,
    decide_eq_true_eq] at hvalue
  have hroot := hvalue.1 hash (Finmap.mem_keys.mpr hkey)
  rw [getD_of_lookup hget] at hroot
  have hpresent := h.dependencies g hg hash (mem_dependencies.mpr (.inr hkey))
  obtain ⟨known, hk⟩ := mem_iff.mp hpresent
  rw [getD_of_lookup hk] at hroot
  rw [hk, hroot]

/-- What a report depends on is known. -/
theorem dependencies_sound
    (h : validateExtrinsicGuarantees prims header s gs table slot chain = .ok ()) :
    DependenciesKnown s gs := by
  have hvalid := validated_of_ok h
  constructor
  · intro g hg hash hhash
    have hk := hvalid.dependencies g hg hash (mem_dependencies.mpr hhash)
    obtain ⟨root, hroot⟩ := mem_iff.mp hk
    rcases rootRecorded_of_lookup hroot with ⟨g', hg', hkey, -⟩ | ⟨b, hb, hget⟩
    · exact .inl ⟨g', hg', hkey⟩
    · exact .inr ⟨b, hb, mem_of_lookup_eq_some hget⟩
  · intro g hg hash root hget
    exact rootRecorded_of_lookup (hvalid.root hg hget)

def oneHash : Hash := .replicate 32 1

def openState : State :=
  { emptyState with
    services := Finmap.singleton 1 .zero
    coreAuthorizersPool := .replicate totalNumberOfCores [.replicate 32 0]
    recentBlocks :=
      [⟨.replicate 32 0, .replicate 32 0, [], Finmap.singleton oneHash (.replicate 32 0)⟩] }

def guaranteeOf (report : WorkReport) : Guarantee where
  workReport := { report with coreIndex := 340 }
  timeslot := 600
  credentials := [⟨1, .replicate 64 0⟩, ⟨2, .replicate 64 0⟩]

abbrev Passes (slot : Timeslot) (s : State) (guarantee : Guarantee)
    (entries : List (Except ChainError Header)) : Prop :=
  validateExtrinsicGuarantees accepting (headerOf slot) s [guarantee] s.coreAssignments
    slot ⟨false, .ok entries⟩ = .ok ()

theorem validate_openState : Passes 600 openState (guaranteeOf emptyReport) [] := by
  decide +kernel

def dependentReport : WorkReport :=
  { waitingReport with segmentRootLookup := Finmap.singleton oneHash (.replicate 32 0) }

theorem dependencies_sound_dependentReport : Passes 600 openState (guaranteeOf dependentReport) [] ∧
      DependenciesKnown openState [guaranteeOf dependentReport] := by
  have hvalid : Passes 600 openState (guaranteeOf dependentReport) [] := by decide +kernel
  exact ⟨hvalid, dependencies_sound hvalid⟩

structure NotReportedTwice (s : State) (guarantees : List Guarantee) : Prop where
  recent : ∀ g ∈ guarantees, ∀ b ∈ s.recentBlocks, packageHash g ∉ b.workReportHashes
  history : ∀ g ∈ guarantees, ∀ hashes ∈ s.accumulationHistory.toList, packageHash g ∉ hashes
  queue : ∀ g ∈ guarantees, ∀ wd ∈ s.accumulationQueue.toList.flatten,
    wd.workReport.workPackageSpecification.workPackageHash ≠ packageHash g
  pending : ∀ g ∈ guarantees, ∀ core w, reportOn s.coreAssignments core = some w →
    w.workPackageSpecification.workPackageHash ≠ packageHash g
  distinct : (guarantees.map packageHash).Nodup

def NewPackage (s : State) (hash : Hash) : Prop :=
  (∀ hashes ∈ s.accumulationHistory.toList, hash ∉ hashes) ∧
    (∀ wd ∈ s.accumulationQueue.toList.flatten,
      wd.workReport.workPackageSpecification.workPackageHash ≠ hash) ∧
    ∀ core w, reportOn s.coreAssignments core = some w →
      w.workPackageSpecification.workPackageHash ≠ hash

/-- When no package is reported twice. -/
theorem not_reported_twice_iff
    (h : validateExtrinsicGuarantees prims header s gs table slot chain = .ok ()) :
    NotReportedTwice s gs ↔ ∀ g ∈ gs, NewPackage s (packageHash g) := by
  have hvalid := validated_of_ok h
  constructor
  · intro hlaw g hg
    exact ⟨hlaw.history g hg, hlaw.queue g hg, hlaw.pending g hg⟩
  · intro hnew
    refine ⟨?_, fun g hg => (hnew g hg).1, fun g hg => (hnew g hg).2.1,
      fun g hg => (hnew g hg).2.2, hvalid.distinct⟩
    intro g hg b hb hmem
    exact hvalid.notRecent g hg (mem_recentBlockPrerequisites.mpr ⟨b, hb, hmem⟩)

theorem not_reported_twice_in_openState : Passes 600 openState (guaranteeOf emptyReport) [] ∧
      NotReportedTwice openState [guaranteeOf emptyReport] := by
  refine ⟨validate_openState, (not_reported_twice_iff validate_openState).mpr ?_⟩
  rw [forall_mem_singleton]
  refine ⟨by decide +kernel, ?_, ?_⟩
  · have hempty : openState.accumulationQueue.toList.flatten = [] := by decide +kernel
    rw [hempty]
    simp
  · intro core w hw
    have hnone : openState.coreAssignments.get core = none := get_replicate _ _
    rw [reportOn, hnone] at hw
    cases hw

theorem totalNumberOfCores_pos : 0 < totalNumberOfCores := by decide

def stateWithZeroPackage : State :=
  { openState with
    accumulationHistory := .replicate timeslotsPerEpoch {.replicate 32 0}
    accumulationQueue := .replicate timeslotsPerEpoch [⟨waitingReport, {oneHash}⟩]
    coreAssignments :=
      (Vector.replicate totalNumberOfCores none).set 0 (some ⟨some emptyReport, 0⟩)
        totalNumberOfCores_pos }

theorem accumulated_package_accepted :
    Passes 600 stateWithZeroPackage (guaranteeOf emptyReport) [] ∧
      (∀ i, packageHash (guaranteeOf emptyReport) ∈
        stateWithZeroPackage.accumulationHistory.get i) ∧
      (∀ i, (stateWithZeroPackage.accumulationQueue.get i).map (·.workReport) = [waitingReport]) ∧
      reportOn stateWithZeroPackage.coreAssignments ⟨0, by decide⟩ = some emptyReport ∧
      ¬ NotReportedTwice stateWithZeroPackage [guaranteeOf emptyReport] := by
  have hpending : reportOn stateWithZeroPackage.coreAssignments ⟨0, by decide⟩ =
      some emptyReport := by
    decide +kernel
  refine ⟨by decide +kernel, ?_, ?_, hpending, ?_⟩
  · intro i
    have hist : stateWithZeroPackage.accumulationHistory.get i = {.replicate 32 0} :=
      get_replicate _ _
    rw [hist]
    exact Finset.mem_singleton_self _
  · intro i
    have hqueue : stateWithZeroPackage.accumulationQueue.get i = [⟨waitingReport, {oneHash}⟩] :=
      get_replicate _ _
    rw [hqueue]
    rfl
  · intro hlaw
    exact hlaw.pending _ (mem_singleton_self _) _ _ hpending rfl

def Chain.Stores (chain : Chain) (header : Header) : Prop :=
  ∃ entries, chain.headers = .ok entries ∧ .ok header ∈ entries

def AnchorStored (prims : Primitives) (chain : Chain) (anchor : RefinementContextLookupAnchor) :
    Prop :=
  ∃ ancestor, chain.Stores ancestor ∧ ancestor.timeSlotIndex = anchor.timeslot ∧
    ancestor.hash prims.hashData = anchor.headerHash

def LookupAnchorLaw (prims : Primitives) (header : Header) (chain : Chain)
    (guarantees : List Guarantee) : Prop :=
  ∀ g ∈ guarantees, header.timeSlotIndex.toNat ≤
        g.workReport.refinementContext.lookupAnchor.timeslot.toNat + maxTimeslotsForPreimage.toNat ∧
      AnchorStored prims chain g.workReport.refinementContext.lookupAnchor

theorem Validated.anchor_lt (h : Validated prims header s gs table slot chain) {g : Guarantee}
    (hg : g ∈ gs) :
    g.workReport.refinementContext.lookupAnchor.timeslot <
      header.timeSlotIndex - maxTimeslotsForPreimage := by
  obtain ⟨contexts, hcontext⟩ := h.context
  have hround := hcontext g hg
  simp only [checkContext, bind_unit_eq_ok, check_eq_ok, decide_eq_true_eq] at hround
  exact hround.2.2.1

theorem anchor_young_iff {anchor : Timeslot} (h : anchor < slot - maxTimeslotsForPreimage) :
    slot.toNat ≤ anchor.toNat + maxTimeslotsForPreimage.toNat ↔ slot < maxTimeslotsForPreimage := by
  rw [UInt32.lt_iff_toNat_lt, UInt32.toNat_sub] at h
  rw [UInt32.lt_iff_toNat_lt]
  have hslot := slot.toNat_lt
  omega

/-- When the lookup anchors are young and stored. -/
theorem lookup_anchor_iff
    (h : validateExtrinsicGuarantees prims header s gs table slot chain = .ok ()) :
    LookupAnchorLaw prims header chain gs ↔
      gs = [] ∨ (header.timeSlotIndex < maxTimeslotsForPreimage ∧ ∀ g ∈ gs,
          AnchorStored prims chain g.workReport.refinementContext.lookupAnchor) := by
  have hvalid := validated_of_ok h
  constructor
  · intro hlaw
    rcases gs with _ | ⟨g, gs⟩
    · exact .inl rfl
    · refine .inr ⟨?_, fun g hg => (hlaw g hg).2⟩
      have hg : g ∈ g :: gs := mem_cons_self
      exact (anchor_young_iff (hvalid.anchor_lt hg)).mp (hlaw g hg).1
  · rintro (rfl | ⟨hyoung, hstored⟩) g hg
    · cases hg
    · exact ⟨(anchor_young_iff (hvalid.anchor_lt hg)).mpr hyoung, hstored g hg⟩

theorem lookup_anchor_of_zero_header : Passes 600 openState (guaranteeOf emptyReport) [.ok .zero] ∧
      LookupAnchorLaw accepting (headerOf 600) ⟨false, .ok [.ok .zero]⟩
        [guaranteeOf emptyReport] := by
  have hvalid : Passes 600 openState (guaranteeOf emptyReport) [.ok .zero] := by decide +kernel
  refine ⟨hvalid, (lookup_anchor_iff hvalid).mpr (.inr ⟨by decide, ?_⟩)⟩
  rw [forall_mem_singleton]
  exact ⟨.zero, ⟨_, rfl, mem_singleton_self _⟩, rfl, rfl⟩

theorem old_anchor_accepted :
    Passes 20000 openState { guaranteeOf emptyReport with timeslot := 20000 } [] ∧
      (guaranteeOf emptyReport).workReport.refinementContext.lookupAnchor.timeslot = 0 ∧
      (∀ header, ¬ Chain.Stores ⟨false, .ok []⟩ header) ∧
      ¬ LookupAnchorLaw accepting (headerOf 20000) ⟨false, .ok []⟩
        [{ guaranteeOf emptyReport with timeslot := 20000 }] := by
  refine ⟨by decide +kernel, rfl, ?_, ?_⟩
  · rintro header ⟨entries, hentries, hmem⟩
    cases hentries
    cases hmem
  · intro hlaw
    have hage := (hlaw _ (mem_singleton_self _)).1
    exact absurd hage (by decide)

def grantedFor (workReports : List WorkReport) (privilegedGas : GoMap ServiceId UInt64)
    (serviceIndex : ServiceId) : UInt64 :=
  serviceGas workReports privilegedGas serviceIndex - privilegedGas.getD serviceIndex 0

def trueShare (workReports : List WorkReport) (serviceIndex : ServiceId) : Nat :=
  (((workReports.flatMap (·.workResults)).filter fun result =>
    result.serviceId = serviceIndex).map fun result => result.gasPrioritizationRatio.toNat).sum

structure GasLaw (s : State) (guarantees : List Guarantee) : Prop where
  total : ∀ g ∈ guarantees, resultsGas [g.workReport] ≤ maxAllocatedGasAccumulation.toNat
  minimum : ∀ g ∈ guarantees, ∀ r ∈ g.workReport.workResults,
    ∃ account, s.services.lookup r.serviceId = some account ∧
      account.gasLimitForAccumulator.toNat ≤ r.gasPrioritizationRatio.toNat
  share : ∀ reports, List.Subperm reports (guarantees.map (·.workReport)) →
    ∀ privilegedGas serviceIndex,
      (grantedFor reports privilegedGas serviceIndex).toNat = trueShare reports serviceIndex

variable {reports : List WorkReport}

theorem grantedFor_toNat (privilegedGas : GoMap ServiceId UInt64) (serviceIndex : ServiceId) :
    (grantedFor reports privilegedGas serviceIndex).toNat =
      trueShare reports serviceIndex % 2 ^ 64 := by
  have hgas := @serviceGas_toNat reports privilegedGas serviceIndex
  have hgiven : givenTo reports privilegedGas serviceIndex =
      (privilegedGas.getD serviceIndex 0).toNat + trueShare reports serviceIndex := rfl
  have hfree := (privilegedGas.getD serviceIndex 0).toNat_lt
  rw [grantedFor, UInt64.toNat_sub, hgas, hgiven]
  omega

theorem trueShare_le (serviceIndex : ServiceId) :
    trueShare reports serviceIndex ≤ resultsGas reports :=
  (filter_sublist.map _).sum_le_sum fun _ _ => Nat.zero_le _

theorem resultsGas_le_mul {bound : Nat} (h : ∀ w ∈ reports, resultsGas [w] ≤ bound) :
    resultsGas reports ≤ reports.length * bound := by
  induction reports with
  | nil => exact Nat.zero_le _
  | cons w reports ih =>
    rw [forall_mem_cons] at h
    have hrest := ih h.2
    rw [resultsGas_cons, length_cons, Nat.add_mul, Nat.one_mul]
    omega

theorem Validated.length_le (h : Validated prims header s gs table slot chain) :
    gs.length ≤ totalNumberOfCores := by
  have hnodup : (gs.map fun g => g.workReport.coreIndex.toNat).Nodup := by
    have hpairwise := isChain_iff_pairwise.mp h.sorted
    refine pairwise_map.mpr (hpairwise.imp fun hlt heq => ?_)
    rw [UInt16.lt_iff_toNat_lt] at hlt
    omega
  have hsubset : (gs.map fun g => g.workReport.coreIndex.toNat) ⊆
      List.range totalNumberOfCores := by
    intro n hn
    obtain ⟨g, hg, rfl⟩ := mem_map.mp hn
    obtain ⟨core, hcore, -⟩ := checkGuarantee_core (h.guarantee g hg)
    rw [mem_range, hcore]
    exact core.isLt
  have hlen := (subperm_of_subset hnodup hsubset).length_le
  rwa [length_map, length_range] at hlen

theorem Validated.minimum (h : Validated prims header s gs table slot chain)
    {g : Guarantee} (hg : g ∈ gs) {r : WorkResult} (hr : r ∈ g.workReport.workResults) :
    ∃ account, s.services.lookup r.serviceId = some account ∧
      account.gasLimitForAccumulator.toNat ≤ r.gasPrioritizationRatio.toNat := by
  have hresult := h.guarantee g hg
  simp only [checkGuarantee, bind_unit_eq_ok] at hresult
  have hservice := forM_eq_ok.mp hresult.2.2.1 r hr
  have hgas := (checkGas_eq_ok.mp (h.gas g hg)).1 r hr
  cases hget : s.services.lookup r.serviceId with
  | none =>
    rw [checkWorkResult, hget] at hservice
    cases hservice
  | some account =>
    rw [getD_of_lookup hget, UInt64.le_iff_toNat_le] at hgas
    exact ⟨account, rfl, hgas⟩

theorem Validated.total_mod (h : Validated prims header s gs table slot chain)
    {g : Guarantee} (hg : g ∈ gs) :
    resultsGas [g.workReport] % 2 ^ 64 ≤ maxAllocatedGasAccumulation.toNat := by
  have hgas := (checkGas_eq_ok.mp (h.gas g hg)).2
  rw [UInt64.le_iff_toNat_le, foldl_add_toNat] at hgas
  have hsum : resultsGas [g.workReport] =
      (g.workReport.workResults.map fun r => r.gasPrioritizationRatio.toNat).sum := by
    rw [resultsGas, flatMap_singleton]
  have hzero : (0 : UInt64).toNat = 0 := rfl
  omega

/-- When the gas of a report is within its limits as a natural number. -/
theorem report_gas_iff
    (h : validateExtrinsicGuarantees prims header s gs table slot chain = .ok ()) :
    GasLaw s gs ↔ ∀ g ∈ gs, resultsGas [g.workReport] < 2 ^ 64 := by
  have hvalid := validated_of_ok h
  have hmax : maxAllocatedGasAccumulation.toNat = 10000000 := rfl
  constructor
  · intro hlaw g hg
    have htotal := hlaw.total g hg
    omega
  · intro hsmall
    have htotal : ∀ g ∈ gs, resultsGas [g.workReport] ≤ maxAllocatedGasAccumulation.toNat := by
      intro g hg
      have hmod := hvalid.total_mod hg
      rwa [Nat.mod_eq_of_lt (hsmall g hg)] at hmod
    refine ⟨htotal, fun g hg r hr => hvalid.minimum hg hr, ?_⟩
    intro reports hreports privilegedGas serviceIndex
    have hlimits : ∀ w ∈ reports, resultsGas [w] ≤ maxAllocatedGasAccumulation.toNat := by
      intro w hw
      obtain ⟨g, hg, rfl⟩ := mem_map.mp (hreports.subset hw)
      exact htotal g hg
    have hlen := hreports.length_le
    rw [length_map] at hlen
    have hcores := hvalid.length_le
    have hcard : totalNumberOfCores = 341 := rfl
    have hsum := resultsGas_le_mul hlimits
    have hshare := @trueShare_le reports serviceIndex
    have hmul : reports.length * maxAllocatedGasAccumulation.toNat ≤
        341 * maxAllocatedGasAccumulation.toNat := Nat.mul_le_mul_right _ (by omega)
    rw [grantedFor_toNat, Nat.mod_eq_of_lt (by omega)]

def twoResults (gas : UInt64) : WorkReport :=
  { emptyReport with workResults :=
      [⟨1, .replicate 32 0, .replicate 32 0, gas, .output []⟩,
        ⟨1, .replicate 32 0, oneHash, gas, .output []⟩] }

theorem report_gas_of_twoResults : Passes 600 openState (guaranteeOf (twoResults 10)) [] ∧
      GasLaw openState [guaranteeOf (twoResults 10)] := by
  have hvalid : Passes 600 openState (guaranteeOf (twoResults 10)) [] := by decide +kernel
  refine ⟨hvalid, (report_gas_iff hvalid).mpr ?_⟩
  decide

theorem report_gas_wraps : Passes 600 openState (guaranteeOf (twoResults 0x8000000000000000)) [] ∧
      resultsGas [(guaranteeOf (twoResults 0x8000000000000000)).workReport] = 2 ^ 64 ∧
      grantedFor [(guaranteeOf (twoResults 0x8000000000000000)).workReport] ∅ 1 = 0 ∧
      ¬ GasLaw openState [guaranteeOf (twoResults 0x8000000000000000)] := by
  refine ⟨by decide +kernel, by decide, by decide, ?_⟩
  intro hlaw
  have htotal := hlaw.total _ (mem_singleton_self _)
  exact absurd htotal (by decide)

end Strawberry.StateTransition
