import Strawberry.StateTransition.Guarantors

/-!
# Engaged cores

A core that the block itself frees is still taken for engaged by the first of two checks.
-/

namespace Strawberry.StateTransition

open Block State Constants

def Engaged (table : CoreAssignments) (slot : Timeslot) (core : Core) : Prop :=
  ∃ a, table.get core = some a ∧ a.workReport.isSome ∧ isAssignmentStale (some a) slot = false

def OnEngagedCore (table : CoreAssignments) (slot : Timeslot) (guarantee : Guarantee) : Prop :=
  ∃ core, GuaranteedOn guarantee core ∧ Engaged table slot core

variable {prims : Primitives} {header : Header} {s : State} {table : CoreAssignments}
  {slot : Timeslot} {chain : Chain} {guarantee : Guarantee} {guarantees : List Guarantee}

theorem isAssignmentValid_eq_false {core : Core} :
    isAssignmentValid (table.get core) slot = false ↔ Engaged table slot core := by
  unfold isAssignmentValid Engaged
  cases table.get core with
  | none | some => simp

theorem onEngagedCore_iff {core : Core} (h : GuaranteedOn guarantee core) :
    OnEngagedCore table slot guarantee ↔ Engaged table slot core := by
  constructor
  · rintro ⟨core', h', hengaged⟩
    rwa [Fin.ext (h.symm.trans h')]
  · intro hengaged
    exact ⟨core, h, hengaged⟩

def noAssignments : CoreAssignments := .replicate totalNumberOfCores none

theorem checkGuarantee_eq_of_free (table : CoreAssignments)
    (h : checkGuarantee header s noAssignments slot guarantee = .ok ()) :
    ∃ core, GuaranteedOn guarantee core ∧ checkGuarantee header s table slot guarantee =
        check (isAssignmentValid (table.get core) slot) .coreEngaged := by
  simp only [checkGuarantee, bind_unit_eq_ok] at h
  obtain ⟨hslot, hindices, hresults, h⟩ := h
  split at h
  · next hcore =>
    simp only [bind_unit_eq_ok] at h
    obtain ⟨hsize, hauthorized, -⟩ := h
    refine ⟨⟨_, hcore⟩, rfl, ?_⟩
    simp only [checkGuarantee]
    rw [hslot, hindices, hresults, dif_pos hcore, hsize, hauthorized]
    rfl
  · cases h

theorem checkGuarantee_engaged_iff
    (h : checkGuarantee header s noAssignments slot guarantee = .ok ()) :
    checkGuarantee header s table slot guarantee = .error .coreEngaged ↔
      OnEngagedCore table slot guarantee := by
  obtain ⟨core, hon, hcheck⟩ := checkGuarantee_eq_of_free table h
  rw [hcheck, onEngagedCore_iff hon, ← isAssignmentValid_eq_false]
  cases isAssignmentValid (table.get core) slot with
  | true => exact iff_of_false nofun nofun
  | false => exact iff_of_true rfl rfl

theorem validate_engaged_iff
    (h : validateExtrinsicGuarantees prims header s guarantees noAssignments slot chain = .ok ()) :
    (validateExtrinsicGuarantees prims header s guarantees table slot chain =
          .error .coreEngaged ↔ ∃ g ∈ guarantees, OnEngagedCore table slot g) ∧
      (validateExtrinsicGuarantees prims header s guarantees table slot chain = .ok () ↔
        ∀ g ∈ guarantees, ¬ OnEngagedCore table slot g) := by
  have hgs := (validated_of_ok h).guarantee
  have hcases : ∀ g ∈ guarantees, checkGuarantee header s table slot g = .ok () ∨
      checkGuarantee header s table slot g = .error .coreEngaged := by
    intro g hg
    obtain ⟨core, -, hcheck⟩ := checkGuarantee_eq_of_free table (hgs g hg)
    rw [hcheck]
    cases isAssignmentValid (table.get core) slot with
    | true => exact .inl rfl
    | false => exact .inr rfl
  have hfails : guarantees.forM (checkGuarantee header s table slot) = .error .coreEngaged ↔
      ∃ g ∈ guarantees, OnEngagedCore table slot g := by
    rw [forM_eq_error hcases]
    refine exists_congr fun g => and_congr_right fun hg => ?_
    exact checkGuarantee_engaged_iff (hgs g hg)
  have hpasses : guarantees.forM (checkGuarantee header s table slot) = .ok () ↔
      ∀ g ∈ guarantees, ¬ OnEngagedCore table slot g := by
    rw [forM_eq_ok]
    refine forall₂_congr fun g hg => ?_
    rw [← checkGuarantee_engaged_iff (hgs g hg)]
    rcases hcases g hg with hok | herror
    · rw [hok]
      exact iff_of_true rfl nofun
    · rw [herror]
      exact iff_of_false nofun (not_not_intro rfl)
  have hloop : validateExtrinsicGuarantees prims header s guarantees table slot chain =
      guarantees.forM (checkGuarantee header s table slot) := by
    unfold validateExtrinsicGuarantees at h ⊢
    obtain ⟨hduplicates, h⟩ := bind_unit_eq_ok.mp h
    obtain ⟨-, h⟩ := bind_unit_eq_ok.mp h
    dsimp only
    rw [hduplicates, ok_bind]
    apply bind_unit_eq_left
    exact h
  rw [hloop]
  exact ⟨hfails, hpasses⟩

structure OtherwiseValid (prims : Primitives) (now : Timeslot) (s : State) (newBlock : Block)
    (chain : Chain) (after : CoreAssignments) : Prop where
  notInFuture : newBlock.header.timeSlotIndex ≤ now
  guarantees : validateExtrinsicGuarantees prims newBlock.header s newBlock.extrinsic.eg
    noAssignments newBlock.header.timeSlotIndex chain = .ok ()
  assurances : ∃ input safrole availability, newSafroleInputFromBlock prims newBlock = .ok input ∧
    updateSafroleState prims input s.timeslotIndex s.entropyPool s.validatorState = .ok safrole ∧
    calculateIntermediateCoreFromAssurances prims safrole.validatorState.currentValidators
      (calculateIntermediateCoreAssignmentsFromExtrinsics prims newBlock.extrinsic.ed
        s.coreAssignments) newBlock.header newBlock.extrinsic.ea = .ok availability ∧
    after = availability.coreAssignments

def RejectedAsEngaged (prims : Primitives) (s : State) (newBlock : Block) (chain : Chain) : Prop :=
  validateExtrinsicGuarantees prims newBlock.header s newBlock.extrinsic.eg s.coreAssignments
    newBlock.header.timeSlotIndex chain = .error .coreEngaged

structure EngagementRule (prims : Primitives) (s : State) (newBlock : Block) (chain : Chain)
    (after : CoreAssignments) : Prop where
  guarantee : ∀ g ∈ newBlock.extrinsic.eg,
    checkGuarantee newBlock.header s s.coreAssignments newBlock.header.timeSlotIndex g =
        .error .coreEngaged ↔
      OnEngagedCore after newBlock.header.timeSlotIndex g
  block : RejectedAsEngaged prims s newBlock chain ↔
    ∃ g ∈ newBlock.extrinsic.eg, OnEngagedCore after newBlock.header.timeSlotIndex g

def NoneFreed (prims : Primitives) (s : State) (newBlock : Block) : Prop :=
  ∀ g ∈ newBlock.extrinsic.eg, ∀ core a, GuaranteedOn g core →
    s.coreAssignments.get core = some a → a.workReport.isSome →
      isAssignmentStale (some a) newBlock.header.timeSlotIndex = false →
        ¬ Leaves prims newBlock core a

variable {now : Timeslot} {b : Block} {after : CoreAssignments}

theorem OtherwiseValid.get_after (h : OtherwiseValid prims now s b chain after) {core : Core}
    {a : Assignment} :
    after.get core = some a ↔ s.coreAssignments.get core = some a ∧ ¬ Leaves prims b core a := by
  obtain ⟨input, safrole, availability, -, -, havailability, rfl⟩ := h.assurances
  obtain ⟨-, -, -, rfl⟩ := calculateIntermediateCoreFromAssurances_eq_ok.mp havailability
  exact get_intermediate_eq_some

theorem OtherwiseValid.engaged_before (h : OtherwiseValid prims now s b chain after)
    {g : Guarantee} (hafter : OnEngagedCore after slot g) :
    OnEngagedCore s.coreAssignments slot g := by
  obtain ⟨core, hon, a, ha, hreport, hstale⟩ := hafter
  exact ⟨core, hon, a, (h.get_after.mp ha).1, hreport, hstale⟩

theorem OtherwiseValid.noneFreed_iff (h : OtherwiseValid prims now s b chain after) :
    NoneFreed prims s b ↔ ∀ g ∈ b.extrinsic.eg,
      OnEngagedCore s.coreAssignments b.header.timeSlotIndex g →
        OnEngagedCore after b.header.timeSlotIndex g := by
  constructor
  · rintro hnone g hg ⟨core, hon, a, ha, hreport, hstale⟩
    exact ⟨core, hon, a, h.get_after.mpr ⟨ha, hnone g hg core a hon ha hreport hstale⟩, hreport,
      hstale⟩
  · intro hstays g hg core a hon ha hreport hstale
    obtain ⟨core', hon', a', ha', -⟩ := hstays g hg ⟨core, hon, a, ha, hreport, hstale⟩
    obtain rfl : core' = core := Fin.ext (hon'.symm.trans hon)
    obtain ⟨hpre, hnot⟩ := h.get_after.mp ha'
    rw [ha] at hpre
    cases hpre
    exact hnot

/-- When a guarantee is refused just for an engaged core. -/
theorem engagement_rule_iff (prims : Primitives) (now : Timeslot) (fuel : Nat) (orders : Orders)
    (s : State) (b : Block) (chain : Chain) (after : CoreAssignments)
    (h : OtherwiseValid prims now s b chain after) :
    ((RejectedAsEngaged prims s b chain ∧ transition prims now fuel orders s b chain =
          .fail (.guaranteesValidation .coreEngaged)) ∨
      validateExtrinsicGuarantees prims b.header s b.extrinsic.eg s.coreAssignments
        b.header.timeSlotIndex chain = .ok ()) ∧
    (EngagementRule prims s b chain after ↔ NoneFreed prims s b) := by
  obtain ⟨hrejected, haccepted⟩ := @validate_engaged_iff prims b.header s s.coreAssignments
    b.header.timeSlotIndex chain b.extrinsic.eg h.guarantees
  have hgs := (validated_of_ok h.guarantees).guarantee
  constructor
  · by_cases hengaged : ∃ g ∈ b.extrinsic.eg,
        OnEngagedCore s.coreAssignments b.header.timeSlotIndex g
    · have hreject := hrejected.mpr hengaged
      refine .inl ⟨hreject, ?_⟩
      have hnow : Call.check (decide (b.header.timeSlotIndex ≤ now))
          TransitionError.blockInFuture = .ok () :=
        Call.check_eq_ok.mpr (decide_eq_true h.notInFuture)
      unfold transition
      dsimp only
      rw [hnow, hreject]
      rfl
    · push Not at hengaged
      exact .inr (haccepted.mpr hengaged)
  · rw [h.noneFreed_iff]
    constructor
    · intro hrule g hg hpre
      exact (hrule.guarantee g hg).mp ((checkGuarantee_engaged_iff (hgs g hg)).mpr hpre)
    · intro hstays
      constructor
      · intro g hg
        rw [checkGuarantee_engaged_iff (hgs g hg)]
        exact ⟨hstays g hg, h.engaged_before⟩
      · rw [RejectedAsEngaged, hrejected]
        refine exists_congr fun g => and_congr_right fun hg => ?_
        exact ⟨hstays g hg, h.engaged_before⟩

def busyState : State :=
  { changingState otherKey with
    coreAssignments := noAssignments.set 340 (some ⟨some emptyReport, 599⟩) (by decide) }

def clearingBlock : Block :=
  { guaranteeBlock with extrinsic := { guaranteeBlock.extrinsic with ed := splitDispute 1 } }

theorem guaranteeBlock_otherwiseValid :
    OtherwiseValid zeroKeyPrimitives 600 (changingState otherKey) guaranteeBlock ⟨false, .ok []⟩
      noAssignments where
  notInFuture := UInt32.le_refl 600
  guarantees := by decide +kernel
  assurances := by
    obtain ⟨safrole, hsafrole⟩ := changingState_updates otherKey
    refine ⟨⟨600, [], .replicate 32 0, []⟩, safrole,
      availabilityOf [] (calculateIntermediateCoreAssignmentsFromExtrinsics zeroKeyPrimitives
        ⟨[], [], []⟩ (.replicate totalNumberOfCores none)) 600,
      rfl, hsafrole, ?_, (intermediate_of_empty _ _).symm⟩
    rw [calculateIntermediateCoreFromAssurances_eq_ok]
    exact ⟨by simp [guaranteeBlock], rfl, fun core hcore => absurd rfl hcore, rfl⟩

theorem busyState_get (core : Core) : busyState.coreAssignments.get core =
      if core = ⟨340, by decide⟩ then some ⟨some emptyReport, 599⟩ else none := by
  have hset := get_set noAssignments ⟨340, by decide⟩ core (some ⟨some emptyReport, 599⟩)
  rw [noAssignments, get_replicate] at hset
  exact hset

theorem clearingBlock_after :
    noAssignments = (availabilityOf [] (calculateIntermediateCoreAssignmentsFromExtrinsics
      zeroKeyPrimitives (splitDispute 1) busyState.coreAssignments) 600).coreAssignments := by
  apply ext_get
  intro core
  rw [noAssignments, get_replicate, eq_comm, Option.eq_none_iff_forall_ne_some]
  intro a ha
  obtain ⟨hget, hstays⟩ := (@get_intermediate_eq_some _ _ _ _ clearingBlock).mp ha
  rw [busyState_get] at hget
  split at hget
  · cases hget
    apply hstays
    refine .inl ⟨splitVerdict 1, List.mem_singleton_self _, ?_⟩
    decide +kernel
  · cases hget

theorem clearingBlock_otherwiseValid :
    OtherwiseValid zeroKeyPrimitives 600 busyState clearingBlock ⟨false, .ok []⟩ noAssignments where
  notInFuture := UInt32.le_refl 600
  guarantees := by decide +kernel
  assurances := by
    obtain ⟨safrole, hsafrole⟩ := changingState_updates otherKey
    refine ⟨⟨600, [], .replicate 32 0, []⟩, safrole, _, rfl, hsafrole, ?_, clearingBlock_after⟩
    rw [calculateIntermediateCoreFromAssurances_eq_ok]
    exact ⟨by simp [clearingBlock, guaranteeBlock], rfl, fun core hcore => absurd rfl hcore, rfl⟩

theorem engagement_rule_on_free_core :
    OtherwiseValid zeroKeyPrimitives 600 (changingState otherKey) guaranteeBlock ⟨false, .ok []⟩
        noAssignments ∧
      EngagementRule zeroKeyPrimitives (changingState otherKey) guaranteeBlock ⟨false, .ok []⟩
        noAssignments := by
  refine ⟨guaranteeBlock_otherwiseValid, ?_⟩
  refine (engagement_rule_iff _ _ 0 sortedOrders _ _ _ _ guaranteeBlock_otherwiseValid).2.mpr ?_
  intro g hg core a hon ha
  have hnone : (changingState otherKey).coreAssignments.get core = none := get_replicate _ _
  rw [hnone] at ha
  cases ha

theorem freed_core_rejected :
    OtherwiseValid zeroKeyPrimitives 600 busyState clearingBlock ⟨false, .ok []⟩ noAssignments ∧
      (∃ j, calculateNewJudgements zeroKeyPrimitives 600 clearingBlock.extrinsic.ed
        busyState.pastJudgements busyState.validatorState = .ok j) ∧
      transition zeroKeyPrimitives 600 0 sortedOrders busyState clearingBlock ⟨false, .ok []⟩ =
        .fail (.guaranteesValidation .coreEngaged) ∧
      ¬ EngagementRule zeroKeyPrimitives busyState clearingBlock ⟨false, .ok []⟩
        noAssignments := by
  have hreject : RejectedAsEngaged zeroKeyPrimitives busyState clearingBlock ⟨false, .ok []⟩ := by
    unfold RejectedAsEngaged
    decide +kernel
  refine ⟨clearingBlock_otherwiseValid, ?_, ?_, ?_⟩
  · exact ⟨_, calculateNewJudgements_eq_ok.mpr
      ⟨splitDispute_accepted (splitVerdict_verifies_before 600), rfl⟩⟩
  · unfold transition
    dsimp only
    rw [show validateExtrinsicGuarantees zeroKeyPrimitives clearingBlock.header busyState
      clearingBlock.extrinsic.eg busyState.coreAssignments clearingBlock.header.timeSlotIndex
      ⟨false, .ok []⟩ = .error .coreEngaged from hreject]
    rfl
  · intro hrule
    obtain ⟨g, -, core, -, a, ha, -⟩ := hrule.block.mp hreject
    rw [noAssignments, get_replicate] at ha
    cases ha

end Strawberry.StateTransition
