import Strawberry.StateTransition.Epochs
import Strawberry.StateTransition.Validation

/-!
# Guarantors

`UpdateState` mixes the entropy and the validators of two epochs at an epoch change.
-/

namespace Strawberry.StateTransition

open Block State Constants Call

variable {prims : Primitives} {validators : ValidatorsData} {coreAssignments : List UInt32}
  {coreIndex : UInt16} {message : List UInt8}

def CredentialVerifies (prims : Primitives) (validators : ValidatorsData)
    (coreAssignments : List UInt32) (coreIndex : UInt16) (message : List UInt8)
    (credential : CredentialSignature) : Prop :=
  isValidatorAssignedToCore credential.validatorIndex coreIndex coreAssignments ∧
    ∃ validator, validators[credential.validatorIndex.toNat]? = some (some validator) ∧
      prims.ed25519Verify validator.ed25519 message credential.signature

theorem verifyCredentials_returns_iff {credentials : List CredentialSignature}
    {reporters : Finset Ed25519Key} :
    (∃ reporters', verifyCredentials prims validators coreAssignments coreIndex message credentials
        reporters = .ok reporters') ↔
      ∀ c ∈ credentials,
        CredentialVerifies prims validators coreAssignments coreIndex message c := by
  induction credentials generalizing reporters with
  | nil => exact iff_of_true ⟨reporters, rfl⟩ (by simp)
  | cons c credentials ih =>
    rw [List.forall_mem_cons]
    constructor
    · rintro ⟨reporters', h⟩
      obtain ⟨hassigned, h⟩ := Call.bind_unit_eq_ok.mp h
      obtain ⟨-, h⟩ := Call.bind_unit_eq_ok.mp h
      obtain ⟨key, hkey, h⟩ := Call.bind_eq_ok.mp h
      obtain ⟨hsigned, h⟩ := Call.bind_unit_eq_ok.mp h
      obtain ⟨validator, hvalidator, rfl⟩ :=
        ed25519Of_eq_ret.mp (lift_outcome_eq_ok.mp hkey)
      exact ⟨⟨Call.check_eq_ok.mp hassigned, validator, hvalidator, Call.check_eq_ok.mp hsigned⟩,
        ih.mp ⟨reporters', h⟩⟩
    · rintro ⟨⟨hassigned, validator, hvalidator, hsigned⟩, hrest⟩
      have hindex : c.validatorIndex.toNat < numberOfValidators := by
        obtain ⟨hlt, -⟩ := Vector.getElem?_eq_some_iff.mp hvalidator
        exact hlt
      obtain ⟨reporters', h⟩ := ih.mpr hrest
      refine ⟨reporters', Call.bind_unit_eq_ok.mpr ⟨Call.check_eq_ok.mpr hassigned,
        Call.bind_unit_eq_ok.mpr ⟨Call.check_eq_ok.mpr (decide_eq_true hindex),
          Call.bind_eq_ok.mpr ⟨validator.ed25519, lift_outcome_eq_ok.mpr ?_,
            Call.bind_unit_eq_ok.mpr ⟨Call.check_eq_ok.mpr hsigned, h⟩⟩⟩⟩⟩
      exact ed25519Of_eq_ret.mpr ⟨validator, hvalidator, rfl⟩

def guarantorData (validatorState : ValidatorState) (entropyPool : EntropyPool) (slot : Timeslot)
    (guarantee : Guarantee) : ValidatorsData × Hash × Timeslot :=
  determineValidatorsAndDataForPermutation guarantee.timeslot slot entropyPool
    validatorState.currentValidators validatorState.archivedValidators

variable {vs : ValidatorState} {pool : EntropyPool} {slot : Timeslot}
  {guarantee : Guarantee}

def guarantorCores (prims : Primitives) (validatorState : ValidatorState)
    (entropyPool : EntropyPool) (slot : Timeslot) (guarantee : Guarantee) : List UInt32 :=
  let data := guarantorData validatorState entropyPool slot guarantee
  permuteAssignments prims data.2.1 data.2.2

theorem vouched_iff : Vouched prims vs pool slot guarantee ↔
      ∃ reportBytes, guarantee.workReport.encodeStruct = .ok reportBytes ∧
        ∀ c ∈ guarantee.credentials,
          CredentialVerifies prims (guarantorData vs pool slot guarantee).1
            (guarantorCores prims vs pool slot guarantee)
            guarantee.workReport.coreIndex (guaranteeMessage (prims.hashData reportBytes)) c := by
  unfold Vouched verifyGuaranteeCredentials guarantorCores guarantorData
  cases guarantee.workReport.encodeStruct with
  | error e =>
    constructor
    · rintro ⟨reporters, h⟩
      cases h
    · rintro ⟨reportBytes, h, -⟩
      cases h
  | ok reportBytes =>
    constructor
    · intro h
      exact ⟨reportBytes, rfl, verifyCredentials_returns_iff.mp h⟩
    · rintro ⟨reportBytes', hbytes, h⟩
      cases hbytes
      exact verifyCredentials_returns_iff.mpr h

structure TwoGuarantors (prims : Primitives) (validatorState : ValidatorState)
    (entropyPool : EntropyPool) (slot : Timeslot) (guarantee : Guarantee) (core : Core) :
    Prop where
  two : 2 ≤ guarantee.credentials.length
  distinct : (guarantee.credentials.map (·.validatorIndex)).Nodup
  assigned : ∀ c ∈ guarantee.credentials,
    (guarantorCores prims validatorState entropyPool slot guarantee)[c.validatorIndex.toNat]? =
      some (UInt32.ofNat core.val)
  signed : ∃ reportBytes, guarantee.workReport.encodeStruct = .ok reportBytes ∧
    ∀ c ∈ guarantee.credentials, ∃ validator,
      (guarantorData validatorState entropyPool slot guarantee).1[c.validatorIndex.toNat]? =
          some (some validator) ∧
        prims.ed25519Verify validator.ed25519
          (guaranteeMessage (prims.hashData reportBytes)) c.signature

/-- Two or three assigned validators have signed every new report. -/
theorem two_guarantor_rule (prims : Primitives) (header : Header) (s : State)
    (guarantees : List Guarantee) (table intermediateAssignments : CoreAssignments)
    (slot : Timeslot) (chain : Chain) (vs : ValidatorState) (pool : EntropyPool)
    (reported : Reported)
    (hvalidate : validateExtrinsicGuarantees prims header s guarantees table slot chain = .ok ())
    (hassign : calculateNewCoreAssignments prims guarantees intermediateAssignments vs
      slot pool = .ok reported) (core : Core)
    (hreplaced : reported.newAssignments.get core ≠ intermediateAssignments.get core) :
    ∃ g ∈ guarantees, GuaranteedOn g core ∧
      reported.newAssignments.get core = some ⟨some g.workReport, slot⟩ ∧
      TwoGuarantors prims vs pool slot g core := by
  have hvalid := validated_of_ok hvalidate
  rcases assignGuarantees_get hassign core with ⟨g, hg, hon, hvouched, hget⟩ | ⟨-, hget⟩
  · refine ⟨g, hg, hon, hget, ?_⟩
    have hcreds := hvalid.credentials g hg
    simp only [checkCredentials, bind_unit_eq_ok, check_eq_ok, decide_eq_true_eq] at hcreds
    obtain ⟨-, hsorted, htwo, -⟩ := hcreds
    obtain ⟨reportBytes, hbytes, hverifies⟩ := vouched_iff.mp hvouched
    refine ⟨htwo, ?_, ?_, reportBytes, hbytes, fun c hc => (hverifies c hc).2⟩
    · have hpairwise := List.isChain_iff_pairwise.mp hsorted
      refine List.pairwise_map.mpr (hpairwise.imp fun hlt heq => ?_)
      rw [heq] at hlt
      exact absurd hlt (UInt16.lt_irrefl _)
    · intro c hc
      have hassigned := (hverifies c hc).1
      rw [isValidatorAssignedToCore, decide_eq_true_eq] at hassigned
      rw [hassigned, Option.some.injEq, ← UInt32.toNat_inj, UInt16.toNat_toUInt32, hon,
        UInt32.toNat_ofNat', Nat.mod_eq_of_lt]
      exact core.isLt.trans (by decide)
  · exact absurd hget hreplaced

theorem two_guarantors_of_openState : ∃ reported : Reported,
      Passes 600 openState (guaranteeOf emptyReport) [] ∧
      calculateNewCoreAssignments accepting [guaranteeOf emptyReport]
        openState.coreAssignments openState.validatorState 600 openState.entropyPool =
          .ok reported ∧
      ∃ g ∈ [guaranteeOf emptyReport], GuaranteedOn g ⟨340, by decide⟩ ∧
        reported.newAssignments.get ⟨340, by decide⟩ = some ⟨some g.workReport, 600⟩ ∧
        TwoGuarantors accepting openState.validatorState openState.entropyPool 600 g
          ⟨340, by decide⟩ := by
  have hassign : (fun r : Reported => r.newAssignments.get ⟨340, by decide⟩) <$>
      calculateNewCoreAssignments accepting [guaranteeOf emptyReport]
        openState.coreAssignments openState.validatorState 600 openState.entropyPool =
      .ok (some ⟨some (guaranteeOf emptyReport).workReport, 600⟩) := by
    decide +kernel
  obtain ⟨reported, hreported, hget⟩ := map_eq_ok.mp hassign
  refine ⟨reported, validate_openState, hreported,
    two_guarantor_rule _ _ _ _ _ _ _ _ _ _ _ validate_openState hreported _ ?_⟩
  have hnone : openState.coreAssignments.get ⟨340, by decide⟩ = none := get_replicate _ _
  rw [hget, hnone]
  exact Option.some_ne_none _

def RotationInEpoch (guarantee : Guarantee) (slot : Timeslot) : Prop :=
  toEpoch (guarantee.timeslot / validatorRotationPeriod * validatorRotationPeriod) = toEpoch slot

instance (guarantee : Guarantee) (slot : Timeslot) : Decidable (RotationInEpoch guarantee slot) :=
  inferInstanceAs (Decidable (_ = _))

def guarantorsOfRotation (newState : State) (guarantee : Guarantee) : ValidatorsData × Hash :=
  if RotationInEpoch guarantee newState.timeslotIndex then
    (newState.validatorState.currentValidators, newState.entropyPool.get 2)
  else (newState.validatorState.archivedValidators, newState.entropyPool.get 3)

def guarantorsUsed (s newState : State) (guarantee : Guarantee) : ValidatorsData × Hash :=
  let data := guarantorData s.validatorState newState.entropyPool newState.timeslotIndex guarantee
  (data.1, data.2.1)

def SetsStay (s : State) (newBlock : Block) : Prop :=
  toEpoch s.timeslotIndex = toEpoch newBlock.header.timeSlotIndex ∨ ∀ g ∈ newBlock.extrinsic.eg,
      if RotationInEpoch g newBlock.header.timeSlotIndex then
        s.validatorState.currentValidators = s.validatorState.safroleState.nextValidators
      else s.validatorState.archivedValidators = s.validatorState.currentValidators

theorem toEpoch_toNat (slot : Timeslot) : (toEpoch slot).toNat = slot.toNat / 600 :=
  UInt32.toNat_div _ _

theorem rotation_toNat (slot : Timeslot) :
    (slot / validatorRotationPeriod).toNat = slot.toNat / 10 :=
  UInt32.toNat_div _ _

theorem rotationInEpoch_iff : RotationInEpoch guarantee slot ↔
      guarantee.timeslot.toNat / 10 * 10 / 600 = slot.toNat / 600 := by
  have hlt := guarantee.timeslot.toNat_lt
  have hperiod : validatorRotationPeriod.toNat = 10 := rfl
  rw [RotationInEpoch, ← UInt32.toNat_inj, toEpoch_toNat, toEpoch_toNat, UInt32.toNat_mul,
    rotation_toNat, hperiod, Nat.mod_eq_of_lt (by omega)]

theorem guarantorData_eq (hle : guarantee.timeslot ≤ slot)
    (hage : slot / validatorRotationPeriod - guarantee.timeslot / validatorRotationPeriod ≤ 1) :
    ((guarantorData vs pool slot guarantee).1, (guarantorData vs pool slot guarantee).2.1) =
      if RotationInEpoch guarantee slot then
        (vs.currentValidators, pool.get 2)
      else (vs.archivedValidators, pool.get 3) := by
  rw [UInt32.le_iff_toNat_le] at hle
  rw [UInt32.le_iff_toNat_le, UInt32.toNat_sub, rotation_toNat, rotation_toNat] at hage
  have hslot := slot.toNat_lt
  have hone : (1 : UInt32).toNat = 1 := rfl
  unfold guarantorData determineValidatorsAndDataForPermutation
  by_cases hrotation : guarantee.timeslot / validatorRotationPeriod = slot / validatorRotationPeriod
  · have hsame := congrArg UInt32.toNat hrotation
    rw [rotation_toNat, rotation_toNat] at hsame
    rw [if_pos hrotation, if_pos (rotationInEpoch_iff.mpr (by omega))]
  · have hne : guarantee.timeslot.toNat / 10 ≠ slot.toNat / 10 := by
      intro heq
      apply hrotation
      rw [← UInt32.toNat_inj, rotation_toNat, rotation_toNat, heq]
    have hprevious : (slot - validatorRotationPeriod).toNat = slot.toNat - 10 := by
      rw [UInt32.toNat_sub_of_le]
      · rfl
      · rw [UInt32.le_iff_toNat_le]
        change 10 ≤ _
        omega
    rw [if_neg hrotation]
    by_cases hepoch : toEpoch slot = toEpoch (slot - validatorRotationPeriod)
    · have hsame := congrArg UInt32.toNat hepoch
      rw [toEpoch_toNat, toEpoch_toNat, hprevious] at hsame
      rw [if_pos hepoch, if_pos (rotationInEpoch_iff.mpr (by omega))]
    · rw [if_neg hepoch, if_neg]
      intro hin
      apply hepoch
      rw [rotationInEpoch_iff] at hin
      rw [← UInt32.toNat_inj, toEpoch_toNat, toEpoch_toNat, hprevious]
      omega

variable {now : Timeslot} {fuel : Nat} {orders : Orders} {s : State} {newBlock : Block}
  {chain : Chain} {t : Transition}

theorem vouched_of_transition (h : transition prims now fuel orders s newBlock chain = .ok t) :
    ∀ g ∈ newBlock.extrinsic.eg,
      Vouched prims s.validatorState t.newState.entropyPool t.newState.timeslotIndex g := by
  obtain ⟨st⟩ := (transition_eq_ok prims now fuel orders).mp h
  obtain ⟨-, -, -, havailability⟩ :=
    calculateIntermediateCoreFromAssurances_eq_ok.mp st.availability_eq
  intro g hg
  obtain ⟨core, hon, hvalid⟩ := validateExtrinsicGuarantees_core st.guaranteesValid g hg
  rw [st.newState_eq]
  apply assignGuarantees_vouched st.reported_eq g hg core hon
  refine isAssignmentValid_of_left ?_ hvalid
  intro a ha
  rw [havailability] at ha
  exact (get_intermediate_eq_some.mp ha).1

theorem guarantorsUsed_eq (h : transition prims now fuel orders s newBlock chain = .ok t)
    {g : Guarantee} (hg : g ∈ newBlock.extrinsic.eg) :
    guarantorsUsed s t.newState g =
      if RotationInEpoch g t.newState.timeslotIndex then
        (s.validatorState.currentValidators, t.newState.entropyPool.get 2)
      else (s.validatorState.archivedValidators, t.newState.entropyPool.get 3) := by
  obtain ⟨st⟩ := (transition_eq_ok prims now fuel orders).mp h
  have hcreds := (validated_of_ok st.guaranteesValid).credentials g hg
  simp only [checkCredentials, verifyGuaranteeAge, bind_unit_eq_ok, check_eq_ok,
    decide_eq_true_eq] at hcreds
  obtain ⟨-, -, -, hle, hage⟩ := hcreds
  unfold guarantorsUsed
  rw [(transition_sets h).1]
  exact guarantorData_eq hle hage

/-- When validators and permutation are those of one epoch. -/
theorem guarantor_set_iff (prims : Primitives) (now : Timeslot) (fuel : Nat) (orders : Orders)
    (s : State) (newBlock : Block) (chain : Chain) (t : Transition)
    (h : transition prims now fuel orders s newBlock chain = .ok t) :
    (∀ g ∈ newBlock.extrinsic.eg,
        Vouched prims s.validatorState t.newState.entropyPool t.newState.timeslotIndex g) ∧
      ((∀ g ∈ newBlock.extrinsic.eg,
          guarantorsUsed s t.newState g = guarantorsOfRotation t.newState g) ↔
        SetsStay s newBlock) := by
  refine ⟨vouched_of_transition h, ?_⟩
  obtain ⟨htime, hsets⟩ := transition_sets h
  unfold SetsStay
  rw [htime] at hsets
  rcases hsets with ⟨hlt, hcur, harchived⟩ | ⟨heq, hcur, harchived⟩
  · have hne : toEpoch s.timeslotIndex ≠ toEpoch newBlock.header.timeSlotIndex :=
      UInt32.ne_of_lt hlt
    rw [or_iff_right hne]
    refine forall₂_congr fun g hg => ?_
    rw [guarantorsUsed_eq h hg, guarantorsOfRotation, htime]
    by_cases hin : RotationInEpoch g newBlock.header.timeSlotIndex
    · rw [if_pos hin, if_pos hin, if_pos hin, Prod.mk.injEq, and_iff_left rfl, hcur]
    · rw [if_neg hin, if_neg hin, if_neg hin, Prod.mk.injEq, and_iff_left rfl, harchived]
  · refine iff_of_true ?_ (.inl heq)
    intro g hg
    rw [guarantorsUsed_eq h hg, guarantorsOfRotation, hcur, harchived]

def changingState (next : ValidatorKey) : State :=
  { openState with
    validatorState := { zeroValidatorState with
      safroleState := { zeroValidatorState.safroleState with
        nextValidators := .replicate numberOfValidators (some next) } } }

def guaranteeBlock : Block where
  header := headerOf 600
  extrinsic := ⟨[], [], [guaranteeOf emptyReport], [], ⟨[], [], []⟩⟩

theorem changingState_updates (next : ValidatorKey) :
    ∃ safrole, updateSafroleState zeroKeyPrimitives ⟨600, [], .replicate 32 0, []⟩ 0
      openState.entropyPool (changingState next).validatorState = .ok safrole := by
  exact updateSafroleState_returns_of_no_tickets ⟨allPresent_replicate .zero,
    allPresent_replicate next, fun _ => rfl, fun _ => rfl⟩ (by decide) rfl

theorem guaranteeBlock_accepted {next : ValidatorKey}
    (hvalid : validateExtrinsicGuarantees zeroKeyPrimitives (headerOf 600) (changingState next)
      [guaranteeOf emptyReport] openState.coreAssignments 600 ⟨false, .ok []⟩ = .ok ())
    (hassign : (do
        let r ← calculateNewCoreAssignments zeroKeyPrimitives [guaranteeOf emptyReport]
          openState.coreAssignments (changingState next).validatorState 600
          (calculateNewEntropyPool zeroKeyPrimitives 0 600 (.replicate 32 0) openState.entropyPool)
        getAvailableWorkReports r.newAssignments) =
      (.ok [(guaranteeOf emptyReport).workReport] : Call TransitionError _))
    (haccumulation : (calculateWorkReportsAndAccumulate zeroKeyPrimitives.hashData 0 sortedOrders
      (headerOf 600) (changingState next) 600 [(guaranteeOf emptyReport).workReport]).Returns) :
    ∃ t, transition zeroKeyPrimitives 600 0 sortedOrders (changingState next) guaranteeBlock
      ⟨false, .ok []⟩ = .ok t := by
  obtain ⟨accumulation, haccumulation⟩ := haccumulation
  obtain ⟨reported, hreported, hreports⟩ := Call.bind_eq_ok.mp hassign
  obtain ⟨safrole, hsafrole⟩ := changingState_updates next
  refine ⟨⟨_, [(guaranteeOf emptyReport).workReport]⟩, (transition_eq_ok _ _ _ _).mpr ⟨{
    safroleInput := ⟨600, [], .replicate 32 0, []⟩
    safrole
    availability := availabilityOf [] (calculateIntermediateCoreAssignmentsFromExtrinsics
      zeroKeyPrimitives ⟨[], [], []⟩ (.replicate totalNumberOfCores none)) 600
    reported
    accumulation
    judgements := ⟨[], [], [], []⟩
    notInFuture := UInt32.le_refl 600
    guaranteesValid := hvalid
    safroleInput_eq := rfl
    safrole_eq := hsafrole
    availability_eq := ?_
    reported_eq := ?_
    workReports_eq := lift_outcome_eq_ok.mp hreports
    accumulation_eq := haccumulation
    judgements_eq := rfl
    newState_eq := rfl }⟩⟩
  · rw [calculateIntermediateCoreFromAssurances_eq_ok]
    exact ⟨by simp [guaranteeBlock], rfl, fun core hcore => absurd rfl hcore, rfl⟩
  · rw [intermediate_of_empty, updateSafroleState_entropyPool hsafrole]
    exact hreported

theorem guarantor_set_when_sets_stay :
    ∃ t, transition zeroKeyPrimitives 600 0 sortedOrders (changingState .zero) guaranteeBlock
        ⟨false, .ok []⟩ = .ok t ∧
      guarantorsUsed (changingState .zero) t.newState (guaranteeOf emptyReport) =
        guarantorsOfRotation t.newState (guaranteeOf emptyReport) := by
  obtain ⟨t, ht⟩ := @guaranteeBlock_accepted .zero (by decide +kernel) (by decide +kernel)
    (by decide +kernel)
  refine ⟨t, ht, ?_⟩
  have hlaw := (guarantor_set_iff _ _ _ _ _ _ _ _ ht).2.mpr ?_
  · exact hlaw _ (List.mem_singleton_self _)
  · refine .inr (List.forall_mem_singleton.mpr ?_)
    rfl

theorem guarantors_of_old_epoch_accepted :
    ∃ t, transition zeroKeyPrimitives 600 0 sortedOrders (changingState otherKey) guaranteeBlock
        ⟨false, .ok []⟩ = .ok t ∧
      (guarantorsUsed (changingState otherKey) t.newState (guaranteeOf emptyReport)).1 =
        zeroValidators ∧
      (guarantorsOfRotation t.newState (guaranteeOf emptyReport)).1 =
        .replicate numberOfValidators (some otherKey) ∧
      guarantorsUsed (changingState otherKey) t.newState (guaranteeOf emptyReport) ≠
        guarantorsOfRotation t.newState (guaranteeOf emptyReport) := by
  obtain ⟨t, ht⟩ := @guaranteeBlock_accepted otherKey (by decide +kernel)
    (by decide +kernel) (by decide +kernel)
  obtain ⟨htime, hsets⟩ := transition_sets ht
  have hin : RotationInEpoch (guaranteeOf emptyReport) t.newState.timeslotIndex := by
    rw [htime]
    decide
  have hused : (guarantorsUsed (changingState otherKey) t.newState (guaranteeOf emptyReport)).1 =
      zeroValidators := by
    rw [guarantorsUsed_eq ht (List.mem_singleton_self _), if_pos hin]
    rfl
  have hright : (guarantorsOfRotation t.newState (guaranteeOf emptyReport)).1 =
      .replicate numberOfValidators (some otherKey) := by
    rw [guarantorsOfRotation, if_pos hin]
    rcases hsets with ⟨-, hcur, -⟩ | ⟨hsame, -⟩
    · exact hcur
    · rw [htime] at hsame
      exact absurd hsame (by decide)
  refine ⟨t, ht, hused, hright, ?_⟩
  intro heq
  rw [heq, hright] at hused
  have hfirst := congrArg (Vector.get · ⟨0, by decide⟩) hused
  exact absurd hfirst (by decide)

def InWindow (newTimeslot timeslot : Timeslot) : Prop :=
  validatorRotationPeriod.toNat *
      ((newTimeslot.toNat / validatorRotationPeriod.toNat : Int) - 1) ≤ timeslot.toNat ∧
    timeslot ≤ newTimeslot

theorem verifyGuaranteeAge_iff {newTimeslot : Timeslot} :
    verifyGuaranteeAge guarantee newTimeslot = .ok () ↔
      InWindow newTimeslot guarantee.timeslot := by
  have hone : (1 : UInt32).toNat = 1 := rfl
  have hperiod : validatorRotationPeriod.toNat = 10 := rfl
  have hlt := newTimeslot.toNat_lt
  simp only [verifyGuaranteeAge, bind_unit_eq_ok, check_eq_ok, decide_eq_true_eq, InWindow,
    UInt32.le_iff_toNat_le, UInt32.toNat_sub, rotation_toNat, hone, hperiod]
  omega

theorem range_iff {newTimeslot timeslot : Timeslot} :
    (newTimeslot / validatorRotationPeriod - 1) * validatorRotationPeriod ≤ timeslot ∧
        timeslot ≤ newTimeslot ↔
      InWindow newTimeslot timeslot ∧ validatorRotationPeriod ≤ newTimeslot := by
  have hone : (1 : UInt32).toNat = 1 := rfl
  have hperiod : validatorRotationPeriod.toNat = 10 := rfl
  have hlt := newTimeslot.toNat_lt
  simp only [InWindow, UInt32.le_iff_toNat_le, UInt32.toNat_mul, UInt32.toNat_sub, rotation_toNat,
    hone, hperiod]
  omega

variable {newTimeslot : Timeslot}

theorem verifyCredentials_ne_outOfRange {assigned : List UInt32} {credentials : List CredentialSignature}
    {reporters : Finset Ed25519Key} :
    verifyCredentials prims validators assigned coreIndex message credentials reporters ≠
      .fail .timeslotOutOfRange := by
  induction credentials generalizing reporters with
  | nil => exact nofun
  | cons credential credentials ih =>
    refine check_bind_ne_fail nofun fun _ => check_bind_ne_fail nofun fun _ => ?_
    unfold ed25519Of
    split
    · exact nofun
    · exact nofun
    · exact check_bind_ne_fail nofun fun _ => ih

theorem verifyGuaranteeCredentials_ne_outOfRange :
    verifyGuaranteeCredentials prims guarantee vs pool newTimeslot ≠
      .fail .timeslotOutOfRange := by
  unfold verifyGuaranteeCredentials
  cases guarantee.workReport.encodeStruct with
  | error e => exact nofun
  | ok bytes => exact verifyCredentials_ne_outOfRange

theorem assignGuarantee_outOfRange_iff {table : CoreAssignments} {r : Reported} :
    assignGuarantee prims table vs newTimeslot pool r guarantee =
        .fail .timeslotOutOfRange ↔
      ¬ (InWindow newTimeslot guarantee.timeslot ∧ validatorRotationPeriod ≤ newTimeslot) := by
  rw [← range_iff]
  constructor
  · intro hfail hrange
    have hcheck := (Call.check_eq_ok (e := TransitionError.timeslotOutOfRange) (u := ())).mpr
      (decide_eq_true hrange)
    rw [assignGuarantee, bind_of_ok hcheck] at hfail
    dsimp only at hfail
    split at hfail
    · split at hfail
      · cases hcreds : verifyGuaranteeCredentials prims guarantee vs pool newTimeslot with
        | ret result =>
          rw [hcreds] at hfail
          cases result with
          | error e =>
            cases hfail
            exact verifyGuaranteeCredentials_ne_outOfRange hcreds
          | ok reporters => cases hfail
        | crash | hang =>
          rw [hcreds] at hfail
          cases hfail
      · cases hfail
    · cases hfail
  · intro hrange
    rw [assignGuarantee, decide_eq_false hrange]
    rfl

/-- When a guarantee is in the time window. -/
theorem guarantee_window_iff (prims : Primitives) (table : CoreAssignments)
    (vs : ValidatorState) (newTimeslot : Timeslot) (pool : EntropyPool)
    (r : Reported) (guarantee : Guarantee) :
    (verifyGuaranteeAge guarantee newTimeslot = .ok () ↔ InWindow newTimeslot guarantee.timeslot) ∧
      ((assignGuarantee prims table vs newTimeslot pool r guarantee ≠
          .fail .timeslotOutOfRange ↔ InWindow newTimeslot guarantee.timeslot) ↔
        validatorRotationPeriod ≤ newTimeslot ∨ newTimeslot < guarantee.timeslot) := by
  refine ⟨verifyGuaranteeAge_iff, ?_⟩
  rw [ne_eq, assignGuarantee_outOfRange_iff, not_not, and_iff_left_iff_imp]
  constructor
  · intro h
    by_contra hnot
    obtain ⟨hfirst, hpast⟩ := not_or.mp hnot
    rw [UInt32.not_lt] at hpast
    refine hfirst (h ⟨?_, hpast⟩)
    rw [UInt32.not_le, UInt32.lt_iff_toNat_lt] at hfirst
    have hperiod : validatorRotationPeriod.toNat = 10 := rfl
    rw [hperiod] at hfirst ⊢
    omega
  · rintro (hlater | hfuture) hin
    · exact hlater
    · exact absurd hin.2 (UInt32.not_le.mpr hfuture)

theorem first_rotation_out_of_range : ∃ guarantee : Guarantee, InWindow 5 guarantee.timeslot ∧
      verifyGuaranteeAge guarantee 5 = .ok () ∧
      assignGuarantee accepting (.replicate totalNumberOfCores none) zeroValidatorState 5
          (.replicate _ (.replicate 32 0)) ⟨.replicate totalNumberOfCores none, ∅⟩ guarantee =
        .fail .timeslotOutOfRange := by
  have hage : verifyGuaranteeAge { guaranteeOf emptyReport with timeslot := 5 } 5 = .ok () := rfl
  refine ⟨_, verifyGuaranteeAge_iff.mp hage, hage, assignGuarantee_outOfRange_iff.mpr ?_⟩
  rintro ⟨-, hlater⟩
  exact absurd hlater (by decide)

end Strawberry.StateTransition
