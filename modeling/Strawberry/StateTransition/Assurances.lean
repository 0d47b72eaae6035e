import Mathlib.Data.List.Chain
import Strawberry.Lib.Checks
import Strawberry.State.State
import Strawberry.StateTransition.Errors

/-!
# Assurances of availability

The loop counts entries, not validators: the order check lets two of one validator pass.
-/

namespace Strawberry.StateTransition

open Block State Constants List

section

variable (prims : Primitives)

def assuranceMessage (parentHash : Hash) (assurance : Assurance) : List UInt8 :=
  ascii "jam_available" ++ (prims.hashData (parentHash.toList ++ assurance.bitfield.toList)).toList

def validateAssurance (validators : ValidatorsData) (parentHash : Hash) (assurance : Assurance) :
    Except TransitionError Unit :=
  match validators[assurance.validatorIndex.toNat]? with
  | none | some none => .error .badValidatorIndex
  | some (some key) => do
    check (assurance.anchor = parentHash) .badAttestationParent
    check (prims.ed25519Verify key.ed25519 (assuranceMessage prims parentHash assurance)
      assurance.signature) .badSignature

def validateAssurancesSignature (validators : ValidatorsData) (header : Header)
    (assurances : List Assurance) : Except TransitionError Unit :=
  assurances.forM (validateAssurance prims validators header.parentHash)

def assuranceIsOrderedByValidatorIndex (assurances : List Assurance) : Bool :=
  assurances.IsChain fun a b => a.validatorIndex ≤ b.validatorIndex

def isAssignmentStale (currentAssignment : Option Assignment) (newTimeslot : Timeslot) : Bool :=
  match currentAssignment with
  | none => false
  | some assignment => assignment.time + workReportTimeoutPeriod ≤ newTimeslot

def countAssurances (assignment : Option Assignment) (timeslot : Timeslot) (core : Core) :
    List Assurance → Nat → Except TransitionError Nat
  | [], count => .ok count
  | assurance :: xs, count =>
    if hasAssuranceForCore assurance core then do
      check assignment.isSome .coreNotEngaged
      check (!isAssignmentStale assignment timeslot) .reportTimeout
      countAssurances assignment timeslot core xs (count + 1)
    else countAssurances assignment timeslot core xs count

def availabilityCounts (assurances : List Assurance) (assignments : CoreAssignments)
    (timeslot : Timeslot) : List Core → Except TransitionError (List (Core × Nat))
  | [] => .ok []
  | core :: cores => do
    let count ← countAssurances (assignments.get core) timeslot core assurances 0
    let counts ← availabilityCounts assurances assignments timeslot cores
    return (core, count) :: counts

def assignmentAfter (assignment : Option Assignment) (timeslot : Timeslot) (count : Nat) :
    Option Assignment :=
  if availabilityThreshold < count then none
  else if isAssignmentStale assignment timeslot then none
  else assignment

structure Availability where
  coreAssignments : CoreAssignments
  removedReports : List (Option WorkReport)

def calculateIntermediateCoreAssignmentsFromAvailability (assurances : List Assurance)
    (coreAssignments : CoreAssignments) (header : Header) :
    Except TransitionError Availability := do
  let counts ← availabilityCounts assurances coreAssignments header.timeSlotIndex allCores
  return {
    coreAssignments := Vector.ofFn fun core =>
      assignmentAfter (coreAssignments.get core) header.timeSlotIndex ((counts.lookup core).getD 0)
    removedReports := (counts.filter fun c => availabilityThreshold < c.2).map fun c =>
      reportOn coreAssignments c.1 }

def calculateIntermediateCoreFromAssurances (validators : ValidatorsData)
    (assignments : CoreAssignments) (header : Header) (assurances : List Assurance) :
    Except TransitionError Availability := do
  validateAssurancesSignature prims validators header assurances
  check (assuranceIsOrderedByValidatorIndex assurances) .badOrder
  calculateIntermediateCoreAssignmentsFromAvailability assurances assignments header

end

section

variable {xs : List Assurance} {table : CoreAssignments} {timeslot : Timeslot}
  {core : Core} {cores : List Core}

def entriesFor (assurances : List Assurance) (core : Core) : List Assurance :=
  assurances.filter (hasAssuranceForCore · core)

def assurers (assurances : List Assurance) (core : Core) : Finset UInt16 :=
  ((entriesFor assurances core).map (·.validatorIndex)).toFinset

def Assurable (assignment : Option Assignment) (timeslot : Timeslot) : Prop :=
  assignment.isSome ∧ isAssignmentStale assignment timeslot = false

theorem entriesFor_cons {a : Assurance} : entriesFor (a :: xs) core =
      if hasAssuranceForCore a core then a :: entriesFor xs core
      else entriesFor xs core :=
  filter_cons

theorem countAssurances_eq_ok {assignment : Option Assignment} {k n : Nat} :
    countAssurances assignment timeslot core xs k = .ok n ↔
      (entriesFor xs core ≠ [] → Assurable assignment timeslot) ∧
        n = k + (entriesFor xs core).length := by
  induction xs generalizing k with
  | nil => simp [countAssurances, entriesFor, eq_comm]
  | cons a xs ih =>
    rw [countAssurances, entriesFor_cons]
    split
    · -- an entry that sets the bit makes the two checks
      rw [length_cons, bind_unit_eq_ok, bind_unit_eq_ok, check_eq_ok, check_eq_ok, ih]
      constructor
      · rintro ⟨hsome, hstale, -, rfl⟩
        exact ⟨fun _ => ⟨hsome, by simpa using hstale⟩, by omega⟩
      · rintro ⟨hchecks, rfl⟩
        obtain ⟨hsome, hstale⟩ := hchecks (by simp)
        exact ⟨hsome, by simpa using hstale, fun _ => ⟨hsome, hstale⟩, by omega⟩
    · exact ih

theorem availabilityCounts_eq_ok {counts : List (Core × Nat)} :
    availabilityCounts xs table timeslot cores = .ok counts ↔
      (∀ core ∈ cores, entriesFor xs core ≠ [] → Assurable (table.get core) timeslot) ∧
        counts = cores.map fun core => (core, (entriesFor xs core).length) := by
  induction cores generalizing counts with
  | nil =>
    rw [availabilityCounts, Except.ok.injEq, map_nil, and_iff_right (by simp)]
    exact eq_comm
  | cons core cores ih =>
    rw [availabilityCounts, bind_eq_ok, forall_mem_cons, map_cons]
    simp only [countAssurances_eq_ok, bind_eq_ok, ih, Nat.zero_add, pure, Except.pure,
      Except.ok.injEq]
    constructor
    · rintro ⟨n, ⟨hcore, rfl⟩, counts, ⟨hcores, rfl⟩, rfl⟩
      exact ⟨⟨hcore, hcores⟩, rfl⟩
    · rintro ⟨⟨hcore, hcores⟩, rfl⟩
      exact ⟨_, ⟨hcore, rfl⟩, _, ⟨hcores, rfl⟩, rfl⟩

theorem mem_allCores (core : Core) : core ∈ allCores := mem_finRange core

theorem lookup_map_self {f : Core → Nat} (h : core ∈ cores) :
    (cores.map fun core => (core, f core)).lookup core = some (f core) := by
  induction cores with
  | nil => cases h
  | cons c cores ih =>
    rw [map_cons, lookup_cons]
    by_cases hc : core = c
    · subst hc
      simp
    · rw [beq_false_of_ne hc]
      exact ih ((mem_cons.mp h).resolve_left hc)

def availabilityOf (assurances : List Assurance) (table : CoreAssignments) (timeslot : Timeslot) :
    Availability where
  coreAssignments := Vector.ofFn fun core =>
    assignmentAfter (table.get core) timeslot (entriesFor assurances core).length
  removedReports :=
    (allCores.filter fun core => availabilityThreshold < (entriesFor assurances core).length).map
      (reportOn table)

theorem calculateIntermediateCoreAssignmentsFromAvailability_eq_ok {header : Header}
    {r : Availability} :
    calculateIntermediateCoreAssignmentsFromAvailability xs table header = .ok r ↔
      (∀ core, entriesFor xs core ≠ [] → Assurable (table.get core) header.timeSlotIndex) ∧
        r = availabilityOf xs table header.timeSlotIndex := by
  unfold calculateIntermediateCoreAssignmentsFromAvailability
  simp only [bind_eq_ok, availabilityCounts_eq_ok, mem_allCores, forall_const, pure, Except.pure,
    Except.ok.injEq]
  have hr : ({
      coreAssignments := Vector.ofFn fun core =>
        assignmentAfter (table.get core) header.timeSlotIndex
          (((allCores.map fun core => (core, (entriesFor xs core).length)).lookup core).getD 0)
      removedReports :=
        ((allCores.map fun core => (core, (entriesFor xs core).length)).filter
          fun c => availabilityThreshold < c.2).map fun c => reportOn table c.1 } : Availability) =
      availabilityOf xs table header.timeSlotIndex := by
    simp only [lookup_map_self (mem_allCores _), Option.getD_some, filter_map, map_map]
    rfl
  constructor
  · rintro ⟨_, ⟨hchecks, rfl⟩, rfl⟩
    exact ⟨hchecks, hr⟩
  · rintro ⟨hchecks, rfl⟩
    exact ⟨_, ⟨hchecks, rfl⟩, hr⟩

theorem calculateIntermediateCoreFromAssurances_eq_ok {prims : Primitives}
    {validators : ValidatorsData} {header : Header} {r : Availability} :
    calculateIntermediateCoreFromAssurances prims validators table header xs = .ok r ↔
      (∀ a ∈ xs, validateAssurance prims validators header.parentHash a = .ok ()) ∧
        assuranceIsOrderedByValidatorIndex xs ∧
        (∀ core, entriesFor xs core ≠ [] → Assurable (table.get core) header.timeSlotIndex) ∧
        r = availabilityOf xs table header.timeSlotIndex := by
  rw [calculateIntermediateCoreFromAssurances, bind_unit_eq_ok, validateAssurancesSignature,
    forM_eq_ok, bind_unit_eq_ok, check_eq_ok,
    calculateIntermediateCoreAssignmentsFromAvailability_eq_ok]

def SetsNoBitTwice (assurances : List Assurance) : Prop :=
  assurances.Pairwise fun a b => a.validatorIndex = b.validatorIndex →
    ∀ core, ¬ (hasAssuranceForCore a core ∧ hasAssuranceForCore b core)

theorem pairwise_forall {α ι : Type} {R : ι → α → α → Prop} {l : List α} :
    l.Pairwise (fun a b => ∀ i, R i a b) ↔ ∀ i, l.Pairwise (R i) := by
  induction l with
  | nil => simp
  | cons a l ih =>
    simp only [pairwise_cons, ih, forall_and]
    exact and_congr_left fun _ => ⟨fun h i b hb => h b hb i, fun h b hb i => h i b hb⟩

theorem length_entriesFor_eq_card_iff : (entriesFor xs core).length = (assurers xs core).card ↔
      xs.Pairwise fun a b => hasAssuranceForCore a core → hasAssuranceForCore b core →
        a.validatorIndex ≠ b.validatorIndex := by
  have hcard := Multiset.toFinset_card_eq_card_iff_nodup
    (m := (((entriesFor xs core).map (·.validatorIndex) : List UInt16) : Multiset UInt16))
  rw [Multiset.coe_card, length_map, Multiset.coe_nodup, List.Nodup, pairwise_map] at hcard
  rw [← pairwise_filter, eq_comm]
  exact hcard

theorem setsNoBitTwice_iff : SetsNoBitTwice xs ↔
      ∀ core, (entriesFor xs core).length = (assurers xs core).card := by
  simp only [length_entriesFor_eq_card_iff, ← pairwise_forall]
  refine List.Pairwise.iff fun a b => ?_
  constructor
  · intro h core ha hb heq
    exact h heq core ⟨ha, hb⟩
  · intro h heq core hab
    exact h core hab.1 hab.2 heq

end

structure CountsValidators (assurances : List Assurance) (table : CoreAssignments)
    (timeslot : Timeslot) (r : Availability) : Prop where
  counted : ∀ core, countAssurances (table.get core) timeslot core assurances 0 =
    .ok (assurers assurances core).card
  available : r.removedReports =
    (allCores.filter fun core => availabilityThreshold < (assurers assurances core).card).map
      (reportOn table)

/-- When the counts of assurances are counts of validators. -/
theorem assurances_count_validators_iff (prims : Primitives) (validators : ValidatorsData)
    (table : CoreAssignments) (header : Header) (xs : List Assurance) (r : Availability)
    (h : calculateIntermediateCoreFromAssurances prims validators table header xs = .ok r) :
    CountsValidators xs table header.timeSlotIndex r ↔ SetsNoBitTwice xs := by
  obtain ⟨-, -, hchecks, rfl⟩ := calculateIntermediateCoreFromAssurances_eq_ok.mp h
  rw [setsNoBitTwice_iff]
  constructor
  · intro hcounts core
    obtain ⟨-, hlen⟩ := countAssurances_eq_ok.mp (hcounts.counted core)
    omega
  · intro hlen
    constructor
    · intro core
      rw [countAssurances_eq_ok]
      exact ⟨hchecks core, by rw [hlen, Nat.zero_add]⟩
    · simp only [availabilityOf, hlen]

def accepting : Primitives where
  hashData _ := .replicate 32 0
  keccakData _ := .replicate 32 0
  sha256 _ := .replicate 32 0
  ed25519Verify _ _ _ := true
  outputHash _ := some (.replicate 32 0)
  newRingVerifier _ := true
  ringCommitment _ := some (.replicate 144 0)
  ringVerify _ _ _ _ := some (.replicate 32 0)

def zeroValidators : ValidatorsData := .replicate numberOfValidators (some .zero)

def emptyReport : WorkReport where
  workPackageSpecification := ⟨.replicate 32 0, 0, .replicate 32 0, .replicate 32 0, 0⟩
  refinementContext :=
    ⟨⟨.replicate 32 0, .replicate 32 0, .replicate 32 0⟩, ⟨.replicate 32 0, 0⟩, []⟩
  coreIndex := 0
  authorizerHash := .replicate 32 0
  output := []
  segmentRootLookup := ∅
  workResults := []

def pendingOnFirstCore : CoreAssignments :=
  Vector.ofFn fun core => if core.val = 0 then some ⟨some emptyReport, 0⟩ else none

def firstCoreAssurance : Assurance where
  anchor := .replicate 32 0
  bitfield := Vector.ofFn fun i => if i.val = 0 then 1 else 0
  validatorIndex := 0
  signature := .replicate 64 0

theorem hasAssuranceForCore_firstCoreAssurance (core : Core) :
    hasAssuranceForCore firstCoreAssurance core = decide (core.val = 0) := by
  revert core
  decide +kernel

theorem entriesFor_copies (n : Nat) (core : Core) :
    entriesFor (List.replicate n firstCoreAssurance) core =
      if core.val = 0 then List.replicate n firstCoreAssurance else [] := by
  simp [entriesFor, filter_replicate, hasAssuranceForCore_firstCoreAssurance]

theorem ordered_copies (n : Nat) :
    assuranceIsOrderedByValidatorIndex (List.replicate n firstCoreAssurance) = true :=
  decide_eq_true (isChain_replicate_of_rel n (UInt16.le_refl _))

theorem copies_accepted (n : Nat) :
    calculateIntermediateCoreFromAssurances accepting zeroValidators pendingOnFirstCore
        .zero (List.replicate n firstCoreAssurance) =
      .ok (availabilityOf (List.replicate n firstCoreAssurance) pendingOnFirstCore 0) := by
  rw [calculateIntermediateCoreFromAssurances_eq_ok]
  refine ⟨?_, ordered_copies n, ?_, rfl⟩
  · intro a ha
    rw [eq_of_mem_replicate ha]
    decide +kernel
  · intro core hcore
    rw [entriesFor_copies] at hcore
    have hzero : core = ⟨0, by decide⟩ := Fin.ext (by_contra fun h => hcore (if_neg h))
    rw [hzero]
    unfold Assurable
    decide +kernel

theorem one_assurance_counts_validators : CountsValidators [firstCoreAssurance] pendingOnFirstCore 0
      (availabilityOf [firstCoreAssurance] pendingOnFirstCore 0) :=
  (assurances_count_validators_iff accepting zeroValidators pendingOnFirstCore .zero
    [firstCoreAssurance] _ (copies_accepted 1)).mpr (pairwise_singleton _ _)

theorem one_validator_makes_available :
    let xs := List.replicate (availabilityThreshold + 1) firstCoreAssurance
    ∃ r, calculateIntermediateCoreFromAssurances accepting zeroValidators
        pendingOnFirstCore .zero xs = .ok r ∧
      r.removedReports = [some emptyReport] ∧
      (∀ core, (assurers xs core).card ≤ 1) ∧
      ¬ CountsValidators xs pendingOnFirstCore 0 r := by
  intro xs
  have hcard : ∀ core, (assurers xs core).card ≤ 1 := by
    intro core
    unfold assurers
    rw [entriesFor_copies]
    split
    · rw [map_replicate, toFinset_replicate_of_ne_zero (by decide)]
      simp
    · simp
  have hremoved : (availabilityOf xs pendingOnFirstCore 0).removedReports = [some emptyReport] := by
    have hcores : ∀ core : Core,
        decide (availabilityThreshold < (entriesFor xs core).length) =
          decide (core.val = 0) := by
      intro core
      rw [entriesFor_copies]
      split
      · next h => simp [h]
      · next h => simp [h]
    simp only [availabilityOf, hcores]
    decide +kernel
  refine ⟨_, copies_accepted _, hremoved, hcard, ?_⟩
  intro hcounts
  have havailable := hcounts.available
  rw [hremoved, filter_eq_nil_iff.mpr] at havailable
  · cases havailable
  · intro core _
    have := hcard core
    have : availabilityThreshold = 682 := rfl
    simp only [decide_eq_true_eq]
    omega

end Strawberry.StateTransition
