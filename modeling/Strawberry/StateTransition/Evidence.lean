import Strawberry.StateTransition.Judgements

/-!
# Evidence and offenders

Which culprits and faults an accepted extrinsic has, and who becomes an offender.
-/

namespace Strawberry.StateTransition

open Block State Constants List

variable {prims : Primitives} {ds : DisputeExtrinsic} {slot : Timeslot}
  {j j' : Judgements} {validators : ValidatorState}

def culpritsOf (disputes : DisputeExtrinsic) (reportHash : Hash) : List Culprit :=
  disputes.culprits.filter fun culprit => culprit.reportHash = reportHash

structure Evidence (disputes : DisputeExtrinsic) (j j' : Judgements) : Prop where
  bad : ∀ hash ∈ j'.badWorkReports, hash ∉ j.badWorkReports → 2 ≤ (culpritsOf disputes hash).length
  good : ∀ hash ∈ j'.goodWorkReports, hash ∉ j.goodWorkReports →
    ∃ fault ∈ disputes.faults, fault.reportHash = hash ∧ fault.isValid = false
  culprits : ∀ culprit ∈ disputes.culprits,
    culprit.reportHash ∈ j'.badWorkReports ∧ culprit.reportHash ∉ j.badWorkReports
  faults : ∀ fault ∈ disputes.faults,
    (fault.isValid = true ∧ fault.reportHash ∈ j'.badWorkReports) ∨
      (fault.isValid = false ∧ fault.reportHash ∈ j'.goodWorkReports)

structure EvidenceMatches (disputes : DisputeExtrinsic) (j : Judgements) : Prop where
  culprits : ∀ verdict ∈ disputes.verdicts, countPositiveJudgments verdict.judgements = 0 →
    2 ≤ (culpritsOf disputes verdict.reportHash).length
  faults : ∀ fault ∈ disputes.faults, fault.isValid = true →
    fault.reportHash ∈ j.badWorkReports ∨ ∃ verdict ∈ disputes.verdicts,
      countPositiveJudgments verdict.judgements = 0 ∧ verdict.reportHash = fault.reportHash

theorem mem_bad_after {hash : Hash} : hash ∈ (judgementsAfter ds j).badWorkReports ↔
      hash ∈ j.badWorkReports ∨ hash ∈ reportsWith 0 ds.verdicts :=
  mem_append

theorem mem_good_after {hash : Hash} : hash ∈ (judgementsAfter ds j).goodWorkReports ↔
      hash ∈ j.goodWorkReports ∨ hash ∈ reportsWith validatorsSuperMajority ds.verdicts :=
  mem_append

variable {verdicts : List Verdict}

theorem mem_reportsWith_of_find {reportHash : Hash} {verdict : Verdict}
    {n : Nat} (hfind : verdicts.find? (·.reportHash = reportHash) = some verdict)
    (hn : countPositiveJudgments verdict.judgements = n) :
    reportHash ∈ reportsWith n verdicts := by
  have hhash : verdict.reportHash = reportHash := by simpa using List.find?_some hfind
  exact mem_reportsWith.mpr ⟨verdict, mem_of_find?_eq_some hfind, hn, hhash⟩

theorem mem_reportsWith_of_fault {fault : Block.Fault}
    (hvote : fault.isValid ≠ allPositive verdicts fault.reportHash)
    (hinvalid : fault.isValid = false) :
    fault.reportHash ∈ reportsWith validatorsSuperMajority verdicts := by
  rw [hinvalid] at hvote
  unfold allPositive at hvote
  cases hfind : verdicts.find? (·.reportHash = fault.reportHash) with
  | none =>
    rw [hfind] at hvote
    exact absurd rfl hvote
  | some verdict =>
    rw [hfind] at hvote
    refine mem_reportsWith_of_find hfind ?_
    simpa using hvote

theorem mem_reportsWith_of_culprit {culprit : Culprit}
    (h : Condemned verdicts culprit.reportHash) : culprit.reportHash ∈ reportsWith 0 verdicts := by
  obtain ⟨verdict, hfind, hn⟩ := h
  exact mem_reportsWith_of_find hfind hn

/-- When every verdict comes with its evidence. -/
theorem evidence_iff (prims : Primitives) (slot : Timeslot) (ds : DisputeExtrinsic)
    (j j' : Judgements) (validators : ValidatorState)
    (h : calculateNewJudgements prims slot ds j validators = .ok j') :
    Evidence ds j j' ↔ EvidenceMatches ds j := by
  obtain ⟨hok, rfl⟩ := calculateNewJudgements_eq_ok.mp h
  constructor
  · intro hevidence
    constructor
    · intro verdict hv hn
      refine hevidence.bad _ ?_ (hok.notJudged verdict hv).2.1
      exact mem_bad_after.mpr (.inr (mem_reportsWith.mpr ⟨verdict, hv, hn, rfl⟩))
    · intro fault hfault hvalid
      rcases hevidence.faults fault hfault with ⟨-, hbad⟩ | ⟨hinvalid, -⟩
      · rwa [mem_bad_after, mem_reportsWith] at hbad
      · rw [hvalid] at hinvalid
        cases hinvalid
  · intro hmatches
    constructor
    · intro hash hhash hnew
      have hcondemned := (mem_bad_after.mp hhash).resolve_left hnew
      obtain ⟨verdict, hv, hn, rfl⟩ := mem_reportsWith.mp hcondemned
      exact hmatches.culprits verdict hv hn
    · intro hash hhash hnew
      have hgood := (mem_good_after.mp hhash).resolve_left hnew
      obtain ⟨verdict, hv, hn, rfl⟩ := mem_reportsWith.mp hgood
      cases hok.verdictsSupported verdict hv with
      | good _ hfaults =>
        obtain ⟨fault, hfault⟩ := exists_mem_of_ne_nil _ hfaults
        simp only [faultsAgainst, mem_filter, Bool.and_eq_true, decide_eq_true_eq,
          Bool.not_eq_true'] at hfault
        exact ⟨fault, hfault.1, hfault.2⟩
      | bad hvotes => exact absurd (hn.symm.trans hvotes) superMajority_ne_zero
      | wonky hvotes => exact absurd (hn.symm.trans hvotes) superMajority_ne_third
    · intro culprit hc
      have hcondemned := mem_reportsWith_of_culprit (hok.culpritsCondemned culprit hc)
      obtain ⟨verdict, hv, -, heq⟩ := mem_reportsWith.mp hcondemned
      refine ⟨mem_bad_after.mpr (.inr hcondemned), ?_⟩
      rw [← heq]
      exact (hok.notJudged verdict hv).2.1
    · intro fault hfault
      cases hvote : fault.isValid with
      | true =>
        refine .inl ⟨rfl, ?_⟩
        rw [mem_bad_after, mem_reportsWith]
        exact hmatches.faults fault hfault hvote
      | false =>
        have hgood := mem_reportsWith_of_fault (hok.faultVotes fault hfault) hvote
        exact .inr ⟨rfl, mem_good_after.mpr (.inr hgood)⟩

def upheldVerdict : Verdict :=
  verdictOf (.replicate 32 0) 0 fun i => ⟨true, UInt16.ofNat i, .replicate 64 0⟩

def wrongFault : Block.Fault := ⟨.replicate 32 0, false, .replicate 32 0, .replicate 64 0⟩

/-- All votes are for the report, and a validator that called it invalid is at fault. -/
def upheldDispute : DisputeExtrinsic := ⟨[upheldVerdict], [], [wrongFault]⟩

theorem upheldVerdict_votes : positives upheldVerdict = validatorsSuperMajority := by
  rw [positives, countPositiveJudgments, upheldVerdict, verdictOf_judgements, countP_map]
  exact (countP_eq_length.mpr fun _ _ => rfl).trans length_range

theorem upheldDispute_accepted :
    DisputesAccepted accepting 0 upheldDispute emptyJudgements zeroValidatorState where
  faultsSorted := .singleton _
  verdictsSorted := .singleton _
  judgementsSorted := forall_mem_singleton.mpr (verdictOf_sorted fun _ => rfl)
  culpritsSorted := .nil
  verdictsSigned := forall_mem_singleton.mpr
    { judgements := verdictOf_verifies (fun _ => rfl) fun i hi => ⟨zeroValidators_get hi, rfl⟩
      notNewer := by decide
      notOlder := by decide }
  culpritsSigned := nofun
  faultsSigned := forall_mem_singleton.mpr rfl
  notJudged := forall_mem_singleton.mpr ⟨nofun, nofun, nofun⟩
  faultVotes := by
    refine forall_mem_singleton.mpr ?_
    have hhash : upheldVerdict.reportHash = wrongFault.reportHash := rfl
    simp [upheldDispute, allPositive, hhash, upheldVerdict_votes, wrongFault]
  faultsNew := forall_mem_singleton.mpr nofun
  verdictsSupported := forall_mem_singleton.mpr (.good upheldVerdict_votes nofun)
  culpritsCondemned := nofun
  culpritsBad := nofun
  culpritsNew := nofun

theorem calculateNewJudgements_upheldDispute :
    calculateNewJudgements accepting 0 upheldDispute emptyJudgements zeroValidatorState =
      .ok (judgementsAfter upheldDispute emptyJudgements) :=
  calculateNewJudgements_eq_ok.mpr ⟨upheldDispute_accepted, rfl⟩

theorem evidence_upheldDispute :
    Evidence upheldDispute emptyJudgements (judgementsAfter upheldDispute emptyJudgements) := by
  apply (evidence_iff accepting 0 upheldDispute emptyJudgements _ zeroValidatorState
    calculateNewJudgements_upheldDispute).mpr
  refine ⟨forall_mem_singleton.mpr ?_, forall_mem_singleton.mpr nofun⟩
  intro hvotes
  exact absurd (upheldVerdict_votes.symm.trans hvotes) superMajority_ne_zero

def strayFault : Block.Fault := ⟨.replicate 32 0, true, .replicate 32 0, .replicate 64 0⟩

theorem calculateNewJudgements_strayFault :
    calculateNewJudgements accepting 0 ⟨[], [], [strayFault]⟩ emptyJudgements
      zeroValidatorState = .ok emptyJudgements := rfl

theorem strayFault_without_evidence :
    calculateNewJudgements accepting 0 ⟨[], [], [strayFault]⟩ emptyJudgements
        zeroValidatorState = .ok emptyJudgements ∧
      ¬ Evidence ⟨[], [], [strayFault]⟩ emptyJudgements emptyJudgements := by
  refine ⟨calculateNewJudgements_strayFault, ?_⟩
  intro hevidence
  rcases hevidence.faults strayFault (mem_singleton_self _) with ⟨-, hbad⟩ | ⟨-, hgood⟩
  · cases hbad
  · cases hgood

def IsValidatorKey (validators : ValidatorState) (key : Ed25519Key) : Prop :=
  ∃ validator, (some validator ∈ validators.currentValidators.toList ∨
    some validator ∈ validators.archivedValidators.toList) ∧ validator.ed25519 = key

structure OffenderLaw (disputes : DisputeExtrinsic) (validators : ValidatorState)
    (j j' : Judgements) : Prop where
  mem_iff : ∀ key, key ∈ j'.offendingValidators ↔ key ∈ j.offendingValidators ∨
      (∃ culprit ∈ disputes.culprits, culprit.validatorEd25519PublicKey = key) ∨
      ∃ fault ∈ disputes.faults, fault.validatorEd25519PublicKey = key
  validators : ∀ key ∈ j'.offendingValidators, key ∉ j.offendingValidators →
    IsValidatorKey validators key

structure OffendersKnown (disputes : DisputeExtrinsic) (validators : ValidatorState) : Prop where
  faultsForReports : ∀ fault ∈ disputes.faults, fault.isValid = true →
    ∃ culprit ∈ disputes.culprits,
      culprit.validatorEd25519PublicKey = fault.validatorEd25519PublicKey
  culprits : ∀ culprit ∈ disputes.culprits,
    IsValidatorKey validators culprit.validatorEd25519PublicKey
  faultsAgainstReports : ∀ fault ∈ disputes.faults, fault.isValid = false →
    IsValidatorKey validators fault.validatorEd25519PublicKey

theorem mem_faultKeys (hvotes : ∀ fault ∈ ds.faults,
      fault.isValid ≠ allPositive ds.verdicts fault.reportHash) {key : Ed25519Key} :
    key ∈ faultKeys ds ds.verdicts ↔ ∃ fault ∈ ds.faults,
      fault.isValid = false ∧ fault.validatorEd25519PublicKey = key := by
  simp only [faultKeys, mem_flatMap, mem_map, faultsAgainst, mem_filter,
    Bool.and_eq_true, decide_eq_true_eq, Bool.not_eq_true']
  constructor
  · rintro ⟨_, -, fault, ⟨hfault, -, hinvalid⟩, hkey⟩
    exact ⟨fault, hfault, hinvalid, hkey⟩
  · rintro ⟨fault, hfault, hinvalid, hkey⟩
    exact ⟨fault.reportHash, mem_reportsWith_of_fault (hvotes fault hfault) hinvalid, fault,
      ⟨hfault, rfl, hinvalid⟩, hkey⟩

theorem mem_offenders_after (h : DisputesAccepted prims slot ds j validators) {key : Ed25519Key} :
    key ∈ (judgementsAfter ds j).offendingValidators ↔ key ∈ j.offendingValidators ∨
        (∃ culprit ∈ ds.culprits, culprit.validatorEd25519PublicKey = key) ∨
        ∃ fault ∈ ds.faults, fault.isValid = false ∧ fault.validatorEd25519PublicKey = key := by
  change key ∈ List.foldl addOffender (List.foldl addOffender j.offendingValidators _) _ ↔ _
  rw [mem_addOffenders, mem_addOffenders, mem_faultKeys h.faultVotes, mem_map, or_assoc,
    or_comm (a := ∃ fault ∈ ds.faults, _)]

/-- When the new offenders are those that the disputes name, all validators. -/
theorem offender_law_iff (prims : Primitives) (slot : Timeslot)
    (ds : DisputeExtrinsic) (j j' : Judgements) (validators : ValidatorState)
    (h : calculateNewJudgements prims slot ds j validators = .ok j') :
    OffenderLaw ds validators j j' ↔ OffendersKnown ds validators := by
  obtain ⟨hok, rfl⟩ := calculateNewJudgements_eq_ok.mp h
  constructor
  · intro hlaw
    constructor
    · intro fault hfault hvalid
      have hmem := (hlaw.mem_iff _).mpr (.inr (.inr ⟨fault, hfault, rfl⟩))
      rcases (mem_offenders_after hok).mp hmem with
        hold | hc | ⟨fault', hfault', hinvalid, hkey⟩
      · exact absurd hold (hok.faultsNew fault hfault)
      · exact hc
      · -- the keys of the faults are distinct
        have hnodup := nodup_of_bytesLt hok.faultsSorted
        rw [inj_on_of_nodup_map hnodup hfault' hfault hkey, hvalid] at hinvalid
        cases hinvalid
    · intro culprit hc
      refine hlaw.validators _ ?_ ?_
      · exact (mem_offenders_after hok).mpr (.inr (.inl ⟨culprit, hc, rfl⟩))
      · intro hold
        exact hok.culpritsNew culprit hc (mem_addOffenders.mpr (.inl hold))
    · intro fault hfault hinvalid
      refine hlaw.validators _ ?_ (hok.faultsNew fault hfault)
      exact (mem_offenders_after hok).mpr (.inr (.inr ⟨fault, hfault, hinvalid, rfl⟩))
  · intro hknown
    constructor
    · intro key
      rw [mem_offenders_after hok]
      refine or_congr_right ?_
      constructor
      · rintro (hc | ⟨fault, hfault, -, hkey⟩)
        · exact .inl hc
        · exact .inr ⟨fault, hfault, hkey⟩
      · rintro (hc | ⟨fault, hfault, rfl⟩)
        · exact .inl hc
        · cases hvote : fault.isValid with
          | true => exact .inl (hknown.faultsForReports fault hfault hvote)
          | false => exact .inr ⟨fault, hfault, hvote, rfl⟩
    · intro key hkey hnew
      rcases (mem_offenders_after hok).mp hkey with
        hold | ⟨culprit, hc, rfl⟩ | ⟨fault, hfault, hinvalid, rfl⟩
      · exact absurd hold hnew
      · exact hknown.culprits culprit hc
      · exact hknown.faultsAgainstReports fault hfault hinvalid

theorem offender_law_upheldDispute : OffenderLaw upheldDispute zeroValidatorState emptyJudgements
    (judgementsAfter upheldDispute emptyJudgements) := by
  have hzero : some ValidatorKey.zero ∈ zeroValidatorState.currentValidators.toList :=
    mem_of_getElem? ((Vector.getElem?_toList ..).trans (zeroValidators_get (i := 0) (by decide)))
  exact (offender_law_iff accepting 0 upheldDispute emptyJudgements _ zeroValidatorState
    calculateNewJudgements_upheldDispute).mpr
    ⟨forall_mem_singleton.mpr nofun, nofun,
      forall_mem_singleton.mpr fun _ => ⟨.zero, .inl hzero, rfl⟩⟩

theorem strayFault_no_offender :
    calculateNewJudgements accepting 0 ⟨[], [], [strayFault]⟩ emptyJudgements
        zeroValidatorState = .ok emptyJudgements ∧
      ¬ OffenderLaw ⟨[], [], [strayFault]⟩ zeroValidatorState emptyJudgements emptyJudgements := by
  refine ⟨calculateNewJudgements_strayFault, ?_⟩
  intro hlaw
  have hmem := (hlaw.mem_iff strayFault.validatorEd25519PublicKey).mpr
    (.inr (.inr ⟨strayFault, mem_singleton_self _, rfl⟩))
  cases hmem

end Strawberry.StateTransition
