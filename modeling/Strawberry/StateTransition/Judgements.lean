import Strawberry.StateTransition.Assurances
import Strawberry.StateTransition.Disputes

/-!
# Judgements

When a dispute extrinsic is accepted, and what it records: the verdicts as good, bad or wonky
reports, the culprits and the faults as offenders.
-/

namespace Strawberry.StateTransition

open Block State Constants

variable {prims : Primitives}

theorem nodup_of_bytesLt {α : Type} {n : Nat} {key : α → Vector UInt8 n} {l : List α}
    (h : l.IsChain fun a b => bytesLt (key a) (key b)) : (l.map key).Nodup := by
  have hranked : Ranked (fun a b : Vector UInt8 n => bytesLt a b) key l := ranked_of_isChain h
  exact hranked.nodup_keys

variable {ds : DisputeExtrinsic} {validatorSet : ValidatorsData} {reportHash : Hash}
  {slot : Timeslot} {validators : ValidatorState}

def JudgementVerifies (prims : Primitives) (validatorSet : ValidatorsData) (reportHash : Hash)
    (judgement : Judgement) : Prop :=
  ∃ key, validatorSet[judgement.validatorIndex.toNat]? = some (some key) ∧
    prims.ed25519Verify key.ed25519 (voteMessage judgement.isValid reportHash) judgement.signature

theorem verifySortedUnique_eq_ok : verifySortedUnique ds = .ok () ↔ (ds.faults.IsChain fun a b =>
        bytesLt a.validatorEd25519PublicKey b.validatorEd25519PublicKey) ∧
      (ds.verdicts.IsChain fun a b => bytesLt a.reportHash b.reportHash) ∧
      ∀ verdict ∈ ds.verdicts,
        verdict.judgements.toList.IsChain fun a b => a.validatorIndex < b.validatorIndex := by
  simp only [verifySortedUnique, bind_unit_eq_ok, check_eq_ok, decide_eq_true_eq, List.all_eq_true]

theorem ed25519Of_eq_ret {index : Nat} {k : Ed25519Key} : ed25519Of validatorSet index = .ret k ↔
      ∃ key, validatorSet[index]? = some (some key) ∧ key.ed25519 = k := by
  unfold ed25519Of
  cases validatorSet[index]? with
  | none => simp
  | some validator =>
    cases validator with
    | none | some => simp

theorem verifyJudgements_eq_ok {judgements : List Judgement} :
    verifyJudgements prims validatorSet reportHash judgements = .ok () ↔
      ∀ judgement ∈ judgements, JudgementVerifies prims validatorSet reportHash judgement := by
  induction judgements with
  | nil => simp [verifyJudgements]
  | cons judgement judgements ih =>
    rw [verifyJudgements, Call.bind_unit_eq_ok, Call.bind_eq_ok, List.forall_mem_cons, ← ih]
    simp only [Call.bind_unit_eq_ok, Call.check_eq_ok, Call.lift_outcome_eq_ok, ed25519Of_eq_ret,
      JudgementVerifies]
    constructor
    · rintro ⟨-, k, ⟨key, hkey, rfl⟩, hverify, hrest⟩
      exact ⟨⟨key, hkey, hverify⟩, hrest⟩
    · rintro ⟨⟨key, hkey, hverify⟩, hrest⟩
      obtain ⟨hindex, -⟩ := Vector.getElem?_eq_some_iff.mp hkey
      exact ⟨decide_eq_true hindex, key.ed25519, ⟨key, hkey, rfl⟩, hverify, hrest⟩

def verdictSet (newTimeslot : Timeslot) (validators : ValidatorState) (verdict : Verdict) :
    ValidatorsData :=
  if verdict.epochIndex = toEpoch newTimeslot then validators.currentValidators
  else validators.archivedValidators

structure VerdictVerifies (prims : Primitives) (newTimeslot : Timeslot)
    (validators : ValidatorState) (verdict : Verdict) : Prop where
  judgements : ∀ judgement ∈ verdict.judgements.toList,
    JudgementVerifies prims (verdictSet newTimeslot validators verdict) verdict.reportHash judgement
  notNewer : verdict.epochIndex ≤ toEpoch newTimeslot
  notOlder : toEpoch newTimeslot - verdict.epochIndex ≤ 1

theorem verifyVerdictSignatures_eq_ok {verdict : Verdict} :
    verifyVerdictSignatures prims slot verdict validators.currentValidators
        validators.archivedValidators = .ok () ↔
      VerdictVerifies prims slot validators verdict := by
  simp only [verifyVerdictSignatures, Call.bind_unit_eq_ok, Call.check_eq_ok, decide_eq_true_eq,
    verifyJudgements_eq_ok]
  exact ⟨fun ⟨h, hnewer, holder⟩ => ⟨h, hnewer, holder⟩, fun ⟨h, hnewer, holder⟩ => ⟨h, hnewer, holder⟩⟩

theorem verifyAllVerdicts_eq_ok {verdicts : List Verdict} :
    verifyAllVerdicts prims slot validators verdicts = .ok () ↔
      ∀ verdict ∈ verdicts, VerdictVerifies prims slot validators verdict := by
  induction verdicts with
  | nil => simp [verifyAllVerdicts]
  | cons verdict verdicts ih =>
    rw [verifyAllVerdicts, Call.bind_unit_eq_ok, verifyVerdictSignatures_eq_ok, ih,
      List.forall_mem_cons]

abbrev positives (verdict : Verdict) : Nat := countPositiveJudgments verdict.judgements

def reportsWith (positive : Nat) (verdicts : List Verdict) : List Hash :=
  (verdicts.filter fun verdict => positives verdict = positive).map (·.reportHash)

def faultsAgainst (faults : List Block.Fault) (reportHash : Hash) : List Block.Fault :=
  faults.filter fun fault => fault.reportHash = reportHash && !fault.isValid

def faultKeys (disputes : DisputeExtrinsic) (verdicts : List Verdict) : List Ed25519Key :=
  (reportsWith validatorsSuperMajority verdicts).flatMap fun reportHash =>
    (faultsAgainst disputes.faults reportHash).map (·.validatorEd25519PublicKey)

def recordVerdicts (disputes : DisputeExtrinsic) (verdicts : List Verdict) (j : Judgements) :
    Judgements where
  badWorkReports := j.badWorkReports ++ reportsWith 0 verdicts
  goodWorkReports := j.goodWorkReports ++ reportsWith validatorsSuperMajority verdicts
  wonkyWorkReports := j.wonkyWorkReports ++ reportsWith (numberOfValidators / 3) verdicts
  offendingValidators := (faultKeys disputes verdicts).foldl addOffender j.offendingValidators

inductive VerdictSupported (disputes : DisputeExtrinsic) (verdict : Verdict) : Prop where
  | good (votes : positives verdict = validatorsSuperMajority)
      (fault : faultsAgainst disputes.faults verdict.reportHash ≠ [])
  | bad (votes : positives verdict = 0)
      (culprits : 2 ≤ disputes.culprits.length)
  | wonky (votes : positives verdict = numberOfValidators / 3)

variable {verdict : Verdict} {verdicts : List Verdict} {j j' : Judgements}

theorem reportsWith_singleton (positive : Nat) : reportsWith positive [verdict] =
      if positives verdict = positive then [verdict.reportHash] else [] := by
  unfold reportsWith
  split <;> simp_all

theorem superMajority_ne_zero : validatorsSuperMajority ≠ 0 := by decide

theorem superMajority_ne_third : validatorsSuperMajority ≠ numberOfValidators / 3 := by decide

theorem third_ne_zero : numberOfValidators / 3 ≠ 0 := by decide

theorem processPositiveVerdict_eq_ok (hvotes : positives verdict = validatorsSuperMajority) :
    processPositiveVerdict verdict ds.faults j = .ok j' ↔
      faultsAgainst ds.faults verdict.reportHash ≠ [] ∧ j' = recordVerdicts ds [verdict] j := by
  rw [processPositiveVerdict, bind_unit_eq_ok, check_eq_ok, pure_eq_ok]
  simp only [recordVerdicts, faultKeys, reportsWith_singleton, hvotes, if_true,
    superMajority_ne_zero, superMajority_ne_third, if_false, List.append_nil,
    List.flatMap_singleton, Bool.not_eq_true', List.isEmpty_eq_false_iff, eq_comm (a := j')]
  rfl

theorem processNegativeVerdict_eq_ok (hvotes : positives verdict = 0) :
    processNegativeVerdict verdict ds.culprits j = .ok j' ↔
      2 ≤ ds.culprits.length ∧ j' = recordVerdicts ds [verdict] j := by
  rw [processNegativeVerdict, bind_unit_eq_ok, check_eq_ok, pure_eq_ok, decide_eq_true_eq]
  simp only [recordVerdicts, faultKeys, reportsWith_singleton, hvotes, if_true,
    superMajority_ne_zero.symm, third_ne_zero.symm, if_false, List.append_nil,
    List.flatMap_nil, List.foldl_nil, eq_comm (a := j')]

theorem processWonkyVerdict_eq (hvotes : positives verdict = numberOfValidators / 3) :
    processWonkyVerdict verdict j = recordVerdicts ds [verdict] j := by
  simp only [processWonkyVerdict, recordVerdicts, faultKeys, reportsWith_singleton, hvotes,
    if_true, superMajority_ne_third.symm, third_ne_zero, if_false, List.append_nil,
    List.flatMap_nil, List.foldl_nil]

theorem processVerdict_eq_ok : processVerdict ds j verdict = .ok j' ↔
      VerdictSupported ds verdict ∧ j' = recordVerdicts ds [verdict] j := by
  unfold processVerdict
  dsimp only
  split
  · next hgood =>
    rw [processPositiveVerdict_eq_ok hgood]
    refine and_congr_left fun _ => ⟨.good hgood, ?_⟩
    intro hsupported
    cases hsupported with
    | good _ hfault => exact hfault
    | bad hvotes => exact absurd (hgood.symm.trans hvotes) superMajority_ne_zero
    | wonky hvotes => exact absurd (hgood.symm.trans hvotes) superMajority_ne_third
  · next hgood =>
    split
    · next hbad =>
      rw [processNegativeVerdict_eq_ok hbad]
      refine and_congr_left fun _ => ⟨.bad hbad, ?_⟩
      intro hsupported
      cases hsupported with
      | good hvotes => exact absurd hvotes hgood
      | bad _ hculprits => exact hculprits
      | wonky hvotes => exact absurd (hvotes.symm.trans hbad) third_ne_zero
    · next hbad =>
      split
      · next hwonky =>
        rw [processWonkyVerdict_eq hwonky, Except.ok.injEq, eq_comm]
        exact (and_iff_right (.wonky hwonky)).symm
      · next hwonky =>
        refine iff_of_false nofun ?_
        rintro ⟨hsupported, -⟩
        cases hsupported with
        | good hvotes => exact hgood hvotes
        | bad hvotes => exact hbad hvotes
        | wonky hvotes => exact hwonky hvotes

theorem recordVerdicts_append {before : List Verdict} :
    recordVerdicts ds verdicts (recordVerdicts ds before j) =
      recordVerdicts ds (before ++ verdicts) j := by
  simp [recordVerdicts, faultKeys, reportsWith]

theorem processVerdicts_eq_ok : verdicts.foldlM (processVerdict ds) j = .ok j' ↔
      (∀ verdict ∈ verdicts, VerdictSupported ds verdict) ∧ j' = recordVerdicts ds verdicts j := by
  induction verdicts generalizing j with
  | nil =>
    have hnil : recordVerdicts ds [] j = j := by
      simp [recordVerdicts, faultKeys, reportsWith]
    rw [List.foldlM_nil, hnil]
    simp [pure, Except.pure, eq_comm]
  | cons verdict verdicts ih =>
    rw [List.foldlM_cons, bind_eq_ok, List.forall_mem_cons]
    simp only [processVerdict_eq_ok, ih]
    constructor
    · rintro ⟨_, ⟨hverdict, rfl⟩, hverdicts, rfl⟩
      exact ⟨⟨hverdict, hverdicts⟩, recordVerdicts_append⟩
    · rintro ⟨⟨hverdict, hverdicts⟩, rfl⟩
      refine ⟨_, ⟨hverdict, rfl⟩, hverdicts, ?_⟩
      rw [recordVerdicts_append, List.singleton_append]

def judgementsAfter (disputes : DisputeExtrinsic) (j : Judgements) : Judgements :=
  { recordVerdicts disputes disputes.verdicts j with
    offendingValidators := (disputes.culprits.map (·.validatorEd25519PublicKey)).foldl addOffender
      (recordVerdicts disputes disputes.verdicts j).offendingValidators }

def Condemned (verdicts : List Verdict) (reportHash : Hash) : Prop :=
  ∃ verdict, verdicts.find? (·.reportHash = reportHash) = some verdict ∧ positives verdict = 0

structure DisputesAccepted (prims : Primitives) (newTimeslot : Timeslot)
    (disputes : DisputeExtrinsic) (j : Judgements) (validators : ValidatorState) : Prop where
  faultsSorted : disputes.faults.IsChain fun a b =>
    bytesLt a.validatorEd25519PublicKey b.validatorEd25519PublicKey
  verdictsSorted : disputes.verdicts.IsChain fun a b => bytesLt a.reportHash b.reportHash
  judgementsSorted : ∀ verdict ∈ disputes.verdicts,
    verdict.judgements.toList.IsChain fun a b => a.validatorIndex < b.validatorIndex
  culpritsSorted : disputes.culprits.IsChain fun a b =>
    bytesLt a.validatorEd25519PublicKey b.validatorEd25519PublicKey
  verdictsSigned : ∀ verdict ∈ disputes.verdicts,
    VerdictVerifies prims newTimeslot validators verdict
  culpritsSigned : ∀ culprit ∈ disputes.culprits, verifyCulpritSignature prims culprit = .ok ()
  faultsSigned : ∀ fault ∈ disputes.faults, verifyFaultSignature prims fault = .ok ()
  notJudged : ∀ verdict ∈ disputes.verdicts, verdict.reportHash ∉ j.goodWorkReports ∧
    verdict.reportHash ∉ j.badWorkReports ∧ verdict.reportHash ∉ j.wonkyWorkReports
  faultVotes : ∀ fault ∈ disputes.faults,
    fault.isValid ≠ allPositive disputes.verdicts fault.reportHash
  faultsNew : ∀ fault ∈ disputes.faults, fault.validatorEd25519PublicKey ∉ j.offendingValidators
  verdictsSupported : ∀ verdict ∈ disputes.verdicts, VerdictSupported disputes verdict
  culpritsCondemned : ∀ culprit ∈ disputes.culprits, Condemned disputes.verdicts culprit.reportHash
  culpritsBad : ∀ culprit ∈ disputes.culprits,
    culprit.reportHash ∈ (judgementsAfter disputes j).badWorkReports
  culpritsNew : ∀ culprit ∈ disputes.culprits, culprit.validatorEd25519PublicKey ∉
    (recordVerdicts disputes disputes.verdicts j).offendingValidators

theorem checkCulprit_eq_ok {culprit : Culprit} :
    checkCulprit verdicts culprit = .ok () ↔ Condemned verdicts culprit.reportHash := by
  unfold checkCulprit Condemned
  cases verdicts.find? (·.reportHash = culprit.reportHash) with
  | none | some => simp

theorem processCulprits_eq_ok {culprits : List Culprit} :
    processCulprits prims culprits verdicts j = .ok j' ↔
      (∀ culprit ∈ culprits, Condemned verdicts culprit.reportHash) ∧
      (culprits.IsChain fun a b =>
        bytesLt a.validatorEd25519PublicKey b.validatorEd25519PublicKey) ∧
      (∀ culprit ∈ culprits, verifyCulpritSignature prims culprit = .ok () ∧
        culprit.reportHash ∈ j.badWorkReports ∧
        culprit.validatorEd25519PublicKey ∉ j.offendingValidators) ∧
      { j with offendingValidators :=
          (culprits.map (·.validatorEd25519PublicKey)).foldl addOffender j.offendingValidators } =
        j' := by
  simp only [processCulprits, verifyCulprits, bind_unit_eq_ok, forM_eq_ok, checkCulprit_eq_ok,
    check_eq_ok, decide_eq_true_eq, pure_eq_ok, and_assoc]

theorem calculateNewJudgements_eq_ok : calculateNewJudgements prims slot ds j validators = .ok j' ↔
      DisputesAccepted prims slot ds j validators ∧ j' = judgementsAfter ds j := by
  simp only [calculateNewJudgements, verifyAllSignatures, Call.bind_unit_eq_ok,
    Call.lift_except_eq_ok]
  rw [Call.bind_eq_ok]
  simp only [verifyNotAlreadyOffending, verifyNotAlreadyJudged, verifyFaults,
    Call.lift_except_eq_ok, verifySortedUnique_eq_ok, verifyAllVerdicts_eq_ok, forM_eq_ok,
    bind_unit_eq_ok, check_eq_ok, decide_eq_true_eq, processVerdicts, processVerdicts_eq_ok]
  constructor
  · rintro ⟨⟨hfaultsSorted, hverdictsSorted, hjudgementsSorted⟩,
      ⟨hverdictsSigned, hculpritsSigned, hfaultsSigned⟩, hfaultsNew, hnotJudged, hfaults,
      _, ⟨hsupported, rfl⟩, hculprits⟩
    obtain ⟨hcondemned, hculpritsSorted, hchecked, rfl⟩ := processCulprits_eq_ok.mp hculprits
    exact ⟨⟨hfaultsSorted, hverdictsSorted, hjudgementsSorted, hculpritsSorted, hverdictsSigned,
      hculpritsSigned, hfaultsSigned, hnotJudged, fun fault hfault => (hfaults fault hfault).1,
      hfaultsNew, hsupported, hcondemned, fun culprit hc => (hchecked culprit hc).2.1,
      fun culprit hc => (hchecked culprit hc).2.2⟩, rfl⟩
  · rintro ⟨hok, rfl⟩
    refine ⟨⟨hok.faultsSorted, hok.verdictsSorted, hok.judgementsSorted⟩,
      ⟨hok.verdictsSigned, hok.culpritsSigned, hok.faultsSigned⟩,
      hok.faultsNew, hok.notJudged, ?_, _, ⟨hok.verdictsSupported, rfl⟩, ?_⟩
    · intro fault hfault
      exact ⟨hok.faultVotes fault hfault, hok.faultsNew fault hfault,
        hok.faultsSigned fault hfault⟩
    · refine processCulprits_eq_ok.mpr
        ⟨hok.culpritsCondemned, hok.culpritsSorted, ?_, rfl⟩
      intro culprit hc
      exact ⟨hok.culpritsSigned culprit hc, hok.culpritsBad culprit hc,
        hok.culpritsNew culprit hc⟩

variable {offenders keys : List Ed25519Key} {key : Ed25519Key}

theorem mem_addOffenders :
    key ∈ keys.foldl addOffender offenders ↔ key ∈ offenders ∨ key ∈ keys := by
  induction keys generalizing offenders with
  | nil => simp
  | cons k keys ih =>
    have hstep : key ∈ addOffender offenders k ↔ key ∈ offenders ∨ key = k := by
      unfold addOffender
      split
      · next hk => exact (or_iff_left_of_imp (· ▸ hk)).symm
      · simp
    rw [List.foldl_cons, ih, hstep, List.mem_cons, or_assoc]

theorem nodup_addOffenders (h : offenders.Nodup) : (keys.foldl addOffender offenders).Nodup := by
  induction keys generalizing offenders with
  | nil => exact h
  | cons k keys ih =>
    apply ih
    unfold addOffender
    split
    · exact h
    · next hk => exact List.nodup_append_comm.mp (List.nodup_cons.mpr ⟨hk, h⟩)

theorem prefix_addOffenders : offenders <+: keys.foldl addOffender offenders := by
  induction keys generalizing offenders with
  | nil => exact List.prefix_refl _
  | cons k keys ih =>
    refine List.IsPrefix.trans ?_ ih
    unfold addOffender
    split
    · exact List.prefix_refl _
    · exact List.prefix_append _ _

def emptyJudgements : Judgements := ⟨[], [], [], []⟩

structure Consistent (j : Judgements) : Prop where
  good_nodup : j.goodWorkReports.Nodup
  bad_nodup : j.badWorkReports.Nodup
  wonky_nodup : j.wonkyWorkReports.Nodup
  offenders_nodup : j.offendingValidators.Nodup
  good_bad : j.goodWorkReports.Disjoint j.badWorkReports
  good_wonky : j.goodWorkReports.Disjoint j.wonkyWorkReports
  bad_wonky : j.badWorkReports.Disjoint j.wonkyWorkReports

structure Extends (j j' : Judgements) : Prop where
  good : j.goodWorkReports <+: j'.goodWorkReports
  bad : j.badWorkReports <+: j'.badWorkReports
  wonky : j.wonkyWorkReports <+: j'.wonkyWorkReports
  offenders : j.offendingValidators <+: j'.offendingValidators

def NewlyCondemned (j j' : Judgements) (hash : Hash) : Prop :=
  (hash ∈ j'.badWorkReports ∧ hash ∉ j.badWorkReports) ∨
    (hash ∈ j'.wonkyWorkReports ∧ hash ∉ j.wonkyWorkReports)

structure DisputeInput where
  newTimeslot : Timeslot
  disputes : DisputeExtrinsic
  validators : ValidatorState

def judge (prims : Primitives) (j : Judgements) (input : DisputeInput) :
    Outcome (Judgements × Option TransitionError) := do
  match ← calculateNewJudgements prims input.newTimeslot input.disputes j input.validators with
  | .ok j' => return (j', none)
  | .error e => return (j, some e)

def judgeAll (prims : Primitives) (inputs : List DisputeInput) (j : Judgements) :
    Outcome Judgements :=
  inputs.foldlM (fun j input => do return (← judge prims j input).1) j

variable {input : DisputeInput} {inputs : List DisputeInput}

theorem mem_reportsWith {positive : Nat} {hash : Hash} :
    hash ∈ reportsWith positive verdicts ↔ ∃ verdict ∈ verdicts,
      positives verdict = positive ∧ verdict.reportHash = hash := by
  simp [reportsWith, and_assoc]

theorem nodup_reportsWith {positive : Nat}
    (h : (verdicts.map (·.reportHash)).Nodup) : (reportsWith positive verdicts).Nodup :=
  (List.filter_sublist.map _).nodup h

theorem disjoint_reportsWith {n m : Nat} (h : (verdicts.map (·.reportHash)).Nodup) (hne : n ≠ m) :
    (reportsWith n verdicts).Disjoint (reportsWith m verdicts) := by
  intro hash hn hm
  obtain ⟨v, hv, hcount, rfl⟩ := mem_reportsWith.mp hn
  obtain ⟨w, hw, hcount', heq⟩ := mem_reportsWith.mp hm
  rw [List.inj_on_of_nodup_map h hw hv heq] at hcount'
  exact hne (hcount.symm.trans hcount')

theorem judgementsAfter_extends : Extends j (judgementsAfter ds j) where
  good := List.prefix_append _ _
  bad := List.prefix_append _ _
  wonky := List.prefix_append _ _
  offenders := prefix_addOffenders.trans prefix_addOffenders

theorem disjoint_append_append {α : Type} {l l' new new' : List α} (hold : l.Disjoint l')
    (hnew : new.Disjoint new') (h : ∀ a ∈ new, a ∉ l') (h' : ∀ a ∈ new', a ∉ l) :
    (l ++ new).Disjoint (l' ++ new') := by
  rw [List.disjoint_append_left, List.disjoint_append_right, List.disjoint_append_right]
  exact ⟨⟨hold, fun a ha ha' => h' a ha' ha⟩, h, hnew⟩

theorem consistent_judgementsAfter (hj : Consistent j)
    (h : DisputesAccepted prims slot ds j validators) :
    Consistent (judgementsAfter ds j) := by
  have hnodup := nodup_of_bytesLt h.verdictsSorted
  have hnew : ∀ {n hash}, hash ∈ reportsWith n ds.verdicts → hash ∉ j.goodWorkReports ∧
      hash ∉ j.badWorkReports ∧ hash ∉ j.wonkyWorkReports := by
    intro n hash hhash
    obtain ⟨verdict, hverdict, -, rfl⟩ := mem_reportsWith.mp hhash
    exact h.notJudged verdict hverdict
  have happend : ∀ {l : List Hash} {n : Nat}, l.Nodup →
      (∀ hash ∈ reportsWith n ds.verdicts, hash ∉ l) →
      (l ++ reportsWith n ds.verdicts).Nodup := by
    intro l n hl hdisjoint
    refine hl.append (nodup_reportsWith hnodup) ?_
    intro hash hmem hmem'
    exact hdisjoint hash hmem' hmem
  constructor
  · exact happend hj.good_nodup fun _ h => (hnew h).1
  · exact happend hj.bad_nodup fun _ h => (hnew h).2.1
  · exact happend hj.wonky_nodup fun _ h => (hnew h).2.2
  · exact nodup_addOffenders (nodup_addOffenders hj.offenders_nodup)
  · exact disjoint_append_append hj.good_bad (disjoint_reportsWith hnodup superMajority_ne_zero)
      (fun _ h => (hnew h).2.1) fun _ h => (hnew h).1
  · exact disjoint_append_append hj.good_wonky (disjoint_reportsWith hnodup superMajority_ne_third)
      (fun _ h => (hnew h).2.2) fun _ h => (hnew h).1
  · exact disjoint_append_append hj.bad_wonky (disjoint_reportsWith hnodup third_ne_zero.symm)
      (fun _ h => (hnew h).2.2) fun _ h => (hnew h).2.1

theorem judge_eq_ret {r : Judgements × Option TransitionError} (h : judge prims j input = .ret r) :
    (DisputesAccepted prims input.newTimeslot input.disputes j input.validators ∧
        r = (judgementsAfter input.disputes j, none)) ∨
      ∃ e, r = (j, some e) := by
  obtain ⟨result, hresult, h⟩ := bind_eq_ret.mp h
  cases result with
  | error e =>
    cases h
    exact .inr ⟨e, rfl⟩
  | ok j' =>
    cases h
    obtain ⟨hok, rfl⟩ := calculateNewJudgements_eq_ok.mp hresult
    exact .inl ⟨hok, rfl⟩

theorem consistent_judgeAll (hj : Consistent j) (h : judgeAll prims inputs j = .ret j') :
    Consistent j' := by
  induction inputs generalizing j with
  | nil =>
    cases h
    exact hj
  | cons input inputs ih =>
    obtain ⟨j₁, hj₁, h⟩ := bind_eq_ret.mp h
    obtain ⟨r, hr, hj₁⟩ := bind_eq_ret.mp hj₁
    cases hj₁
    rcases judge_eq_ret hr with ⟨hok, rfl⟩ | ⟨e, rfl⟩
    · exact ih (consistent_judgementsAfter hj hok) h
    · exact ih hj h

theorem consistent_emptyJudgements : Consistent emptyJudgements := by
  constructor <;> simp [emptyJudgements]

section

variable (reportHash : Hash) (epochIndex : UInt32) (judgement : Nat → Judgement)

def verdictOf : Verdict := ⟨reportHash, epochIndex, .ofFn fun i => judgement i.val⟩

variable {reportHash epochIndex judgement}

theorem verdictOf_judgements : (verdictOf reportHash epochIndex judgement).judgements.toList =
      (List.range validatorsSuperMajority).map judgement := by
  rw [verdictOf, Vector.toList_ofFn, List.ofFn_eq_map, ← List.map_coe_finRange_eq_range,
    List.map_map]
  rfl

theorem validatorIndex_toNat {i : Nat} (h : i < numberOfValidators) :
    (UInt16.ofNat i).toNat = i := by
  rw [UInt16.toNat_ofNat', Nat.mod_eq_of_lt]
  exact h.trans (by decide)

variable (hindex : ∀ i, (judgement i).validatorIndex = UInt16.ofNat i)

include hindex

theorem verdictOf_sorted : (verdictOf reportHash epochIndex judgement).judgements.toList.IsChain
      fun a b => a.validatorIndex < b.validatorIndex := by
  rw [verdictOf_judgements, List.isChain_map]
  simp only [hindex]
  decide +kernel

theorem verdictOf_verifies {key : ValidatorKey}
    (h : ∀ i < numberOfValidators, validatorSet[i]? = some (some key) ∧
      prims.ed25519Verify key.ed25519 (voteMessage (judgement i).isValid reportHash)
        (judgement i).signature) :
    ∀ j ∈ (verdictOf reportHash epochIndex judgement).judgements.toList,
      JudgementVerifies prims validatorSet reportHash j := by
  rw [verdictOf_judgements, List.forall_mem_map]
  intro i hi
  have hi : i < numberOfValidators := (List.mem_range.mp hi).trans_le (by decide)
  refine ⟨key, ?_, (h i hi).2⟩
  rw [hindex, validatorIndex_toNat hi, (h i hi).1]

end

def splitJudgement (i : Nat) : Judgement :=
  ⟨i < numberOfValidators / 3, UInt16.ofNat i, .replicate 64 0⟩

def splitVerdict (epochIndex : UInt32) : Verdict :=
  verdictOf (.replicate 32 0) epochIndex splitJudgement

def splitDispute (epochIndex : UInt32) : DisputeExtrinsic := ⟨[splitVerdict epochIndex], [], []⟩

variable {epochIndex : UInt32}

theorem splitVerdict_votes : positives (splitVerdict epochIndex) = numberOfValidators / 3 := by
  rw [positives, countPositiveJudgments, splitVerdict, verdictOf_judgements, List.countP_map]
  decide +kernel

theorem splitDispute_accepted
    (h : VerdictVerifies prims slot validators (splitVerdict epochIndex)) :
    DisputesAccepted prims slot (splitDispute epochIndex) emptyJudgements validators where
  faultsSorted := .nil
  verdictsSorted := .singleton _
  judgementsSorted := List.forall_mem_singleton.mpr (verdictOf_sorted fun _ => rfl)
  culpritsSorted := .nil
  verdictsSigned := List.forall_mem_singleton.mpr h
  culpritsSigned := nofun
  faultsSigned := nofun
  notJudged := List.forall_mem_singleton.mpr ⟨nofun, nofun, nofun⟩
  faultVotes := nofun
  faultsNew := nofun
  verdictsSupported := List.forall_mem_singleton.mpr (.wonky splitVerdict_votes)
  culpritsCondemned := nofun
  culpritsBad := nofun
  culpritsNew := nofun

def zeroValidatorState : ValidatorState where
  currentValidators := zeroValidators
  archivedValidators := zeroValidators
  queuedValidators := zeroValidators
  safroleState := ⟨zeroValidators, [], .none, .replicate 144 0⟩

theorem zeroValidators_get {i : Nat} (h : i < numberOfValidators) :
    zeroValidators[i]? = some (some .zero) := by
  rw [zeroValidators, Vector.getElem?_replicate, if_pos h]

theorem splitVerdict_verifies :
    VerdictVerifies accepting 0 zeroValidatorState (splitVerdict 0) where
  judgements := verdictOf_verifies (fun _ => rfl) fun i hi => ⟨zeroValidators_get hi, rfl⟩
  notNewer := by decide
  notOlder := by decide

theorem wonky_splitDispute :
    (judgementsAfter (splitDispute 0) emptyJudgements).wonkyWorkReports = [.replicate 32 0] := by
  change [] ++ reportsWith (numberOfValidators / 3) [splitVerdict 0] = _
  rw [List.nil_append, reportsWith_singleton, if_pos splitVerdict_votes]
  rfl

theorem newlyCondemned_splitDispute : NewlyCondemned emptyJudgements
    (judgementsAfter (splitDispute 0) emptyJudgements) (.replicate 32 0) := by
  refine .inr ⟨?_, nofun⟩
  rw [wonky_splitDispute]
  exact List.mem_singleton_self _

theorem calculateNewJudgements_splitDispute :
    calculateNewJudgements accepting 0 (splitDispute 0) emptyJudgements
      zeroValidatorState = .ok (judgementsAfter (splitDispute 0) emptyJudgements) :=
  calculateNewJudgements_eq_ok.mpr ⟨splitDispute_accepted splitVerdict_verifies, rfl⟩

/-- Judgements stay consistent, and only grow. -/
theorem judgements_invariant (prims : Primitives) (inputs : List DisputeInput) (j : Judgements)
    (h : judgeAll prims inputs emptyJudgements = .ret j) :
    Consistent j ∧ ∀ input r, judge prims j input = .ret r →
      Consistent r.1 ∧ Extends j r.1 ∧ (r.2 ≠ none → r.1 = j) := by
  have hj : Consistent j := consistent_judgeAll consistent_emptyJudgements h
  refine ⟨hj, ?_⟩
  intro input r hr
  rcases judge_eq_ret hr with ⟨hok, rfl⟩ | ⟨e, rfl⟩
  · exact ⟨consistent_judgementsAfter hj hok, judgementsAfter_extends,
      fun herror => absurd rfl herror⟩
  · exact ⟨hj, ⟨List.prefix_refl _, List.prefix_refl _, List.prefix_refl _, List.prefix_refl _⟩,
      fun _ => rfl⟩

theorem judgements_invariant_splitDispute :
    ∃ j, judgeAll accepting [⟨0, splitDispute 0, zeroValidatorState⟩] emptyJudgements =
        .ret j ∧
      j.wonkyWorkReports = [.replicate 32 0] ∧ Consistent j := by
  have hrun : judgeAll accepting [⟨0, splitDispute 0, zeroValidatorState⟩]
      emptyJudgements = .ret (judgementsAfter (splitDispute 0) emptyJudgements) := by
    unfold judgeAll
    rw [List.foldlM_cons, judge, calculateNewJudgements_splitDispute]
    rfl
  refine ⟨_, hrun, ?_, (judgements_invariant accepting _ _ hrun).1⟩
  exact wonky_splitDispute

structure Quorum (prims : Primitives) (validators : ValidatorState) (verdict : Verdict) : Prop where
  distinct : (verdict.judgements.toList.map (·.validatorIndex)).Nodup
  voters : (verdict.judgements.toList.map (·.validatorIndex)).length = 2 * numberOfValidators / 3 + 1
  signed : ∃ validatorSet,
    (validatorSet = validators.currentValidators ∨ validatorSet = validators.archivedValidators) ∧
      ∀ judgement ∈ verdict.judgements.toList,
        JudgementVerifies prims validatorSet verdict.reportHash judgement

variable {hash : Hash}

theorem quorum_of_accepted (h : DisputesAccepted prims slot ds j validators)
    (hverdict : verdict ∈ ds.verdicts) : Quorum prims validators verdict where
  distinct := (ranked_of_isChain (h.judgementsSorted verdict hverdict)).nodup_keys
  voters := by
    rw [List.length_map, Vector.length_toList]
    rfl
  signed := by
    refine ⟨_, ?_, (h.verdictsSigned verdict hverdict).judgements⟩
    unfold verdictSet
    split
    · exact .inl rfl
    · exact .inr rfl

theorem mem_append_reportsWith {n : Nat} {l : List Hash}
    (hnodup : (ds.verdicts.map (·.reportHash)).Nodup) (hverdict : verdict ∈ ds.verdicts)
    (hl : verdict.reportHash ∉ l) :
    verdict.reportHash ∈ l ++ reportsWith n ds.verdicts ↔ positives verdict = n := by
  rw [List.mem_append, or_iff_right hl, mem_reportsWith]
  constructor
  · rintro ⟨v, hv, hcount, heq⟩
    rwa [List.inj_on_of_nodup_map hnodup hv hverdict heq] at hcount
  · intro hcount
    exact ⟨verdict, hverdict, hcount, rfl⟩

theorem exists_verdict {n : Nat} {l : List Hash}
    (h : hash ∈ l ++ reportsWith n ds.verdicts ∧ hash ∉ l) :
    ∃ verdict ∈ ds.verdicts, verdict.reportHash = hash := by
  rw [List.mem_append, and_comm, and_or_left] at h
  rcases h with ⟨hnot, hmem⟩ | ⟨-, hmem⟩
  · exact absurd hmem hnot
  · obtain ⟨verdict, hverdict, -, heq⟩ := mem_reportsWith.mp hmem
    exact ⟨verdict, hverdict, heq⟩

/-- Every new judgement rests on the votes of a quorum. -/
theorem verdict_quorum (prims : Primitives) (slot : Timeslot) (ds : DisputeExtrinsic)
    (j j' : Judgements) (validators : ValidatorState)
    (h : calculateNewJudgements prims slot ds j validators = .ok j') (hash : Hash)
    (hnew : (hash ∈ j'.goodWorkReports ∧ hash ∉ j.goodWorkReports) ∨
      (hash ∈ j'.badWorkReports ∧ hash ∉ j.badWorkReports) ∨
      (hash ∈ j'.wonkyWorkReports ∧ hash ∉ j.wonkyWorkReports)) :
    ∃ verdict ∈ ds.verdicts, verdict.reportHash = hash ∧ Quorum prims validators verdict ∧
      (hash ∈ j'.goodWorkReports ↔
        countPositiveJudgments verdict.judgements = 2 * numberOfValidators / 3 + 1) ∧
      (hash ∈ j'.wonkyWorkReports ↔
        countPositiveJudgments verdict.judgements = numberOfValidators / 3) ∧
      (hash ∈ j'.badWorkReports ↔ countPositiveJudgments verdict.judgements = 0) := by
  obtain ⟨hok, rfl⟩ := calculateNewJudgements_eq_ok.mp h
  have hverdict : ∃ verdict ∈ ds.verdicts, verdict.reportHash = hash := by
    rcases hnew with hgood | hbad | hwonky
    · exact exists_verdict hgood
    · exact exists_verdict hbad
    · exact exists_verdict hwonky
  obtain ⟨verdict, hverdict, rfl⟩ := hverdict
  have hnodup := nodup_of_bytesLt hok.verdictsSorted
  obtain ⟨hgood, hbad, hwonky⟩ := hok.notJudged verdict hverdict
  exact ⟨verdict, hverdict, rfl, quorum_of_accepted hok hverdict,
    mem_append_reportsWith hnodup hverdict hgood, mem_append_reportsWith hnodup hverdict hwonky,
    mem_append_reportsWith hnodup hverdict hbad⟩

theorem verdict_quorum_splitDispute :
    ∃ verdict ∈ (splitDispute 0).verdicts, verdict.reportHash = .replicate 32 0 ∧
      Quorum accepting zeroValidatorState verdict := by
  obtain ⟨verdict, hverdict, hhash, hquorum, -⟩ := verdict_quorum accepting 0
    (splitDispute 0) emptyJudgements _ zeroValidatorState calculateNewJudgements_splitDispute
    (.replicate 32 0) (.inr newlyCondemned_splitDispute)
  exact ⟨verdict, hverdict, hhash, hquorum⟩

variable {table : CoreAssignments} {core : Core} {assignment : Assignment}

theorem condemns_iff : condemns prims verdict assignment ↔
    positives verdict < validatorsSuperMajority ∧
      assignmentHash prims assignment = .ok verdict.reportHash := by
  unfold condemns
  cases assignmentHash prims assignment with
  | error | ok => simp

theorem get_cleared_iff (h : table.get core = some assignment) :
    (calculateIntermediateCoreAssignmentsFromExtrinsics prims ds table).get core = none ↔
      ∃ verdict ∈ ds.verdicts, positives verdict < validatorsSuperMajority ∧
          assignmentHash prims assignment = .ok verdict.reportHash := by
  rw [get_calculateIntermediateCoreAssignmentsFromExtrinsics, h, Option.filter_eq_none_iff]
  constructor
  · intro hnone
    have hsome := hnone _ rfl
    rw [Bool.not_eq_true, List.all_eq_false] at hsome
    obtain ⟨verdict, hverdict, hcondemns⟩ := hsome
    rw [Bool.not_eq_true, Bool.not_eq_false'] at hcondemns
    exact ⟨verdict, hverdict, condemns_iff.mp hcondemns⟩
  · rintro ⟨verdict, hverdict, hcondemns⟩ a ha hall
    cases ha
    have hnot := List.all_eq_true.mp hall verdict hverdict
    rw [condemns_iff.mpr hcondemns] at hnot
    cases hnot

theorem get_cleared_or_kept :
    (calculateIntermediateCoreAssignmentsFromExtrinsics prims ds table).get core = none ∨
    (calculateIntermediateCoreAssignmentsFromExtrinsics prims ds table).get core =
      table.get core := by
  rw [get_calculateIntermediateCoreAssignmentsFromExtrinsics]
  cases table.get core with
  | none => exact .inl rfl
  | some assignment =>
    rw [Option.filter_some]
    split
    · exact .inr rfl
    · exact .inl rfl

theorem newlyCondemned_iff (h : DisputesAccepted prims slot ds j validators) :
    NewlyCondemned j (judgementsAfter ds j) hash ↔ ∃ verdict ∈ ds.verdicts,
      positives verdict < validatorsSuperMajority ∧ verdict.reportHash = hash := by
  constructor
  · rintro (⟨hmem, hnot⟩ | ⟨hmem, hnot⟩) <;>
    · obtain ⟨verdict, hverdict, hvotes, heq⟩ :=
        mem_reportsWith.mp ((List.mem_append.mp hmem).resolve_left hnot)
      exact ⟨verdict, hverdict, hvotes ▸ by decide, heq⟩
  · rintro ⟨verdict, hverdict, hless, rfl⟩
    obtain ⟨-, hbad, hwonky⟩ := h.notJudged verdict hverdict
    cases h.verdictsSupported verdict hverdict with
    | good votes _ => omega
    | bad votes _ =>
      exact .inl ⟨List.mem_append_right _ (mem_reportsWith.mpr ⟨_, hverdict, votes, rfl⟩), hbad⟩
    | wonky votes =>
      exact .inr ⟨List.mem_append_right _ (mem_reportsWith.mpr ⟨_, hverdict, votes, rfl⟩), hwonky⟩

/-- The disputes clear the condemned reports and no others. -/
theorem disputes_clear_condemned (prims : Primitives) (slot : Timeslot)
    (ds : DisputeExtrinsic) (j j' : Judgements) (validators : ValidatorState)
    (h : calculateNewJudgements prims slot ds j validators = .ok j')
    (table : CoreAssignments) (core : Core) :
    (∀ assignment, table.get core = some assignment →
      ((calculateIntermediateCoreAssignmentsFromExtrinsics prims ds table).get core = none ↔
        ∃ hash, assignmentHash prims assignment = .ok hash ∧ NewlyCondemned j j' hash)) ∧
    ((calculateIntermediateCoreAssignmentsFromExtrinsics prims ds table).get core ≠ none →
      (calculateIntermediateCoreAssignmentsFromExtrinsics prims ds table).get core =
        table.get core) := by
  obtain ⟨hok, rfl⟩ := calculateNewJudgements_eq_ok.mp h
  refine ⟨?_, get_cleared_or_kept.resolve_left⟩
  intro assignment hassignment
  rw [get_cleared_iff hassignment]
  constructor
  · rintro ⟨verdict, hverdict, hless, hhash⟩
    exact ⟨_, hhash, (newlyCondemned_iff hok).mpr ⟨verdict, hverdict, hless, rfl⟩⟩
  · rintro ⟨hash, hhash, hnew⟩
    obtain ⟨verdict, hverdict, hless, rfl⟩ := (newlyCondemned_iff hok).mp hnew
    exact ⟨verdict, hverdict, hless, hhash⟩

theorem splitDispute_clears_first_core :
    (calculateIntermediateCoreAssignmentsFromExtrinsics accepting (splitDispute 0)
      pendingOnFirstCore).get ⟨0, by decide⟩ = none := by
  exact ((disputes_clear_condemned _ _ _ _ _ _ calculateNewJudgements_splitDispute
    pendingOnFirstCore ⟨0, by decide⟩).1 ⟨some emptyReport, 0⟩ (by
      rw [pendingOnFirstCore, get_ofFn, if_pos rfl])).mpr
      ⟨.replicate 32 0, by decide +kernel, newlyCondemned_splitDispute⟩

end Strawberry.StateTransition
