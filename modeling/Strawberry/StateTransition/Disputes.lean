import Strawberry.Lib.Tables
import Strawberry.StateTransition.Safrole

/-!
# Disputes

The checks of the disputes of a block, and what they add to the judgements.
-/

namespace Strawberry.StateTransition

open Block State Constants

variable (prims : Primitives)

def assignmentHash (assignment : Assignment) : Except Jam.JamError Hash :=
  match assignment.workReport with
  | none => .ok (prims.hashData [])
  | some w => w.hash prims.hashData

def condemns (verdict : Verdict) (assignment : Assignment) : Bool :=
  countPositiveJudgments verdict.judgements < validatorsSuperMajority &&
    match assignmentHash prims assignment with
    | .ok hash => hash = verdict.reportHash
    | .error _ => false

def calculateIntermediateCoreAssignmentsFromExtrinsics (disputes : DisputeExtrinsic)
    (coreAssignments : CoreAssignments) : CoreAssignments :=
  disputes.verdicts.foldl (fun assignments verdict =>
      assignments.map fun a => a.filter fun assignment => !condemns prims verdict assignment)
    coreAssignments

theorem get_calculateIntermediateCoreAssignmentsFromExtrinsics (disputes : DisputeExtrinsic)
    (coreAssignments : CoreAssignments) (core : Core) :
    (calculateIntermediateCoreAssignmentsFromExtrinsics prims disputes coreAssignments).get core =
      (coreAssignments.get core).filter fun assignment =>
        disputes.verdicts.all fun verdict => !condemns prims verdict assignment := by
  unfold calculateIntermediateCoreAssignmentsFromExtrinsics
  generalize disputes.verdicts = verdicts
  induction verdicts generalizing coreAssignments with
  | nil =>
    cases h : coreAssignments.get core with
    | none | some => exact h
  | cons verdict verdicts ih =>
    rw [List.foldl_cons, ih, get_map, Option.filter_filter]
    rfl

def verifySortedUnique (disputes : DisputeExtrinsic) : Except TransitionError Unit := do
  check (disputes.faults.IsChain fun a b =>
    bytesLt a.validatorEd25519PublicKey b.validatorEd25519PublicKey) .faultsNotSortedUnique
  check (disputes.verdicts.IsChain fun a b => bytesLt a.reportHash b.reportHash)
    .verdictsNotSortedUnique
  check (disputes.verdicts.all fun verdict =>
    verdict.judgements.toList.IsChain fun a b => a.validatorIndex < b.validatorIndex)
    .judgementsNotSortedUnique

def voteMessage (isValid : Bool) (reportHash : Hash) : List UInt8 :=
  ascii (if isValid then "jam_valid" else "jam_invalid") ++ reportHash.toList

def guaranteeMessage (reportHash : Hash) : List UInt8 :=
  ascii "jam_guarantee" ++ reportHash.toList

def ed25519Of (validators : ValidatorsData) (index : Nat) : Outcome Ed25519Key :=
  match validators[index]? with
  | none => .crash .indexOutOfRange
  | some none => .crash .nilDereference
  | some (some key) => .ret key.ed25519

def verifyJudgements (validatorSet : ValidatorsData) (reportHash : Hash) :
    List Judgement → Call TransitionError Unit
  | [] => .ok ()
  | judgment :: judgements => do
    Call.check (judgment.validatorIndex.toNat < numberOfValidators) .invalidValidatorIndex
    let key ← ed25519Of validatorSet judgment.validatorIndex.toNat
    Call.check (prims.ed25519Verify key (voteMessage judgment.isValid reportHash)
      judgment.signature) .badSignature
    verifyJudgements validatorSet reportHash judgements

def verifyVerdictSignatures (newTimeslot : Timeslot) (verdict : Verdict)
    (currentValidators archivedValidators : ValidatorsData) : Call TransitionError Unit := do
  let currentEpoch := toEpoch newTimeslot
  let validatorSet :=
    if verdict.epochIndex = currentEpoch then currentValidators else archivedValidators
  verifyJudgements prims validatorSet verdict.reportHash verdict.judgements.toList
  Call.check (verdict.epochIndex ≤ currentEpoch) .badJudgementAge
  Call.check (currentEpoch - verdict.epochIndex ≤ 1) .badJudgementAge

def verifyCulpritSignature (culprit : Culprit) : Except TransitionError Unit :=
  check (prims.ed25519Verify culprit.validatorEd25519PublicKey
    (guaranteeMessage culprit.reportHash) culprit.signature) .badSignature

def verifyFaultSignature (fault : Block.Fault) : Except TransitionError Unit :=
  check (prims.ed25519Verify fault.validatorEd25519PublicKey
    (voteMessage fault.isValid fault.reportHash) fault.signature) .badSignature

def verifyAllVerdicts (newTimeslot : Timeslot) (validators : ValidatorState) :
    List Verdict → Call TransitionError Unit
  | [] => .ok ()
  | verdict :: verdicts => do
    verifyVerdictSignatures prims newTimeslot verdict validators.currentValidators
      validators.archivedValidators
    verifyAllVerdicts newTimeslot validators verdicts

def verifyAllSignatures (newTimeslot : Timeslot) (disputes : DisputeExtrinsic)
    (validators : ValidatorState) : Call TransitionError Unit := do
  verifyAllVerdicts prims newTimeslot validators disputes.verdicts
  (disputes.culprits.forM (verifyCulpritSignature prims) : Except TransitionError Unit)
  (disputes.faults.forM (verifyFaultSignature prims) : Except TransitionError Unit)

def verifyNotAlreadyOffending (faults : List Block.Fault) (offendingValidators : List Ed25519Key) :
    Except TransitionError Unit :=
  faults.forM fun fault =>
    check (fault.validatorEd25519PublicKey ∉ offendingValidators) .offenderAlreadyReported

def verifyNotAlreadyJudged (verdicts : List Verdict) (stateJudgements : Judgements) :
    Except TransitionError Unit :=
  verdicts.forM fun verdict =>
    check (verdict.reportHash ∉ stateJudgements.goodWorkReports ∧
      verdict.reportHash ∉ stateJudgements.badWorkReports ∧
      verdict.reportHash ∉ stateJudgements.wonkyWorkReports) .alreadyJudged

def allPositive (verdicts : List Verdict) (reportHash : Hash) : Bool :=
  match verdicts.find? (·.reportHash = reportHash) with
  | none => false
  | some verdict => countPositiveJudgments verdict.judgements = validatorsSuperMajority

def verifyFaults (faults : List Block.Fault) (verdicts : List Verdict)
    (offendingValidators : List Ed25519Key) : Except TransitionError Unit :=
  faults.forM fun fault => do
    check (fault.isValid ≠ allPositive verdicts fault.reportHash) .faultVerdictWrong
    check (fault.validatorEd25519PublicKey ∉ offendingValidators) .offenderAlreadyReported
    verifyFaultSignature prims fault

def verifyCulprits (culprits : List Culprit) (badReports : List Hash)
    (offendingValidators : List Ed25519Key) : Except TransitionError Unit := do
  check (culprits.IsChain fun a b =>
    bytesLt a.validatorEd25519PublicKey b.validatorEd25519PublicKey) .culpritsNotSortedUnique
  culprits.forM fun culprit => do
    verifyCulpritSignature prims culprit
    check (culprit.reportHash ∈ badReports) .culpritsVerdictNotBad
    check (culprit.validatorEd25519PublicKey ∉ offendingValidators) .offenderAlreadyReported

def addOffender (offenders : List Ed25519Key) (key : Ed25519Key) : List Ed25519Key :=
  if key ∈ offenders then offenders else offenders ++ [key]

def processPositiveVerdict (verdict : Verdict) (faults : List Block.Fault)
    (newJudgements : Judgements) : Except TransitionError Judgements := do
  let validFaults := faults.filter fun fault =>
    fault.reportHash = verdict.reportHash && !fault.isValid
  check (!validFaults.isEmpty) .notEnoughFaults
  return { newJudgements with
    offendingValidators := (validFaults.map (·.validatorEd25519PublicKey)).foldl addOffender
      newJudgements.offendingValidators
    goodWorkReports := newJudgements.goodWorkReports ++ [verdict.reportHash] }

def processNegativeVerdict (verdict : Verdict) (culprits : List Culprit)
    (newJudgements : Judgements) : Except TransitionError Judgements := do
  check (2 ≤ culprits.length) .notEnoughCulprits
  return { newJudgements with
    badWorkReports := newJudgements.badWorkReports ++ [verdict.reportHash] }

def processWonkyVerdict (verdict : Verdict) (newJudgements : Judgements) : Judgements :=
  { newJudgements with wonkyWorkReports := newJudgements.wonkyWorkReports ++ [verdict.reportHash] }

def processVerdict (disputes : DisputeExtrinsic) (newJudgements : Judgements) (verdict : Verdict) :
    Except TransitionError Judgements :=
  let positiveJudgments := countPositiveJudgments verdict.judgements
  if positiveJudgments = 2 * numberOfValidators / 3 + 1 then
    processPositiveVerdict verdict disputes.faults newJudgements
  else if positiveJudgments = 0 then
    processNegativeVerdict verdict disputes.culprits newJudgements
  else if positiveJudgments = numberOfValidators / 3 then
    .ok (processWonkyVerdict verdict newJudgements)
  else .error .badVoteSplit

def processVerdicts (disputes : DisputeExtrinsic) (newJudgements : Judgements) :
    Except TransitionError Judgements :=
  disputes.verdicts.foldlM (processVerdict disputes) newJudgements

def checkCulprit (verdicts : List Verdict) (culprit : Culprit) : Except TransitionError Unit :=
  match verdicts.find? (·.reportHash = culprit.reportHash) with
  | none => .error .culpritsVerdictNotBad
  | some verdict => check (countPositiveJudgments verdict.judgements = 0) .badVoteSplit

def processCulprits (culprits : List Culprit) (verdicts : List Verdict)
    (newJudgements : Judgements) : Except TransitionError Judgements := do
  culprits.forM (checkCulprit verdicts)
  verifyCulprits prims culprits newJudgements.badWorkReports newJudgements.offendingValidators
  return { newJudgements with
    offendingValidators := (culprits.map (·.validatorEd25519PublicKey)).foldl addOffender
      newJudgements.offendingValidators }

def calculateNewJudgements (newTimeslot : Timeslot) (disputes : DisputeExtrinsic)
    (stateJudgements : Judgements) (validators : ValidatorState) :
    Call TransitionError Judgements := do
  verifySortedUnique disputes
  verifyAllSignatures prims newTimeslot disputes validators
  verifyNotAlreadyOffending disputes.faults stateJudgements.offendingValidators
  verifyNotAlreadyJudged disputes.verdicts stateJudgements
  verifyFaults prims disputes.faults disputes.verdicts stateJudgements.offendingValidators
  let newJudgements ← processVerdicts disputes stateJudgements
  processCulprits prims disputes.culprits disputes.verdicts newJudgements

end Strawberry.StateTransition
