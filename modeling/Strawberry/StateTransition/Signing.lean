import Strawberry.StateTransition.Guarantors

/-!
# Signing and verifying

What a guarantor signs and what the verifier of a g, and of a culprit, checks: they hash
different octets.
-/

namespace Strawberry.Results

open Block

inductive GuaranteeError where
  | encodeWorkReport (cause : Jam.JamError)
  deriving DecidableEq

def hashCoreIndexWithWorkReport (H : HashData) (workReport : WorkReport)
    (coreIndex : UInt16) : Except GuaranteeError Hash :=
  match workReport.encode with
  | .error e => .error (.encodeWorkReport e)
  | .ok encodedWorkReport => .ok (H (encodeUint16 coreIndex ++ encodedWorkReport))

section

variable {PrivateKey : Type} (sign : PrivateKey → List UInt8 → Ed25519Signature)

def generateCredentialSignature (guarantorPrivateKey : PrivateKey) (guarantorIndex : UInt16)
    (reportPayloadHash : Hash) : CredentialSignature where
  validatorIndex := guarantorIndex
  signature := sign guarantorPrivateKey (StateTransition.guaranteeMessage reportPayloadHash)

def initialCredential (H : HashData) (guarantorPrivateKey : PrivateKey)
    (guarantorIndex : UInt16) (workReport : WorkReport) (coreIndex : UInt16) :
    Except GuaranteeError CredentialSignature :=
  match hashCoreIndexWithWorkReport H workReport coreIndex with
  | .error e => .error e
  | .ok payloadHash =>
    .ok (generateCredentialSignature sign guarantorPrivateKey guarantorIndex payloadHash)

variable {H : HashData} {key : PrivateKey} {coreIndex index : UInt16}
  {report : WorkReport}

theorem initialCredential_of_encode {bytes : List UInt8} (h : report.encodeStruct = .ok bytes) :
    initialCredential sign H key index report coreIndex =
      .ok (generateCredentialSignature sign key index
        (H (encodeUint16 coreIndex ++ 1 :: bytes))) := by
  unfold initialCredential hashCoreIndexWithWorkReport WorkReport.encode
  rw [h]

theorem initialCredential_of_error {e : Jam.JamError} (h : report.encodeStruct = .error e) :
    initialCredential sign H key index report coreIndex =
      .error (.encodeWorkReport e) := by
  unfold initialCredential hashCoreIndexWithWorkReport WorkReport.encode
  rw [h]

end

end Strawberry.Results

namespace Strawberry.StateTransition

open Block State Constants Results List

def CollisionFree (H : HashData) (a b : List UInt8) : Prop := H a = H b → a = b

structure ExactSignatures (prims : Primitives) {PrivateKey : Type}
    (publicKey : PrivateKey → Ed25519Key) (sign : PrivateKey → List UInt8 → Ed25519Signature) :
    Prop where
  verify_iff : ∀ key signed hash, prims.ed25519Verify (publicKey key) (guaranteeMessage hash)
        (sign key (guaranteeMessage signed)) = true ↔
      hash = signed

def BindingSignatures (prims : Primitives) : Prop :=
  ∀ key key' hash hash' signature, prims.ed25519Verify key (guaranteeMessage hash) signature →
    prims.ed25519Verify key' (guaranteeMessage hash') signature → hash = hash'

variable {prims : Primitives} {PrivateKey : Type} {publicKey : PrivateKey → Ed25519Key}
  {sign : PrivateKey → List UInt8 → Ed25519Signature} {report : WorkReport}
  {coreIndex index : UInt16} {bytes : List UInt8} {key : PrivateKey}
  {vs : ValidatorState} {pool : EntropyPool} {slot timeslot : Timeslot}
  {validator : ValidatorKey}

theorem credential_not_vouched (hexact : ExactSignatures prims publicKey sign)
    (hbytes : report.encodeStruct = .ok bytes)
    (hfree : CollisionFree prims.hashData bytes (encodeUint16 coreIndex ++ 1 :: bytes))
    (hvalidator : (guarantorData vs pool slot
      ⟨report, timeslot, []⟩).1[index.toNat]? = some (some validator))
    (hkey : validator.ed25519 = publicKey key) :
    ¬ Vouched prims vs pool slot ⟨report, timeslot, [generateCredentialSignature sign key index
        (prims.hashData (encodeUint16 coreIndex ++ 1 :: bytes))]⟩ := by
  intro hvouched
  obtain ⟨bytes', hbytes', hverifies⟩ := vouched_iff.mp hvouched
  obtain rfl : bytes = bytes' := Except.ok.inj (hbytes.symm.trans hbytes')
  obtain ⟨-, validator', hvalidator', hsigned⟩ := hverifies _ (mem_singleton_self _)
  obtain rfl : validator = validator' :=
    Option.some.inj (Option.some.inj (hvalidator.symm.trans hvalidator'))
  rw [hkey] at hsigned
  have hhash := (hexact.verify_iff _ _ _).mp hsigned
  have hlen := congrArg List.length (hfree hhash)
  rw [length_append, length_cons] at hlen
  omega

/-- When the verifier takes a credential of the guarantor. -/
theorem producer_verifier_agree_iff (prims : Primitives) {PrivateKey : Type}
    (publicKey : PrivateKey → Ed25519Key) (sign : PrivateKey → List UInt8 → Ed25519Signature)
    (hexact : ExactSignatures prims publicKey sign) (report : WorkReport) (coreIndex : UInt16)
    (hfree : ∀ bytes, report.encodeStruct = .ok bytes →
      CollisionFree prims.hashData bytes (encodeUint16 coreIndex ++ 1 :: bytes))
    (key : PrivateKey) (index : UInt16) (vs : ValidatorState)
    (pool : EntropyPool) (slot timeslot : Timeslot)
    (hassigned : isValidatorAssignedToCore index report.coreIndex
      (guarantorCores prims vs pool slot ⟨report, timeslot, []⟩))
    (validator : ValidatorKey)
    (hvalidator : (guarantorData vs pool slot
      ⟨report, timeslot, []⟩).1[index.toNat]? = some (some validator))
    (hkey : validator.ed25519 = publicKey key) :
    (∀ bytes, report.encodeStruct = .ok bytes → Vouched prims vs pool slot ⟨report, timeslot,
        [generateCredentialSignature sign key index (prims.hashData bytes)]⟩) ∧
    ((∀ credential, initialCredential sign prims.hashData key index report coreIndex =
          .ok credential →
        Vouched prims vs pool slot ⟨report, timeslot, [credential]⟩) ↔
      ∃ e, report.encodeStruct = .error e) := by
  refine ⟨?_, ?_, ?_⟩
  · intro bytes hbytes
    refine vouched_iff.mpr ⟨bytes, hbytes, forall_mem_singleton.mpr ?_⟩
    refine ⟨hassigned, validator, hvalidator, ?_⟩
    rw [hkey]
    exact (hexact.verify_iff _ _ _).mpr rfl
  · intro hagree
    cases henc : report.encodeStruct with
    | error e => exact ⟨e, rfl⟩
    | ok bytes =>
      have hvouched := hagree _ (initialCredential_of_encode sign henc)
      exact absurd hvouched
        (credential_not_vouched hexact henc (hfree bytes henc) hvalidator hkey)
  · rintro ⟨e, he⟩ credential hcredential
    rw [initialCredential_of_error sign he] at hcredential
    cases hcredential

def openSignature (message : List UInt8) : Ed25519Signature := toArray 64 message

def lengthHash (bytes : List UInt8) : Hash := .replicate 32 (UInt8.ofNat (bytes.length - 36))

def openPrimitives : Primitives :=
  { accepting with
    hashData := lengthHash
    ed25519Verify := fun _ message signature => signature = openSignature message }

theorem openPrimitives_verify {key : Ed25519Key} {message : List UInt8}
    {signature : Ed25519Signature} :
    openPrimitives.ed25519Verify key message signature = true ↔ signature = openSignature message :=
  decide_eq_true_iff

variable {a b : List UInt8}

theorem toArray_inj {n : Nat} (hlen : a.length = b.length)
    (hle : a.length ≤ n) (h : toArray n a = toArray n b) : a = b := by
  apply ext_getElem hlen
  intro i ha hb
  have hget := congrArg (Vector.get · ⟨i, ha.trans_le hle⟩) h
  unfold toArray at hget
  rw [get_ofFn, get_ofFn] at hget
  rwa [getD_eq_getElem _ _ ha, getD_eq_getElem _ _ hb] at hget

theorem guaranteeMessage_length (hash : Hash) : (guaranteeMessage hash).length = 45 := by
  rw [guaranteeMessage, length_append, Vector.length_toList]
  rfl

theorem openSignature_inj {hash hash' : Hash}
    (h : openSignature (guaranteeMessage hash) = openSignature (guaranteeMessage hash')) :
    hash = hash' := by
  have hlen := guaranteeMessage_length hash
  have hmessage := toArray_inj (hlen.trans (guaranteeMessage_length hash').symm) (by omega) h
  exact Vector.toList_inj.mp (append_cancel_left hmessage)

theorem exactSignatures_open :
    ExactSignatures openPrimitives (fun _ : Unit => .replicate 32 0) (fun _ => openSignature) where
  verify_iff _ signed hash := by
    rw [openPrimitives_verify]
    constructor
    · intro h
      exact (openSignature_inj h).symm
    · intro h
      rw [h]

theorem bindingSignatures_open : BindingSignatures openPrimitives := by
  intro key key' hash hash' signature h h'
  have hopen := openPrimitives_verify.mp h
  have hopen' := openPrimitives_verify.mp h'
  exact openSignature_inj (hopen.symm.trans hopen')

theorem lengthHash_ne (ha : 36 ≤ a.length) (hlt : a.length < b.length)
    (hclose : b.length < a.length + 256) : lengthHash a ≠ lengthHash b := by
  intro heq
  have hget := congrArg (Vector.get · ⟨0, by decide⟩) heq
  unfold lengthHash at hget
  rw [get_replicate, get_replicate, ← UInt8.toNat_inj, UInt8.toNat_ofNat',
    UInt8.toNat_ofNat'] at hget
  omega

theorem encodeStruct_length (h : report.encodeStruct = .ok bytes) : 36 ≤ bytes.length := by
  unfold WorkReport.encodeStruct at h
  split at h
  · cases h
  · cases h
    simp only [WorkPackageSpecification.encode, length_append, Vector.length_toList]
    omega

theorem collisionFree_open : ∀ bytes, report.encodeStruct = .ok bytes →
      CollisionFree openPrimitives.hashData bytes (encodeUint16 coreIndex ++ 1 :: bytes) := by
  intro bytes hbytes hcollision
  have hlen := encodeStruct_length hbytes
  have huint : (encodeUint16 coreIndex).length = 2 := Jam.length_toLE _ _
  refine absurd hcollision (lengthHash_ne hlen ?_ ?_)
  · rw [length_append, length_cons]
    omega
  · rw [length_append, length_cons, huint]
    omega

def lastCoreReport : WorkReport := (guaranteeOf emptyReport).workReport

theorem guarantorData_at_600 (report : WorkReport) (credentials : List CredentialSignature) :
    guarantorData zeroValidatorState openState.entropyPool 600 ⟨report, 600, credentials⟩ =
      (zeroValidators, .replicate 32 0, 600) := by
  unfold guarantorData determineValidatorsAndDataForPermutation
  have hentropy : openState.entropyPool.get 2 = .replicate 32 0 := get_replicate _ _
  rw [if_pos rfl, hentropy]
  rfl

theorem validators_assigned (report : WorkReport) (credentials : List CredentialSignature) :
    ∀ i ∈ [(1 : UInt16), 2],
      isValidatorAssignedToCore i 340 (guarantorCores openPrimitives zeroValidatorState
        openState.entropyPool 600 ⟨report, 600, credentials⟩) := by
  rw [guarantorCores, guarantorData_at_600]
  have hpair : ((permuteAssignments openPrimitives (.replicate 32 0) 600).drop 1).take 2 =
      [340, 340] := by
    decide +kernel
  have hget : ∀ n < 2, (permuteAssignments openPrimitives (.replicate 32 0) 600)[1 + n]? =
      [(340 : UInt32), 340][n]? := by
    intro n hn
    rw [← hpair, List.getElem?_take_of_lt hn, List.getElem?_drop]
  intro i hi
  rcases mem_pair.mp hi with rfl | rfl
  · exact decide_eq_true (hget 0 (by decide))
  · exact decide_eq_true (hget 1 (by decide))

theorem validators_present (report : WorkReport) (credentials : List CredentialSignature) :
    ∀ i ∈ [(1 : UInt16), 2], (guarantorData zeroValidatorState openState.entropyPool 600
        ⟨report, 600, credentials⟩).1[i.toNat]? = some (some .zero) := by
  rw [guarantorData_at_600]
  intro i hi
  rcases mem_pair.mp hi with rfl | rfl
  · exact zeroValidators_get (by decide)
  · exact zeroValidators_get (by decide)

def reportWithoutEncoding : WorkReport :=
  { lastCoreReport with workResults := [⟨1, .replicate 32 0, .replicate 32 0, 0, .invalid⟩] }

theorem producer_verifier_agree_without_encoding :
    (∃ e, reportWithoutEncoding.encodeStruct = .error e) ∧
      ∀ credential, initialCredential (fun _ => openSignature) openPrimitives.hashData () 1
          reportWithoutEncoding 340 = .ok credential →
        Vouched openPrimitives zeroValidatorState openState.entropyPool 600
          ⟨reportWithoutEncoding, 600, [credential]⟩ := by
  have henc : ∃ e, reportWithoutEncoding.encodeStruct = .error e := ⟨_, rfl⟩
  have hagree := producer_verifier_agree_iff openPrimitives _ _ exactSignatures_open
    reportWithoutEncoding 340 collisionFree_open () 1 zeroValidatorState openState.entropyPool 600
    600 (validators_assigned reportWithoutEncoding [] 1 (by decide)) .zero
    (validators_present reportWithoutEncoding [] 1 (by decide)) rfl
  exact ⟨henc, hagree.2.mpr henc⟩

theorem own_credential_rejected :
    ∃ credential, initialCredential (fun _ => openSignature) openPrimitives.hashData () 1
        lastCoreReport 340 = .ok credential ∧
      isValidatorAssignedToCore 1 lastCoreReport.coreIndex
        (guarantorCores openPrimitives zeroValidatorState openState.entropyPool 600
          ⟨lastCoreReport, 600, [credential]⟩) ∧
      ¬ Vouched openPrimitives zeroValidatorState openState.entropyPool 600
        ⟨lastCoreReport, 600, [credential]⟩ := by
  obtain ⟨bytes, hbytes⟩ : ∃ bytes, lastCoreReport.encodeStruct = .ok bytes := ⟨_, rfl⟩
  refine ⟨_, initialCredential_of_encode _ hbytes, validators_assigned _ _ 1 (by decide), ?_⟩
  exact credential_not_vouched exactSignatures_open hbytes (collisionFree_open bytes hbytes)
    (validators_present _ [] 1 (by decide)) rfl

variable {disputes : DisputeExtrinsic} {table : CoreAssignments} {core : Core} {time : Timeslot}

theorem hash_of_encodeStruct {H : List UInt8 → Hash} (h : report.encodeStruct = .ok bytes) :
    report.hash H = .ok (H (1 :: bytes)) := by
  unfold WorkReport.hash WorkReport.encode
  rw [h]

def NamedByVerdict (prims : Primitives) (disputes : DisputeExtrinsic) (workReport : WorkReport) :
    Prop :=
  ∃ verdict ∈ disputes.verdicts, positives verdict < validatorsSuperMajority ∧
      workReport.hash prims.hashData = .ok verdict.reportHash

theorem cleared_iff (h : table.get core = some ⟨some report, time⟩) :
    (calculateIntermediateCoreAssignmentsFromExtrinsics prims disputes table).get core = none ↔
      NamedByVerdict prims disputes report :=
  get_cleared_iff h

theorem votes_of_condemned {newTimeslot : Timeslot} {j : Judgements} {validators : ValidatorState}
    (h : DisputesAccepted prims newTimeslot disputes j validators) {verdict : Verdict}
    (hv : verdict ∈ disputes.verdicts) {culprit : Culprit}
    (hculprit : culprit ∈ disputes.culprits) (hreport : culprit.reportHash = verdict.reportHash) :
    positives verdict = 0 := by
  obtain ⟨found, hfound, hvotes⟩ := h.culpritsCondemned culprit hculprit
  have hhash : found.reportHash = verdict.reportHash := by
    have hmatches := List.find?_some hfound
    rw [decide_eq_true_eq] at hmatches
    rw [hmatches, hreport]
  have hsame : found = verdict := inj_on_of_nodup_map (nodup_of_bytesLt h.verdictsSorted)
    (mem_of_find?_eq_some hfound) hv hhash
  rw [← hsame, hvotes]

/-- When a bad verdict takes the report off its core. -/
theorem culprit_verdict_clears_iff (prims : Primitives) (hbinding : BindingSignatures prims)
    (vs : ValidatorState) (pool : EntropyPool) (slot : Timeslot)
    (g : Guarantee) (hvouched : Vouched prims vs pool slot g)
    (hfree : ∀ bytes, g.workReport.encodeStruct = .ok bytes →
      CollisionFree prims.hashData bytes (1 :: bytes))
    (table : CoreAssignments) (core : Core) (time : Timeslot)
    (hinstalled : table.get core = some ⟨some g.workReport, time⟩)
    (newTimeslot : Timeslot) (disputes : DisputeExtrinsic) (j j' : Judgements)
    (validators : ValidatorState)
    (hok : calculateNewJudgements prims newTimeslot disputes j validators = .ok j')
    (verdict : Verdict) (hv : verdict ∈ disputes.verdicts)
    (culprit : Culprit) (hculprit : culprit ∈ disputes.culprits)
    (hreport : culprit.reportHash = verdict.reportHash)
    (credential : CredentialSignature) (hcredential : credential ∈ g.credentials)
    (hsignature : culprit.signature = credential.signature) :
    (countPositiveJudgments verdict.judgements < validatorsSuperMajority →
      (calculateIntermediateCoreAssignmentsFromExtrinsics prims disputes table).get core = none) ↔
      ∃ other ∈ disputes.verdicts, other.reportHash ≠ verdict.reportHash ∧
        countPositiveJudgments other.judgements < validatorsSuperMajority ∧
        g.workReport.hash prims.hashData = .ok other.reportHash := by
  obtain ⟨bytes, hbytes, hverifies⟩ := vouched_iff.mp hvouched
  obtain ⟨-, validator, -, hsigned⟩ := hverifies credential hcredential
  obtain ⟨hdisputes, -⟩ := calculateNewJudgements_eq_ok.mp hok
  have hclaimed := check_eq_ok.mp (hdisputes.culpritsSigned culprit hculprit)
  rw [hsignature] at hclaimed
  have hhash : culprit.reportHash = prims.hashData bytes := hbinding _ _ _ _ _ hclaimed hsigned
  have hpointer : g.workReport.hash prims.hashData = .ok (prims.hashData (1 :: bytes)) :=
    hash_of_encodeStruct hbytes
  have hvotes : positives verdict < validatorsSuperMajority := by
    rw [votes_of_condemned hdisputes hv hculprit hreport]
    decide
  rw [cleared_iff hinstalled, imp_iff_right hvotes]
  refine exists_congr fun other => and_congr_right fun _ => ?_
  constructor
  · rintro ⟨hvotes, hnamed⟩
    refine ⟨?_, hvotes, hnamed⟩
    intro hsame
    rw [hpointer, hsame, ← hreport, hhash] at hnamed
    have hlen := congrArg List.length (hfree bytes hbytes (Except.ok.inj hnamed).symm)
    rw [length_cons] at hlen
    omega
  · rintro ⟨-, hrest⟩
    exact hrest

def condemningJudgement (reportHash : Hash) (i : Nat) : Judgement :=
  ⟨false, UInt16.ofNat i, openSignature (voteMessage false reportHash)⟩

def condemningVerdict (reportHash : Hash) : Verdict :=
  verdictOf reportHash 1 (condemningJudgement reportHash)

def condemningDispute (hashes : List Hash) (reportHash : Hash) : DisputeExtrinsic where
  verdicts := hashes.map condemningVerdict
  culprits := [⟨reportHash, .replicate 32 0, openSignature (guaranteeMessage reportHash)⟩,
    ⟨reportHash, oneHash, openSignature (guaranteeMessage reportHash)⟩]
  faults := []

variable {hashes : List Hash} {reportHash : Hash}

theorem condemningVerdict_votes : positives (condemningVerdict reportHash) = 0 := by
  rw [positives, countPositiveJudgments, condemningVerdict, verdictOf_judgements, countP_map]
  apply countP_eq_zero.mpr
  intro i hi hvalid
  cases hvalid

theorem condemningVerdict_verifies :
    VerdictVerifies openPrimitives 600 zeroValidatorState (condemningVerdict reportHash) where
  judgements := verdictOf_verifies (fun _ => rfl) fun i hi =>
    ⟨zeroValidators_get hi, openPrimitives_verify.mpr rfl⟩
  notNewer := by
    change (1 : UInt32) ≤ toEpoch 600
    decide
  notOlder := by
    change toEpoch 600 - (1 : UInt32) ≤ 1
    decide

theorem condemned_of_mem (h : reportHash ∈ hashes) :
    Condemned (hashes.map condemningVerdict) reportHash := by
  have hsome : ((hashes.map condemningVerdict).find? (·.reportHash = reportHash)).isSome := by
    rw [List.find?_isSome]
    exact ⟨_, mem_map_of_mem h, decide_eq_true rfl⟩
  obtain ⟨verdict, hfound⟩ := Option.isSome_iff_exists.mp hsome
  obtain ⟨hash, -, rfl⟩ := mem_map.mp (mem_of_find?_eq_some hfound)
  exact ⟨_, hfound, condemningVerdict_votes⟩

theorem culprit_of_condemningDispute {culprit : Culprit}
    (h : culprit ∈ (condemningDispute hashes reportHash).culprits) :
    culprit.reportHash = reportHash ∧
      culprit.signature = openSignature (guaranteeMessage reportHash) := by
  rcases mem_pair.mp h with rfl | rfl
  · exact ⟨rfl, rfl⟩
  · exact ⟨rfl, rfl⟩

theorem condemningDispute_accepted (hsorted : hashes.IsChain fun a b => bytesLt a b)
    (h : reportHash ∈ hashes) :
    DisputesAccepted openPrimitives 600 (condemningDispute hashes reportHash) emptyJudgements
      zeroValidatorState where
  faultsSorted := .nil
  verdictsSorted := (isChain_map _).mpr hsorted
  judgementsSorted := forall_mem_map.mpr fun _ _ => verdictOf_sorted fun _ => rfl
  culpritsSorted := by
    have hkeys : bytesLt (.replicate 32 0) oneHash := by decide
    exact .cons_cons hkeys (.singleton _)
  verdictsSigned := forall_mem_map.mpr fun _ _ => condemningVerdict_verifies
  culpritsSigned := by
    intro culprit hculprit
    obtain ⟨hreport, hsignature⟩ := culprit_of_condemningDispute hculprit
    unfold verifyCulpritSignature
    rw [check_eq_ok, hreport, hsignature, openPrimitives_verify]
  faultsSigned := nofun
  notJudged := fun _ _ => ⟨nofun, nofun, nofun⟩
  faultVotes := nofun
  faultsNew := nofun
  verdictsSupported := forall_mem_map.mpr fun _ _ => .bad condemningVerdict_votes le_rfl
  culpritsCondemned := by
    intro culprit hculprit
    rw [(culprit_of_condemningDispute hculprit).1]
    exact condemned_of_mem h
  culpritsBad := by
    intro culprit hculprit
    rw [(culprit_of_condemningDispute hculprit).1]
    exact mem_reportsWith.mpr ⟨_, mem_map_of_mem h, condemningVerdict_votes, rfl⟩
  culpritsNew := by
    have hkeys : faultKeys (condemningDispute hashes reportHash) (hashes.map condemningVerdict) =
        [] := by
      rw [faultKeys, flatMap_eq_nil_iff]
      exact fun _ _ => rfl
    intro culprit _ hoffender
    change _ ∈ (faultKeys _ (hashes.map condemningVerdict)).foldl addOffender [] at hoffender
    rw [hkeys] at hoffender
    cases hoffender

def lastCoreBytes : List UInt8 := lastCoreReport.encodeStruct.toOption.getD []

def signedHash : Hash := lengthHash lastCoreBytes

def pointerHash : Hash := lengthHash (1 :: lastCoreBytes)

theorem lastCoreReport_encodeStruct : lastCoreReport.encodeStruct = .ok lastCoreBytes := rfl

theorem lastCoreReport_hash : lastCoreReport.hash openPrimitives.hashData = .ok pointerHash :=
  hash_of_encodeStruct lastCoreReport_encodeStruct

theorem signedHash_lt : bytesLt signedHash pointerHash := by decide +kernel

theorem signedHash_ne : pointerHash ≠ signedHash := by
  intro heq
  have hlt := signedHash_lt
  rw [heq, bytesLt_irrefl] at hlt
  cases hlt

def signedCredential (i : UInt16) : CredentialSignature :=
  ⟨i, openSignature (guaranteeMessage signedHash)⟩

def signedGuarantee : Guarantee := ⟨lastCoreReport, 600, [signedCredential 1, signedCredential 2]⟩

theorem signedGuarantee_vouched :
    Vouched openPrimitives zeroValidatorState openState.entropyPool 600 signedGuarantee := by
  apply vouched_iff.mpr
  refine ⟨lastCoreBytes, lastCoreReport_encodeStruct, ?_⟩
  have hverifies : ∀ i ∈ [(1 : UInt16), 2], CredentialVerifies openPrimitives
      (guarantorData zeroValidatorState openState.entropyPool 600 signedGuarantee).1
      (guarantorCores openPrimitives zeroValidatorState openState.entropyPool 600 signedGuarantee)
      lastCoreReport.coreIndex (guaranteeMessage signedHash) (signedCredential i) := by
    intro i hi
    exact ⟨validators_assigned _ _ i hi, .zero, validators_present _ _ i hi,
      openPrimitives_verify.mpr rfl⟩
  intro c hc
  obtain ⟨i, hi, rfl⟩ := mem_map.mp (show c ∈ [(1 : UInt16), 2].map signedCredential from hc)
  exact hverifies i hi

def signedAssignments : CoreAssignments := .replicate _ (some ⟨some lastCoreReport, 600⟩)

theorem collisionFree_pointer : ∀ bytes, lastCoreReport.encodeStruct = .ok bytes →
      CollisionFree openPrimitives.hashData bytes (1 :: bytes) := by
  intro bytes hbytes hcollision
  rw [lastCoreReport_encodeStruct] at hbytes
  cases hbytes
  exact absurd hcollision.symm signedHash_ne

theorem culprit_verdict_clears_with_pointerHash :
    (calculateIntermediateCoreAssignmentsFromExtrinsics openPrimitives
      (condemningDispute [signedHash, pointerHash] signedHash) signedAssignments).get
        ⟨340, by decide⟩ = none := by
  have hok := @condemningDispute_accepted [signedHash, pointerHash] signedHash
    (.cons_cons signedHash_lt (.singleton pointerHash)) mem_cons_self
  have hfew (hash : Hash) : positives (condemningVerdict hash) < validatorsSuperMajority := by
    rw [condemningVerdict_votes]
    decide
  refine (culprit_verdict_clears_iff openPrimitives bindingSignatures_open zeroValidatorState
    openState.entropyPool 600 signedGuarantee signedGuarantee_vouched collisionFree_pointer
    signedAssignments ⟨340, by decide⟩ 600 (get_replicate _ _) 600 _ emptyJudgements _
    zeroValidatorState (calculateNewJudgements_eq_ok.mpr ⟨hok, rfl⟩)
    (condemningVerdict signedHash) mem_cons_self _ mem_cons_self rfl
    (signedCredential 1) mem_cons_self rfl).mpr ?_ (hfew _)
  exact ⟨condemningVerdict pointerHash, mem_cons_of_mem _ mem_cons_self, signedHash_ne, hfew _,
    lastCoreReport_hash⟩

theorem condemned_report_stays :
    Vouched openPrimitives zeroValidatorState openState.entropyPool 600 signedGuarantee ∧
      (∃ j, calculateNewJudgements openPrimitives 600 (condemningDispute [signedHash] signedHash)
        emptyJudgements zeroValidatorState = .ok j) ∧
      countPositiveJudgments (condemningVerdict signedHash).judgements = 0 ∧
      (∀ culprit ∈ (condemningDispute [signedHash] signedHash).culprits,
        culprit.signature ∈ signedGuarantee.credentials.map (·.signature)) ∧
      (calculateIntermediateCoreAssignmentsFromExtrinsics openPrimitives
        (condemningDispute [signedHash] signedHash) signedAssignments).get
          ⟨340, by decide⟩ ≠ none := by
  have hok := condemningDispute_accepted (.singleton signedHash) mem_cons_self
  refine ⟨signedGuarantee_vouched, ⟨_, calculateNewJudgements_eq_ok.mpr ⟨hok, rfl⟩⟩,
    condemningVerdict_votes, ?_, ?_⟩
  · intro culprit hculprit
    rw [(culprit_of_condemningDispute hculprit).2]
    exact mem_cons_self
  · intro hcleared
    obtain ⟨verdict, hv, -, hnamed⟩ := (cleared_iff (get_replicate _ _)).mp hcleared
    rw [mem_singleton.mp hv, lastCoreReport_hash] at hnamed
    exact signedHash_ne (Except.ok.inj hnamed)

end Strawberry.StateTransition
