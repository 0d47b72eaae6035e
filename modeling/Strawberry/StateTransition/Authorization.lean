import Strawberry.StateTransition.Guarantees
import Strawberry.Work.Reports

/-!
# Authorized packages and authorized reports

The pool is asked for the hash of the authorizer's code, then for the hash of its answer.
-/

namespace Strawberry.StateTransition

open Block Work State Constants Results

def AuthorizerPooled (pool : CoreAuthorizersPool) (report : WorkReport) : Prop :=
  ∃ core : Core, report.coreIndex.toNat = core.val ∧ report.authorizerHash ∈ pool.get core

variable {prims : Primitives} {header : Header} {s : State} {table : CoreAssignments}
  {slot : Timeslot} {chain : Chain} {guarantee : Guarantee} {guarantees : List Guarantee}

theorem checkGuarantee_pooled (h : checkGuarantee header s table slot guarantee = .ok ()) :
    AuthorizerPooled s.coreAuthorizersPool guarantee.workReport := by
  simp only [checkGuarantee, bind_unit_eq_ok] at h
  obtain ⟨-, -, -, h⟩ := h
  split at h
  · next hcore =>
    simp only [bind_unit_eq_ok, check_eq_ok, decide_eq_true_eq] at h
    exact ⟨⟨_, hcore⟩, rfl, h.2.1⟩
  · cases h

theorem validateExtrinsicGuarantees_pooled
    (h : validateExtrinsicGuarantees prims header s guarantees table slot chain = .ok ()) :
    ∀ g ∈ guarantees, AuthorizerPooled s.coreAuthorizersPool g.workReport := by
  simp only [validateExtrinsicGuarantees, bind_unit_eq_ok] at h
  intro g hg
  exact checkGuarantee_pooled (forM_eq_ok.mp h.2.1 g hg)

variable {c : Computation} {order : GoMap.Traversal c.segmentRoots.keys} {wp : Package}
  {coreIndex : UInt16} {authPool : CoreAuthorizersPool} {report : WorkReport}

theorem validateWorkPackageAuthorization_eq_ok :
    validateWorkPackageAuthorization wp coreIndex authPool = .ok () ↔
      ∃ core : Core, coreIndex.toNat = core.val ∧ wp.authCodeHash ∈ authPool.get core := by
  unfold validateWorkPackageAuthorization
  split
  · next hcore =>
    rw [Call.check_eq_ok, decide_eq_true_eq]
    constructor
    · intro h
      exact ⟨⟨_, hcore⟩, rfl, h⟩
    · rintro ⟨core, hindex, h⟩
      obtain rfl : core = ⟨coreIndex.toNat, hcore⟩ := Fin.ext hindex.symm
      exact h
  · next hcore =>
    refine iff_of_false nofun ?_
    rintro ⟨core, hindex, -⟩
    exact hcore (hindex ▸ core.isLt)

theorem authorizer_of_report (h : c.evaluateWorkPackage order wp coreIndex = .ok report) :
    ∃ authOutput, c.auth wp coreIndex = .ok authOutput ∧ report.coreIndex = coreIndex ∧
      report.authorizerHash = c.hashData (authOutput.getD []) := by
  obtain ⟨-, audBlob, authOutput, progress, availSpec, -, hauth, -, -, rfl⟩ :=
    Computation.evaluateWorkPackage_eq_ok.mp h
  exact ⟨authOutput, hauth, rfl, rfl⟩

/-- When the report of an authorized package is authorized. -/
theorem authorized_report_iff (c : Computation) (order : GoMap.Traversal c.segmentRoots.keys)
    (wp : Package) (coreIndex : UInt16) (authPool : CoreAuthorizersPool) (report : WorkReport)
    (hvalid : validateWorkPackageAuthorization wp coreIndex authPool = .ok ())
    (hreport : c.evaluateWorkPackage order wp coreIndex = .ok report) :
    ∃ (core : Core) (authOutput : Option (List UInt8)), coreIndex.toNat = core.val ∧
      wp.authCodeHash ∈ authPool.get core ∧ c.auth wp coreIndex = .ok authOutput ∧
      (AuthorizerPooled authPool report ↔ c.hashData (authOutput.getD []) ∈ authPool.get core) ∧
      (c.hashData (authOutput.getD []) ∉ authPool.get core →
        ∀ (prims : Primitives) (header : Header) (s : State) (table : CoreAssignments)
          (slot : Timeslot) (chain : Chain) (guarantees : List Guarantee),
          s.coreAuthorizersPool = authPool → (∃ g ∈ guarantees, g.workReport = report) →
          validateExtrinsicGuarantees prims header s guarantees table slot chain ≠ .ok ()) := by
  obtain ⟨core, hindex, hpool⟩ := validateWorkPackageAuthorization_eq_ok.mp hvalid
  obtain ⟨authOutput, hauth, hcore, hhash⟩ := authorizer_of_report hreport
  have hpooled : AuthorizerPooled authPool report ↔
      c.hashData (authOutput.getD []) ∈ authPool.get core := by
    unfold AuthorizerPooled
    rw [hcore, hhash]
    constructor
    · rintro ⟨core', hindex', h⟩
      obtain rfl : core = core' := Fin.ext (hindex.symm.trans hindex')
      exact h
    · exact fun h => ⟨core, hindex, h⟩
  refine ⟨core, authOutput, hindex, hpool, hauth, hpooled, ?_⟩
  rintro hnot prims header s table slot chain guarantees rfl ⟨g, hg, rfl⟩ hok
  exact hnot (hpooled.mp (validateExtrinsicGuarantees_pooled hok g hg))

def answering (answer : List UInt8) : Computation where
  auth _ _ := .ok (some answer)
  refine _ _ _ _ _ := .ok ([], [])
  segmentRoots := ∅
  segmentData := ∅
  extrinsicPreimages := ∅
  hashData := hashOf
  log2 _ := 0
  simd := ErasureCoding.knowing []

def onePackage : Package where
  authorizationToken := []
  authorizerService := 0
  authCodeHash := hashOf [1]
  parameterization := []
  context := emptyReport.refinementContext
  workItems := [⟨1, hashOf [], none, 0, 0, [], [], 1⟩]

def oneCodePool : CoreAuthorizersPool := .replicate totalNumberOfCores [hashOf [1]]

theorem onePackage_authorized :
    validateWorkPackageAuthorization onePackage 0 oneCodePool = .ok () := by
  rw [validateWorkPackageAuthorization_eq_ok]
  exact ⟨⟨0, by decide⟩, rfl, by simp [oneCodePool, onePackage, Vector.get]⟩

def noRoots (answer : List UInt8) :
    GoMap.Traversal (answering answer).segmentRoots.keys where
  keys := []
  nodup := List.nodup_nil
  mem_iff _ := iff_of_false List.not_mem_nil (Finset.notMem_empty _)

theorem onePackage_accepted (answer : List UInt8) :
    (answering answer).Accepts (noRoots answer) onePackage where
  entries := by decide
  size := by decide
  gas := by decide
  roots := rfl

theorem bundle_fits (h : (fun blob => decide
      ((zeroPadding blob ErasureCoding.erasureCodingChunkSize).length ≤
        ErasureCoding.maxWorkPackageSize)) <$>
      (answering []).buildAuditableWorkPackage wp = .ok true) (answer : List UInt8) :
    ∃ audBlob, (answering answer).buildAuditableWorkPackage wp = .ok audBlob ∧
      (zeroPadding audBlob ErasureCoding.erasureCodingChunkSize).length ≤
        ErasureCoding.maxWorkPackageSize := by
  have hsame : (answering answer).buildAuditableWorkPackage wp =
      (answering []).buildAuditableWorkPackage wp := rfl
  obtain ⟨audBlob, haud, hfits⟩ := Call.map_eq_ok.mp h
  exact ⟨audBlob, hsame.trans haud, of_decide_eq_true hfits⟩

theorem onePackage_fits (answer : List UInt8) :
    ∃ audBlob, (answering answer).buildAuditableWorkPackage onePackage = .ok audBlob ∧
      (zeroPadding audBlob ErasureCoding.erasureCodingChunkSize).length ≤
        ErasureCoding.maxWorkPackageSize :=
  bundle_fits (by decide +kernel) answer

theorem exact_of_one (answer : List UInt8) : Merkle.Exact (answering answer).log2 1 := by
  constructor
  · simp [answering]
  · simp [answering]

theorem onePackage_report (answer : List UInt8) :
    ∃ report, (answering answer).evaluateWorkPackage (noRoots answer) onePackage 0 = .ok report := by
  obtain ⟨audBlob, haud, hfits⟩ := onePackage_fits answer
  obtain ⟨report, -, hreport, -⟩ := Computation.evaluateWorkPackage_returns
    (ErasureCoding.knowing_encodes []) (onePackage_accepted answer) haud hfits rfl
    (fun _ _ _ _ => ⟨_, rfl⟩) Nat.zero_lt_one (exact_of_one answer) (by decide)
  exact ⟨report, hreport⟩

theorem authorized_report_of_code :
    ∃ report, (answering [1]).evaluateWorkPackage (noRoots [1]) onePackage 0 = .ok report ∧
      AuthorizerPooled oneCodePool report := by
  obtain ⟨report, hreport⟩ := onePackage_report [1]
  obtain ⟨core, authOutput, -, hpool, hauth, hiff, -⟩ := authorized_report_iff (answering [1])
    (noRoots [1]) onePackage 0 oneCodePool report onePackage_authorized hreport
  obtain rfl : some [1] = authOutput := Call.ok_inj.mp hauth
  exact ⟨report, hreport, hiff.mpr hpool⟩

theorem authorized_package_unauthorized_report :
    ∃ report, validateWorkPackageAuthorization onePackage 0 oneCodePool = .ok () ∧
      (answering [2]).evaluateWorkPackage (noRoots [2]) onePackage 0 = .ok report ∧
      ¬ AuthorizerPooled oneCodePool report := by
  obtain ⟨report, hreport⟩ := onePackage_report [2]
  refine ⟨report, onePackage_authorized, hreport, ?_⟩
  rintro ⟨core, -, hpooled⟩
  obtain ⟨authOutput, hauth, -, hhash⟩ := authorizer_of_report hreport
  obtain rfl : some [2] = authOutput := Call.ok_inj.mp hauth
  rw [hhash] at hpooled
  change hashOf [2] ∈ oneCodePool.get core at hpooled
  have hother : hashOf [2] = hashOf [1] := by
    simpa [oneCodePool, Vector.get] using hpooled
  revert hother
  decide

end Strawberry.StateTransition
