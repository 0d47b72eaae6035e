import Mathlib.Algebra.BigOperators.Group.List.Basic
import Strawberry.Lib.Words
import Strawberry.StateTransition.Authorization

/-!
# When a package is evaluated

A package that passes the checks and whose data is there yields a report if it exports something.
-/

namespace Strawberry.Work

open Constants

def Package.total (wp : Package) (count : Item → Nat) : Nat := (wp.workItems.map count).sum

structure Package.WithinLimits (wp : Package) : Prop where
  exported : wp.total (·.exportedSegments.toNat) ≤ maxNumberOfEntries
  imported : wp.total (·.importedSegments.length) ≤ maxNumberOfEntries
  accumulateGas : wp.total (·.gasLimitAccumulate.toNat) < maxAllocatedGasAccumulation.toNat
  refineGas : wp.total (·.gasLimitRefine.toNat) < maxAllocatedGasRefine.toNat

variable {wp : Package}

theorem validateNumberOfEntries_eq_ok : wp.validateNumberOfEntries = .ok () ↔
    wp.total (·.exportedSegments.toNat) % 2 ^ 16 ≤ maxNumberOfEntries ∧
      wp.total (·.importedSegments.length) % 2 ^ 16 ≤ maxNumberOfEntries := by
  have hzero : (0 : UInt16).toNat = 0 := rfl
  simp only [Package.validateNumberOfEntries, bind_unit_eq_ok, check_eq_ok, decide_eq_true_eq,
    foldl_add_mod UInt16.toNat_add UInt16.toNat_lt, hzero, Nat.zero_add, UInt16.toNat_ofNat',
    Package.total]
  rw [List.sum_nat_mod (wp.workItems.map (·.importedSegments.length)), List.map_map]
  rfl

theorem validateGas_eq_ok : wp.validateGas = .ok () ↔
    wp.total (·.gasLimitAccumulate.toNat) % 2 ^ 64 < maxAllocatedGasAccumulation.toNat ∧
      wp.total (·.gasLimitRefine.toNat) % 2 ^ 64 < maxAllocatedGasRefine.toNat := by
  have hzero : (0 : UInt64).toNat = 0 := rfl
  simp only [Package.validateGas, bind_unit_eq_ok, check_eq_ok, decide_eq_true_eq,
    UInt64.lt_iff_toNat_lt, foldl_add_toNat, hzero, Nat.zero_add, Package.total]

/-- When the limits hold as natural numbers. -/
theorem package_limits_iff (wp : Package) (hent : wp.validateNumberOfEntries = .ok ())
    (hgas : wp.validateGas = .ok ()) : wp.WithinLimits ↔
      (wp.total (·.exportedSegments.toNat) < 2 ^ 16 ∧
        wp.total (·.importedSegments.length) < 2 ^ 16) ∧
      wp.total (·.gasLimitAccumulate.toNat) < 2 ^ 64 ∧
        wp.total (·.gasLimitRefine.toNat) < 2 ^ 64 := by
  have hmax : maxNumberOfEntries < 2 ^ 16 := by decide
  have haccumulate : maxAllocatedGasAccumulation.toNat < 2 ^ 64 := UInt64.toNat_lt _
  have hrefine : maxAllocatedGasRefine.toNat < 2 ^ 64 := UInt64.toNat_lt _
  rw [validateNumberOfEntries_eq_ok] at hent
  rw [validateGas_eq_ok] at hgas
  constructor
  · intro h
    exact ⟨⟨h.exported.trans_lt hmax, h.imported.trans_lt hmax⟩,
      h.accumulateGas.trans haccumulate, h.refineGas.trans hrefine⟩
  · rintro ⟨⟨hexported, himported⟩, haccumulate', hrefine'⟩
    rw [Nat.mod_eq_of_lt hexported, Nat.mod_eq_of_lt himported] at hent
    rw [Nat.mod_eq_of_lt haccumulate', Nat.mod_eq_of_lt hrefine'] at hgas
    exact ⟨hent.1, hent.2, hgas.1, hgas.2⟩

def exportingTwice (count : UInt16) : Package where
  authorizationToken := []
  authorizerService := 0
  authCodeHash := .replicate 32 0
  parameterization := []
  context := ⟨⟨.replicate 32 0, .replicate 32 0, .replicate 32 0⟩, ⟨.replicate 32 0, 0⟩, []⟩
  workItems := .replicate 2 ⟨0, .replicate 32 0, none, 0, 0, [], [], count⟩

theorem exportingTwice_within_limits : (exportingTwice 1).WithinLimits :=
  (package_limits_iff (exportingTwice 1) (by decide) (by decide)).mpr (by decide)

theorem exports_overflow : (exportingTwice 0x8000).validateNumberOfEntries = .ok () ∧
    (exportingTwice 0x8000).validateGas = .ok () ∧ ¬ (exportingTwice 0x8000).WithinLimits := by
  refine ⟨by decide, by decide, ?_⟩
  intro h
  exact absurd h.exported (by decide)

end Strawberry.Work

namespace Strawberry.Results

open Block Work State Merkle ErasureCoding Constants Call

namespace Computation

variable {c : Computation} {wp : Package} {coreIndex : UInt16} {authOutput : Option (List UInt8)}
  {order : GoMap.Traversal c.segmentRoots.keys}

structure Available (c : Computation) (wp : Package) : Prop where
  extrinsics : ∀ item ∈ wp.workItems, ∀ extr ∈ item.extrinsics,
    ∃ preimage, c.extrinsicPreimages.lookup extr.hash = some preimage ∧
      preimage.length = extr.length.toNat
  imports : ∀ item ∈ wp.workItems, ∀ imp ∈ item.importedSegments,
    c.lookup imp.hash ∈ c.segmentData
  segments : ∀ item ∈ wp.workItems,
    item.importedSegments.length * sizeOfSegment ≤ maxWorkPackageSize
  bundle : ∀ audBlob, c.buildAuditableWorkPackage wp = .ok audBlob →
    (zeroPadding audBlob erasureCodingChunkSize).length ≤ maxWorkPackageSize

section

variable {item : Work.Item}

theorem buildExtrinsicData_returns
    (h : ∀ extr ∈ item.extrinsics, ∃ preimage,
      c.extrinsicPreimages.lookup extr.hash = some preimage ∧
        preimage.length = extr.length.toNat) :
    ∃ data, c.buildExtrinsicData item = .ok data := by
  obtain ⟨data, hdata⟩ := exists_forall₂ h
  refine ⟨data, mapM_eq_ok.mpr (hdata.imp ?_)⟩
  rintro extr preimage ⟨hget, hlen⟩
  refine bind_eq_ok.mpr ⟨preimage, orError_eq_ok.mpr hget, ?_⟩
  exact bind_unit_eq_ok.mpr ⟨check_eq_ok.mpr (decide_eq_true hlen), rfl⟩

theorem segmentsOf_returns (missing : Hash → ComputationError)
    (h : ∀ imp ∈ item.importedSegments, c.lookup imp.hash ∈ c.segmentData) :
    ∃ segments, c.segmentsOf missing item = .ok segments ∧
      segments.length = item.importedSegments.length := by
  have hdata : ∀ imp ∈ item.importedSegments, ∃ segment, (do
      let data ← orError (c.segmentData.lookup (c.lookup imp.hash)) (missing (c.lookup imp.hash))
      return toArray sizeOfSegment data : Except ComputationError Segment) = .ok segment := by
    intro imp himp
    obtain ⟨data, hget⟩ := Finmap.mem_iff.mp (h imp himp)
    exact ⟨_, bind_eq_ok.mpr ⟨data, orError_eq_ok.mpr hget, rfl⟩⟩
  obtain ⟨segments, hsegments⟩ := exists_forall₂ hdata
  exact ⟨segments, mapM_eq_ok.mpr hsegments, hsegments.length_eq.symm⟩

variable (himports : ∀ imp ∈ item.importedSegments, c.lookup imp.hash ∈ c.segmentData)
  (hfits : item.importedSegments.length * sizeOfSegment ≤ maxWorkPackageSize)
  (hexact : Exact c.log2 item.importedSegments.length)

include hfits in
theorem length_imports_le : item.importedSegments.length ≤ 2 ^ 62 := by
  rw [show maxWorkPackageSize = 12582912 from rfl, show sizeOfSegment = 4104 from rfl] at hfits
  omega

include hfits hexact in
theorem importsRoot_returns {blobs : List (List UInt8)}
    (hlen : blobs.length = item.importedSegments.length) (hne : ¬ blobs.length = 0) :
    ∃ root, computeConstantDepthRoot c.log2 c.hashData blobs = .ret root := by
  have hmax := length_imports_le hfits
  rw [← hlen] at hmax hexact
  have hblobs : blobs ≠ [] := fun h => hne (h ▸ rfl)
  exact ⟨_, computeConstantDepthRoot_eq hblobs hexact.ceil hmax⟩

include himports hfits hexact

theorem buildImportedSegments_returns :
    ∃ imported, c.buildImportedSegments item = .ok imported := by
  obtain ⟨segments, hsegments, hlen⟩ := segmentsOf_returns .missingSegmentData himports
  unfold buildImportedSegments
  rw [Call.bind_of_ok (lift_except_eq_ok.mpr hsegments)]
  split
  · exact ⟨_, rfl⟩
  · next hne =>
    rw [← length_segmentsToByteSlices] at hlen hne
    obtain ⟨root, hroot⟩ := importsRoot_returns hfits hexact hlen hne
    exact ⟨_, bind_of_ret hroot rfl⟩

theorem buildJustificationData_returns :
    ∃ justification, c.buildJustificationData item = .ok justification := by
  obtain ⟨segments, hsegments, hlen⟩ := segmentsOf_returns .missingData himports
  rw [← length_segmentsToByteSlices] at hlen
  have hproofs : ∀ imp ∈ item.importedSegments, ∃ proof, (do
      let pageProof ← generatePageProof c.log2 c.hashData (segmentsToByteSlices segments)
        imp.index.toNat 0
      return flattenPageProof pageProof : Call ComputationError (List UInt8)) = .ok proof := by
    intro imp _
    obtain ⟨proof, hproof⟩ := generatePageProof_returns (hlen ▸ hexact)
      (hlen ▸ length_imports_le hfits) imp.index.toNat 0
    exact ⟨_, bind_of_ret hproof rfl⟩
  obtain ⟨jData, hjData⟩ := exists_forall₂ hproofs
  unfold buildJustificationData
  rw [Call.bind_of_ok (lift_except_eq_ok.mpr hsegments)]
  split
  · exact ⟨_, rfl⟩
  · rw [Call.bind_of_ok (Call.mapM_eq_ok.mpr hjData)]
    split
    · exact ⟨_, rfl⟩
    · next hne =>
      obtain ⟨root, hroot⟩ := importsRoot_returns hfits hexact hjData.length_eq.symm hne
      exact ⟨_, bind_of_ret hroot rfl⟩

end

theorem Available.bundle_returns (h : c.Available wp)
    (hexact : ∀ item ∈ wp.workItems, Exact c.log2 item.importedSegments.length) :
    ∃ audBlob, c.buildAuditableWorkPackage wp = .ok audBlob := by
  have hparts : ∀ item ∈ wp.workItems, ∃ part, (do
      let xW ← c.buildExtrinsicData item
      let s ← c.buildImportedSegments item
      let j ← c.buildJustificationData item
      return flattenBlobs xW ++ flattenBlobs (segmentsToByteSlices s.1) ++ s.2.toList ++
        flattenBlobs j.1 ++ j.2.toList : Call ComputationError (List UInt8)) = .ok part := by
    intro item hitem
    have himports := h.imports item hitem
    have hfits := h.segments item hitem
    obtain ⟨xW, hxW⟩ := buildExtrinsicData_returns (h.extrinsics item hitem)
    obtain ⟨s, himported⟩ := buildImportedSegments_returns himports hfits (hexact item hitem)
    obtain ⟨j, hjustification⟩ := buildJustificationData_returns himports hfits (hexact item hitem)
    rw [Call.bind_of_ok (lift_except_eq_ok.mpr hxW), Call.bind_of_ok himported,
      Call.bind_of_ok hjustification]
    exact ⟨_, rfl⟩
  obtain ⟨parts, hallParts⟩ := exists_forall₂ hparts
  exact ⟨_, Call.bind_eq_ok.mpr ⟨parts, Call.mapM_eq_ok.mpr hallParts, rfl⟩⟩

theorem exports_of_report {report : WorkReport} (hencodes : c.simd.Encodes)
    (hbundle : ∀ audBlob, c.buildAuditableWorkPackage wp = .ok audBlob →
      (zeroPadding audBlob erasureCodingChunkSize).length ≤ maxWorkPackageSize)
    (hrefine : ∀ i o segs offset, ∃ result, c.refine i wp o segs offset = Outcome.ret result)
    (h : c.evaluateWorkPackage order wp coreIndex = .ok report) :
    0 < exportCount wp.workItems := by
  obtain ⟨-, audBlob, authOutput, progress, availSpec, haud, -, hprogress, hspec, -⟩ :=
    evaluateWorkPackage_eq_ok.mp h
  have hitems : ∃ progress', c.refineItems wp authOutput = .ok progress' ∧
      c.Refined wp authOutput wp.workItems progress' :=
    refineItems_returns hrefine fun item hitem => imports_of_auditable haud hitem
  obtain ⟨progress', hprogress', hrefined⟩ := hitems
  obtain rfl : progress = progress' := ok_inj.mp (hprogress.symm.trans hprogress')
  obtain ⟨shards, hshards, hcount⟩ := hencodes.encode
    (List.ne_nil_of_length_pos (Nat.lt_of_lt_of_le
      (List.length_pos_iff.mpr (auditable_ne_nil haud)) (length_le_zeroPadding _ _)))
    (hbundle audBlob haud)
  obtain ⟨-, hspec⟩ := Call.bind_unit_eq_ok.mp hspec
  obtain ⟨root, -, hspec⟩ := Call.bind_eq_ok.mp hspec
  rw [Call.bind_of_ok (Call.mapError_eq_ok.mpr hshards), if_neg (by omega)] at hspec
  obtain ⟨proofs, hproofs, -⟩ := Call.bind_eq_ok.mp hspec
  obtain ⟨hsome, -⟩ := Call.bind_unit_eq_ok.mp (Call.mapError_eq_ok.mp hproofs)
  rw [← hrefined.exported]
  exact Nat.pos_of_ne_zero (of_decide_eq_true (Call.check_eq_ok.mp hsome))

/-- When an accepted package is evaluated. -/
theorem package_evaluation_iff (hencodes : c.simd.Encodes) (haccepts : c.Accepts order wp)
    (havail : c.Available wp) (hauth : c.auth wp coreIndex = .ok authOutput)
    (hrefine : ∀ i o segs offset, ∃ result, c.refine i wp o segs offset = Outcome.ret result)
    (himports : ∀ item ∈ wp.workItems, Exact c.log2 item.importedSegments.length)
    (hexact : Exact c.log2 (exportCount wp.workItems)) :
    (∃ report exported, c.evaluateWorkPackage order wp coreIndex = .ok report ∧
      c.Describes wp authOutput report exported) ↔
    0 < exportCount wp.workItems ∧ exportCount wp.workItems < 2 ^ 16 := by
  constructor
  · rintro ⟨report, exported, hreport, hdescribes⟩
    refine ⟨exports_of_report hencodes havail.bundle hrefine hreport, ?_⟩
    rw [← hdescribes.count]
    exact UInt16.toNat_lt _
  · rintro ⟨hpos, hlt⟩
    have hlimit : exportCount wp.workItems ≤ 2048 := by
      have hent := (validateNumberOfEntries_eq_ok.mp haccepts.entries).1
      change exportCount wp.workItems % 2 ^ 16 ≤ 2048 at hent
      rwa [Nat.mod_eq_of_lt hlt] at hent
    obtain ⟨audBlob, haud⟩ := havail.bundle_returns himports
    refine evaluateWorkPackage_returns hencodes haccepts haud (havail.bundle audBlob haud) hauth
      hrefine hpos hexact ?_
    rw [show maxWorkPackageSize = 12582912 from rfl, show sizeOfSegment = 4104 from rfl]
    omega

open Strawberry.StateTransition in
theorem onePackage_evaluated : ∃ report exported,
    (answering [1]).evaluateWorkPackage (noRoots [1]) onePackage 0 = .ok report ∧
      (answering [1]).Describes onePackage (some [1]) report exported := by
  obtain ⟨audBlob, haud, hfits⟩ := onePackage_fits [1]
  have havail : (answering [1]).Available onePackage := by
    refine ⟨by simp [onePackage], by simp [onePackage], by simp [onePackage], ?_⟩
    intro blob hblob
    rwa [ok_inj.mp (hblob.symm.trans haud)]
  have himports : ∀ item ∈ onePackage.workItems,
      Exact (answering [1]).log2 item.importedSegments.length := by
    intro item hitem
    rw [List.mem_singleton.mp hitem]
    constructor
    · simp [answering]
    · simp [answering]
  exact (package_evaluation_iff (knowing_encodes []) (onePackage_accepted [1]) havail rfl
    (fun _ _ _ _ => ⟨_, rfl⟩) himports (exact_of_one [1])).mpr (by decide)

def quietPackage : Package :=
  { StateTransition.onePackage with
    workItems := [⟨1, zeroHash, none, 0, 0, [], [], 0⟩] }

open Strawberry.StateTransition in
theorem no_report_without_exports : (answering [1]).Accepts (noRoots [1]) quietPackage ∧
    (answering [1]).Available quietPackage ∧
    ∀ report, (answering [1]).evaluateWorkPackage (noRoots [1]) quietPackage 0 ≠ .ok report := by
  have hquiet : ∃ audBlob, (answering [1]).buildAuditableWorkPackage quietPackage = .ok audBlob ∧
      (zeroPadding audBlob erasureCodingChunkSize).length ≤ maxWorkPackageSize :=
    bundle_fits (by decide +kernel) [1]
  obtain ⟨audBlob, haud, hfits⟩ := hquiet
  have hbundle : ∀ blob, (answering [1]).buildAuditableWorkPackage quietPackage = .ok blob →
      (zeroPadding blob erasureCodingChunkSize).length ≤ maxWorkPackageSize := by
    intro blob hblob
    rwa [ok_inj.mp (hblob.symm.trans haud)]
  refine ⟨⟨by decide, by decide, by decide, rfl⟩, ⟨by simp [quietPackage], by simp [quietPackage],
    by simp [quietPackage], hbundle⟩, ?_⟩
  intro report hreport
  exact absurd (exports_of_report (knowing_encodes []) hbundle (fun _ _ _ _ => ⟨_, rfl⟩) hreport)
    (by decide)

end Computation

end Strawberry.Results
