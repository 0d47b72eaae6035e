import Mathlib.Data.UInt
import Strawberry.ErasureCoding
import Strawberry.Lib.Entries
import Strawberry.Merkle
import Strawberry.State.State
import Strawberry.Work

/-!
# The computation of a work report

From a package to its report. The two programs are arbitrary functions.
-/

namespace Strawberry.Work

open Constants

def maxSizeOfEncodedWorkPackage : UInt64 := 12 * 2 ^ 20
def maxAllocatedGasRefine : UInt64 := 500000000
def segmentsPerPage : Nat := 64

inductive PackageError where
  | exportedSegments (total : UInt16)
  | importedSegments (total : UInt16)
  | size (total : UInt64)
  | accumulationGas (total : UInt64)
  | refineGas (total : UInt64)
  deriving DecidableEq

def Package.validateNumberOfEntries (wp : Package) : Except PackageError Unit := do
  let totalExported := wp.workItems.foldl (fun total w => total + w.exportedSegments) 0
  let totalImported :=
    wp.workItems.foldl (fun total w => total + UInt16.ofNat w.importedSegments.length) 0
  check (totalExported.toNat ≤ maxNumberOfEntries) (.exportedSegments totalExported)
  check (totalImported.toNat ≤ maxNumberOfEntries) (.importedSegments totalImported)

def Item.size (w : Item) : UInt64 :=
  w.extrinsics.foldl (fun total bh => total + bh.length.toUInt64)
    (UInt64.ofNat (w.payload.getD []).length +
      UInt64.ofNat w.importedSegments.length * UInt64.ofNat sizeOfSegment)

def Package.validateSize (wp : Package) : Except PackageError Unit := do
  let totalSize := wp.workItems.foldl (fun total w => total + w.size)
    (UInt64.ofNat wp.authorizationToken.length + UInt64.ofNat wp.parameterization.length)
  check (totalSize ≤ maxSizeOfEncodedWorkPackage) (.size totalSize)

def Package.validateGas (wp : Package) : Except PackageError Unit := do
  let totalAccumulate := wp.workItems.foldl (fun total w => total + w.gasLimitAccumulate) 0
  let totalRefine := wp.workItems.foldl (fun total w => total + w.gasLimitRefine) 0
  check (totalAccumulate < maxAllocatedGasAccumulation) (.accumulationGas totalAccumulate)
  check (totalRefine < maxAllocatedGasRefine) (.refineGas totalRefine)

def Item.toWorkResult (hashData : HashData) (w : Item) (o : Block.WorkResultOutputOrError) :
    Block.WorkResult where
  serviceId := w.serviceId
  serviceHashCode := w.codeHash
  payloadHash := hashData (w.payload.getD [])
  gasPrioritizationRatio :=
    if 0 < w.gasLimitAccumulate then w.gasLimitRefine / w.gasLimitAccumulate else 0
  output := o

end Strawberry.Work

namespace Strawberry.Results

open Block Work State Merkle ErasureCoding Constants

inductive ComputationError where
  | package (e : PackageError)
  | unknownSegment (h e : Hash)
  | missingExtrinsic (hash : Hash)
  | extrinsicLength (hash : Hash)
  | missingSegmentData (root : Hash)
  | missingData (root : Hash)
  | auditableBlobTooLarge
  | coding (e : CodingError)
  | noSegments
  | auditable (cause : ComputationError)
  | authorization (cause : String)
  | importedSegments (cause : ComputationError)
  | pagedProofs (cause : ComputationError)
  | availability (cause : ComputationError)
  deriving DecidableEq

structure Computation where
  auth : Package → UInt16 → Call String (Option (List UInt8))
  refine : UInt32 → Package → Option (List UInt8) → List Segment → UInt64 →
    Call String (List UInt8 × List Segment)
  segmentRoots : GoMap Hash Hash
  segmentData : GoMap Hash (List UInt8)
  extrinsicPreimages : GoMap Hash (List UInt8)
  hashData : HashData
  log2 : Nat → ℚ
  simd : ReedSolomonSimd

def flattenBlobs (blobs : List (List UInt8)) : List UInt8 := blobs.flatten

def segmentsToByteSlices (segs : List Segment) : List (List UInt8) := segs.map (·.toList)

def flattenPageProof (proof : List Hash) : List UInt8 := proof.flatMap (·.toList)

def zeroHash : Hash := .replicate 32 0

def zeroSegment : Segment := .replicate sizeOfSegment 0

namespace Computation

variable (c : Computation)

def lookup (hash : Hash) : Hash := c.segmentRoots.getD hash hash

def validateSegmentRootLookup (order : GoMap.Traversal c.segmentRoots.keys) :
    Except ComputationError Unit :=
  (c.segmentRoots.entriesAt order.keys).forM fun (h, e) =>
    check (e ∈ c.segmentData) (.unknownSegment h e)

def buildExtrinsicData (item : Work.Item) : Except ComputationError (List (List UInt8)) :=
  item.extrinsics.mapM fun extr => do
    let preimage ← orError (c.extrinsicPreimages.lookup extr.hash) (.missingExtrinsic extr.hash)
    check (preimage.length = extr.length.toNat) (.extrinsicLength extr.hash)
    return preimage

def segmentsOf (missing : Hash → ComputationError) (item : Work.Item) :
    Except ComputationError (List Segment) :=
  item.importedSegments.mapM fun imp => do
    let root := c.lookup imp.hash
    let data ← orError (c.segmentData.lookup root) (missing root)
    return toArray sizeOfSegment data

def buildImportedSegments (item : Work.Item) : Call ComputationError (List Segment × Hash) := do
  let segments ← c.segmentsOf .missingSegmentData item
  if segments.length = 0 then return (segments, zeroHash)
  let sRoot ← computeConstantDepthRoot c.log2 c.hashData (segmentsToByteSlices segments)
  return (segments, sRoot)

def buildJustificationData (item : Work.Item) : Call ComputationError (List (List UInt8) × Hash) := do
  let importedSegments ← c.segmentsOf .missingData item
  if importedSegments.length = 0 then return ([], zeroHash)
  let segBlobs := segmentsToByteSlices importedSegments
  let jData ← item.importedSegments.mapM fun imp => do
    let pageProof ← generatePageProof c.log2 c.hashData segBlobs imp.index.toNat 0
    return flattenPageProof pageProof
  if jData.length = 0 then return (jData, zeroHash)
  let jRoot ← computeConstantDepthRoot c.log2 c.hashData jData
  return (jData, jRoot)

def buildAuditableWorkPackage (pkg : Package) : Call ComputationError (List UInt8) := do
  let parts ← pkg.workItems.mapM fun item => do
    let xW ← c.buildExtrinsicData item
    let (sSegments, sRoot) ← c.buildImportedSegments item
    let (jBlobs, jRoot) ← c.buildJustificationData item
    return flattenBlobs xW ++ flattenBlobs (segmentsToByteSlices sSegments) ++ sRoot.toList ++
      flattenBlobs jBlobs ++ jRoot.toList
  return pkg.encode ++ parts.flatten

def computePagedProofs (segments : List Segment) : Call ComputationError (List Segment) := do
  Call.check (segments.length ≠ 0) .noSegments
  let blobs := segmentsToByteSlices segments
  let numPages := (segments.length + segmentsPerPage - 1) / segmentsPerPage
  (List.range numPages).mapM fun (pageIndex : Nat) => do
    let leafHashes ← getLeafPage c.hashData blobs pageIndex 6
    let proof ← generatePageProof c.log2 c.hashData blobs pageIndex 6
    let combined := Jam.encodeSlice (·.toList) leafHashes ++ Jam.encodeSlice (·.toList) proof
    return toArray sizeOfSegment (zeroPadding combined sizeOfSegment)

def noSpecification : WorkPackageSpecification where
  workPackageHash := zeroHash
  auditableWorkBundleLength := 0
  erasureRoot := zeroHash
  segmentRoot := zeroHash
  segmentCount := 0

def computeAvailabilitySpecifier (packageHash : Hash) (auditableBlob : List UInt8)
    (exportedSegments : List Segment) : Call ComputationError WorkPackageSpecification := do
  Call.check (auditableBlob.length ≤ 2 ^ 32 - 1) .auditableBlobTooLarge
  let segBlobs := segmentsToByteSlices exportedSegments
  let e ← computeConstantDepthRoot c.log2 c.hashData segBlobs
  let padded := zeroPadding auditableBlob erasureCodingChunkSize
  let shards ← (encode c.simd padded).mapError .coding
  if shards.length = 0 then return noSpecification
  let bClubs := computeWellBalancedRoot c.hashData shards
  let pagedProofs ← (c.computePagedProofs exportedSegments).mapError .pagedProofs
  let combined := flattenBlobs (segBlobs ++ segmentsToByteSlices pagedProofs)
  let shards ← (encode c.simd combined).mapError .coding
  if shards.length = 0 then return noSpecification
  let sClubs := computeWellBalancedRoot c.hashData shards
  return {
    workPackageHash := packageHash
    auditableWorkBundleLength := UInt32.ofNat auditableBlob.length
    erasureRoot := computeWellBalancedRoot c.hashData [bClubs.toList, sClubs.toList]
    segmentRoot := e
    segmentCount := UInt16.ofNat exportedSegments.length }

structure Progress where
  results : List WorkResult
  exported : List Segment
  exportOffset : UInt64

def finalExported (expected : Nat) (exported : List Segment) : List Segment :=
  if exported.length < expected then
    exported ++ .replicate (expected - exported.length) zeroSegment
  else if expected < exported.length then exported.take expected
  else exported

def refineItem (wp : Package) (authOutput : Option (List UInt8)) (progress : Progress)
    (item : Work.Item) (index : Nat) : Call ComputationError Progress := do
  let imported ← (c.buildImportedSegments item).mapError .importedSegments
  let refined ← (c.refine (UInt32.ofNat index) wp authOutput imported.1
    progress.exportOffset).attempt
  let expected := item.exportedSegments.toNat
  let (out, exported) : WorkResultOutputOrError × List Segment :=
    match refined with
    | .error _ => (.error .unexpectedTermination, .replicate expected zeroSegment)
    | .ok (refineOut, exported) => (.output refineOut, finalExported expected exported)
  return {
    results := progress.results ++ [item.toWorkResult c.hashData out]
    exported := progress.exported ++ exported
    exportOffset := progress.exportOffset + item.exportedSegments.toUInt64 }

def refineItems (wp : Package) (authOutput : Option (List UInt8)) :
    Call ComputationError Progress :=
  wp.workItems.zipIdx.foldlM
    (fun progress item => c.refineItem wp authOutput progress item.1 item.2) ⟨[], [], 0⟩

def evaluateWorkPackage (order : GoMap.Traversal c.segmentRoots.keys) (wp : Package)
    (coreIndex : UInt16) : Call ComputationError WorkReport := do
  wp.validateNumberOfEntries.mapError ComputationError.package
  wp.validateSize.mapError ComputationError.package
  wp.validateGas.mapError ComputationError.package
  c.validateSegmentRootLookup order
  let audBlob ← (c.buildAuditableWorkPackage wp).mapError .auditable
  let authOutput ← (c.auth wp coreIndex).mapError .authorization
  let progress ← c.refineItems wp authOutput
  let availSpec ← (c.computeAvailabilitySpecifier (c.hashData wp.encode) audBlob
    progress.exported).mapError .availability
  return {
    workPackageSpecification := availSpec
    refinementContext := wp.context
    coreIndex := coreIndex
    authorizerHash := c.hashData (authOutput.getD [])
    output := authOutput.getD []
    segmentRootLookup := c.segmentRoots
    workResults := progress.results }

end Computation

inductive AuthorizationError where
  | notAuthorized
  deriving DecidableEq

def validateWorkPackageAuthorization (wp : Package) (coreIndex : UInt16)
    (authPool : CoreAuthorizersPool) : Call AuthorizationError Unit :=
  if h : coreIndex.toNat < totalNumberOfCores then
    Call.check (wp.authCodeHash ∈ authPool.get ⟨coreIndex.toNat, h⟩) .notAuthorized
  else .crash .indexOutOfRange

end Strawberry.Results
