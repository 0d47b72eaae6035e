import Strawberry.Common
import Strawberry.Lib.Maps

/-!
# Blocks

Package `block`: headers, the five extrinsics, work reports and their results, with the
encodings that are hashed or handed to programs.
-/

namespace Strawberry.Block

open Constants Jam

inductive WorkResultError where
  | noError
  | outOfGas
  | unexpectedTermination
  | codeNotAvailable
  | codeTooLarge
  deriving DecidableEq

def WorkResultError.index : WorkResultError → UInt8
  | noError => 0
  | outOfGas => 1
  | unexpectedTermination => 2
  | codeNotAvailable => 3
  | codeTooLarge => 4

inductive WorkResultOutputOrError where
  | output (bytes : List UInt8)
  | error (e : WorkResultError)
  | invalid
  deriving DecidableEq

structure WorkResult where
  serviceId : ServiceId
  serviceHashCode : Hash
  payloadHash : Hash
  gasPrioritizationRatio : UInt64
  output : WorkResultOutputOrError
  deriving DecidableEq

structure WorkPackageSpecification where
  workPackageHash : Hash
  auditableWorkBundleLength : UInt32
  erasureRoot : Hash
  segmentRoot : Hash
  segmentCount : UInt16
  deriving DecidableEq

structure RefinementContextAnchor where
  headerHash : Hash
  posteriorStateRoot : Hash
  posteriorBeefyRoot : Hash
  deriving DecidableEq

structure RefinementContextLookupAnchor where
  headerHash : Hash
  timeslot : Timeslot
  deriving DecidableEq

structure RefinementContext where
  anchor : RefinementContextAnchor
  lookupAnchor : RefinementContextLookupAnchor
  prerequisiteWorkPackage : List Hash
  deriving DecidableEq

structure WorkReport where
  workPackageSpecification : WorkPackageSpecification
  refinementContext : RefinementContext
  coreIndex : UInt16
  authorizerHash : Hash
  output : List UInt8
  segmentRootLookup : GoMap Hash Hash
  workResults : List WorkResult
  deriving DecidableEq

def encodeUint16 (x : UInt16) : List UInt8 := toLE 2 x.toNat

def WorkResultOutputOrError.encode : WorkResultOutputOrError → Except JamError (List UInt8)
  | output bytes => .ok (0 :: encodeBytes bytes)
  | error e => .ok [e.index]
  | invalid => .error .unsupportedEnumTypeValue

def encodeSliceM {α : Type} (encode : α → Except JamError (List UInt8)) (xs : List α) :
    Except JamError (List UInt8) := do
  let parts ← xs.mapM encode
  return serializeUint64 (UInt64.ofNat xs.length) ++ parts.flatten

def WorkResult.encode (r : WorkResult) : Except JamError (List UInt8) :=
  match r.output.encode with
  | .error e => .error (.encodingStructField "Output" e)
  | .ok output =>
    .ok (encodeUint32 r.serviceId ++ r.serviceHashCode.toList ++ r.payloadHash.toList ++
      encodeUint64 r.gasPrioritizationRatio ++ output)

def WorkPackageSpecification.encode (s : WorkPackageSpecification) : List UInt8 :=
  s.workPackageHash.toList ++ encodeUint32 s.auditableWorkBundleLength ++ s.erasureRoot.toList ++
    s.segmentRoot.toList ++ encodeUint16 s.segmentCount

def RefinementContext.encode (x : RefinementContext) : List UInt8 :=
  x.anchor.headerHash.toList ++ x.anchor.posteriorStateRoot.toList ++
    x.anchor.posteriorBeefyRoot.toList ++ x.lookupAnchor.headerHash.toList ++
    encodeUint32 x.lookupAnchor.timeslot ++ encodeSlice (·.toList) x.prerequisiteWorkPackage

def beNat (h : Hash) : Nat := leNat h.toList.reverse

def ofBeNat (n : Nat) : Hash := toArray 32 (toLE 32 n).reverse

def encodeHashMap (m : GoMap Hash Hash) : List UInt8 :=
  let keys := (m.keys.image beNat).sort.map ofBeNat
  serializeUint64 (UInt64.ofNat m.len) ++
    keys.flatMap fun k => k.toList ++ (m.getD k (.replicate 32 0)).toList

def WorkReport.encodeStruct (w : WorkReport) : Except JamError (List UInt8) :=
  match encodeSliceM WorkResult.encode w.workResults with
  | .error e => .error (.encodingStructField "WorkResults" e)
  | .ok results =>
    .ok (w.workPackageSpecification.encode ++ w.refinementContext.encode ++
      encodeUint16 w.coreIndex ++ w.authorizerHash.toList ++ encodeBytes w.output ++
      encodeHashMap w.segmentRootLookup ++ results)

def WorkReport.encode (w : WorkReport) : Except JamError (List UInt8) :=
  match w.encodeStruct with
  | .error e => .error e
  | .ok bytes => .ok (1 :: bytes)

def WorkReport.hash (hashData : HashData) (w : WorkReport) : Except JamError Hash :=
  match w.encode with
  | .error e => .error e
  | .ok bytes => .ok (hashData bytes)

def WorkResultOutputOrError.successfulSize : WorkResultOutputOrError → Nat
  | output bytes => bytes.length
  | error _ | invalid => 0

def WorkReport.outputSizeIsValid (w : WorkReport) : Bool :=
  (w.workResults.map (·.output.successfulSize)).sum + w.output.length ≤ maxWorkPackageSizeBytes

abbrev Core := Fin totalNumberOfCores

def allCores : List Core := List.finRange totalNumberOfCores

structure Ticket where
  identifier : BandersnatchOutputHash
  entryIndex : UInt8
  deriving DecidableEq

def Ticket.zero : Ticket := ⟨.replicate 32 0, 0⟩

structure TicketProof where
  entryIndex : UInt8
  proof : RingVrfSignature

structure Preimage where
  serviceIndex : UInt32
  data : List UInt8

structure CredentialSignature where
  validatorIndex : UInt16
  signature : Ed25519Signature

structure Guarantee where
  workReport : WorkReport
  timeslot : Timeslot
  credentials : List CredentialSignature

structure Assurance where
  anchor : Hash
  bitfield : Vector UInt8 availBitfieldBytes
  validatorIndex : UInt16
  signature : Ed25519Signature

theorem byteIndex_lt (coreIndex : Core) : coreIndex.val / 8 < availBitfieldBytes := by
  have := coreIndex.isLt
  unfold availBitfieldBytes
  omega

def hasAssuranceForCore (a : Assurance) (coreIndex : Core) : Bool :=
  let byteIndex : Fin availBitfieldBytes := ⟨coreIndex.val / 8, byteIndex_lt coreIndex⟩
  a.bitfield.get byteIndex &&& (1 <<< UInt8.ofNat (coreIndex.val % 8)) ≠ 0

structure Judgement where
  isValid : Bool
  validatorIndex : UInt16
  signature : Ed25519Signature

structure Verdict where
  reportHash : Hash
  epochIndex : UInt32
  judgements : Vector Judgement validatorsSuperMajority

def countPositiveJudgments (judgments : Vector Judgement validatorsSuperMajority) : Nat :=
  judgments.toList.countP (·.isValid)

structure Culprit where
  reportHash : Hash
  validatorEd25519PublicKey : Ed25519Key
  signature : Ed25519Signature

structure Fault where
  reportHash : Hash
  isValid : Bool
  validatorEd25519PublicKey : Ed25519Key
  signature : Ed25519Signature

structure DisputeExtrinsic where
  verdicts : List Verdict
  culprits : List Culprit
  faults : List Fault

structure Extrinsic where
  et : List TicketProof
  ep : List Preimage
  eg : List Guarantee
  ea : List Assurance
  ed : DisputeExtrinsic

structure EpochMarker where
  entropy : Hash
  ticketsEntropy : Hash
  keys : Vector BandersnatchPublicKey numberOfValidators

abbrev WinningTicketMarker := Vector Ticket timeslotsPerEpoch

structure Header where
  parentHash : Hash
  priorStateRoot : Hash
  extrinsicHash : Hash
  timeSlotIndex : Timeslot
  epochMarker : Option EpochMarker
  winningTicketsMarker : Option WinningTicketMarker
  offendersMarkers : List Ed25519Key
  blockAuthorIndex : UInt16
  vrfSignature : BandersnatchSignature
  blockSealSignature : BandersnatchSignature

def Header.zero : Header :=
  { parentHash := .replicate 32 0, priorStateRoot := .replicate 32 0
    extrinsicHash := .replicate 32 0, timeSlotIndex := 0, epochMarker := none
    winningTicketsMarker := none, offendersMarkers := [], blockAuthorIndex := 0
    vrfSignature := .replicate 96 0, blockSealSignature := .replicate 96 0 }

def encodePointer {α : Type} (encode : α → List UInt8) : Option α → List UInt8
  | none => [0]
  | some a => 1 :: encode a

def Ticket.encode (t : Ticket) : List UInt8 := t.identifier.toList ++ [t.entryIndex]

def EpochMarker.encode (m : EpochMarker) : List UInt8 :=
  m.entropy.toList ++ m.ticketsEntropy.toList ++ m.keys.toList.flatMap (·.toList)

def Header.bytes (h : Header) : List UInt8 :=
  h.parentHash.toList ++ h.priorStateRoot.toList ++ h.extrinsicHash.toList ++
    encodeUint32 h.timeSlotIndex ++ encodePointer EpochMarker.encode h.epochMarker ++
    encodePointer (·.toList.flatMap Ticket.encode) h.winningTicketsMarker ++
    encodeSlice (·.toList) h.offendersMarkers ++ encodeUint16 h.blockAuthorIndex ++
    h.vrfSignature.toList ++ h.blockSealSignature.toList

def Header.hash (hashData : HashData) (h : Header) : Hash := hashData h.bytes

end Strawberry.Block

namespace Strawberry

structure Block where
  header : Block.Header
  extrinsic : Block.Extrinsic

end Strawberry
