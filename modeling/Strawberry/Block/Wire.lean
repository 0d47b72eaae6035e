import Strawberry.Block
import Strawberry.Codec.Wire

/-!
# Blocks on the wire

What the codec sees of a block and its parts: the fields of every struct in their order, and the
enumeration of the results of work.
-/

namespace Strawberry.Block

open Constants Jam

def WorkResultOutputOrError.wire : Wire WorkResultOutputOrError where
  ty := .enum <| .holding 0 .bytes <| .bare 0 <| .bare 1 <| .bare 2 <| .bare 3 <| .bare 4 <|
    .nil .unknownEnumTypeValue
  equiv :=
    { toFun := fun
        | .output bytes => .inl bytes
        | .error .noError => .inr (.inl ())
        | .error .outOfGas => .inr (.inr (.inl ()))
        | .error .unexpectedTermination => .inr (.inr (.inr (.inl ())))
        | .error .codeNotAvailable => .inr (.inr (.inr (.inr (.inl ()))))
        | .error .codeTooLarge => .inr (.inr (.inr (.inr (.inr (.inl ())))))
        | .invalid => .inr (.inr (.inr (.inr (.inr (.inr ())))))
      invFun := fun
        | .inl bytes => .output bytes
        | .inr (.inl ()) => .error .noError
        | .inr (.inr (.inl ())) => .error .outOfGas
        | .inr (.inr (.inr (.inl ()))) => .error .unexpectedTermination
        | .inr (.inr (.inr (.inr (.inl ())))) => .error .codeNotAvailable
        | .inr (.inr (.inr (.inr (.inr (.inl ()))))) => .error .codeTooLarge
        | .inr (.inr (.inr (.inr (.inr (.inr ()))))) => .invalid
      left_inv := by
        rintro (bytes | (_ | _ | _ | _ | _) | _) <;> rfl
      right_inv := by
        rintro (bytes | ⟨⟩ | ⟨⟩ | ⟨⟩ | ⟨⟩ | ⟨⟩ | ⟨⟩) <;> rfl }

def hashWire : Wire Hash := .byteArray 32

def WorkResult.wire : Wire WorkResult :=
  Record.struct (.field "ServiceId" .uint32 <| .field "ServiceHashCode" hashWire <|
      .field "PayloadHash" hashWire <| .field "GasPrioritizationRatio" .uint64 <|
      .field "Output" WorkResultOutputOrError.wire .nil)
    { toFun := fun r => (r.serviceId, r.serviceHashCode, r.payloadHash,
        r.gasPrioritizationRatio, r.output, ())
      invFun := fun (a, b, c, d, e, ()) => ⟨a, b, c, d, e⟩ }

def WorkPackageSpecification.wire : Wire WorkPackageSpecification :=
  Record.struct (.field "WorkPackageHash" hashWire <| .field "AuditableWorkBundleLength" .uint32 <|
      .field "ErasureRoot" hashWire <| .field "SegmentRoot" hashWire <|
      .field "SegmentCount" .uint16 .nil)
    { toFun := fun s => (s.workPackageHash, s.auditableWorkBundleLength, s.erasureRoot,
        s.segmentRoot, s.segmentCount, ())
      invFun := fun (a, b, c, d, e, ()) => ⟨a, b, c, d, e⟩ }

def RefinementContextAnchor.wire : Wire RefinementContextAnchor :=
  Record.struct (.field "HeaderHash" hashWire <| .field "PosteriorStateRoot" hashWire <|
      .field "PosteriorBeefyRoot" hashWire .nil)
    { toFun := fun a => (a.headerHash, a.posteriorStateRoot, a.posteriorBeefyRoot, ())
      invFun := fun (a, b, c, ()) => ⟨a, b, c⟩ }

def RefinementContextLookupAnchor.wire : Wire RefinementContextLookupAnchor :=
  Record.struct (.field "HeaderHash" hashWire <| .field "Timeslot" .uint32 .nil)
    { toFun := fun a => (a.headerHash, a.timeslot, ())
      invFun := fun (a, b, ()) => ⟨a, b⟩ }

def RefinementContext.wire : Wire RefinementContext :=
  Record.struct (.field "Anchor" RefinementContextAnchor.wire <|
      .field "LookupAnchor" RefinementContextLookupAnchor.wire <|
      .field "PrerequisiteWorkPackage" hashWire.slice .nil)
    { toFun := fun x => (x.anchor, x.lookupAnchor, x.prerequisiteWorkPackage, ())
      invFun := fun (a, b, c, ()) => ⟨a, b, c⟩ }

def WorkReport.wire : Wire WorkReport :=
  Record.struct (.field "WorkPackageSpecification" WorkPackageSpecification.wire <|
      .field "RefinementContext" RefinementContext.wire <| .field "CoreIndex" .uint16 <|
      .field "AuthorizerHash" hashWire <| .field "Output" .bytes <|
      .field "SegmentRootLookup" (.byteArrayMap 32 32) <|
      .field "WorkResults" WorkResult.wire.slice .nil)
    { toFun := fun w => (w.workPackageSpecification, w.refinementContext, w.coreIndex,
        w.authorizerHash, w.output, w.segmentRootLookup, w.workResults, ())
      invFun := fun (a, b, c, d, e, f, g, ()) => ⟨a, b, c, d, e, f, g⟩ }

def Ticket.wire : Wire Ticket :=
  Record.struct (.field "Identifier" (.byteArray 32) <| .field "EntryIndex" .uint8 .nil)
    { toFun := fun t => (t.identifier, t.entryIndex, ())
      invFun := fun (a, b, ()) => ⟨a, b⟩ }

def TicketProof.wire : Wire TicketProof :=
  Record.struct (.field "EntryIndex" .uint8 <| .field "Proof" (.byteArray 784) .nil)
    { toFun := fun t => (t.entryIndex, t.proof, ())
      invFun := fun (a, b, ()) => ⟨a, b⟩ }

def oneField {α : Type} (name : String) (w : Wire α) : Wire α :=
  Record.struct (.field name w .nil)
    { toFun := fun a => (a, ())
      invFun := fun (a, ()) => a }

def ticketExtrinsic : Wire (List TicketProof) := oneField "TicketProofs" TicketProof.wire.slice

def Preimage.wire : Wire Preimage :=
  Record.struct (.field "ServiceIndex" .uint32 <| .field "Data" .bytes .nil)
    { toFun := fun p => (p.serviceIndex, p.data, ())
      invFun := fun (a, b, ()) => ⟨a, b⟩ }

def CredentialSignature.wire : Wire CredentialSignature :=
  Record.struct (.field "ValidatorIndex" .uint16 <| .field "Signature" (.byteArray 64) .nil)
    { toFun := fun c => (c.validatorIndex, c.signature, ())
      invFun := fun (a, b, ()) => ⟨a, b⟩ }

def Guarantee.wire : Wire Guarantee :=
  Record.struct (.field "WorkReport" WorkReport.wire <| .field "Timeslot" .uint32 <|
      .field "Credentials" CredentialSignature.wire.slice .nil)
    { toFun := fun g => (g.workReport, g.timeslot, g.credentials, ())
      invFun := fun (a, b, c, ()) => ⟨a, b, c⟩ }

def guaranteesExtrinsic : Wire (List Guarantee) := oneField "Guarantees" Guarantee.wire.slice

def Assurance.wire : Wire Assurance :=
  Record.struct (.field "Anchor" hashWire <| .field "Bitfield" (.byteArray availBitfieldBytes) <|
      .field "ValidatorIndex" .uint16 <| .field "Signature" (.byteArray 64) .nil)
    { toFun := fun a => (a.anchor, a.bitfield, a.validatorIndex, a.signature, ())
      invFun := fun (a, b, c, d, ()) => ⟨a, b, c, d⟩ }

def Judgement.wire : Wire Judgement :=
  Record.struct (.field "IsValid" .bool <| .field "ValidatorIndex" .uint16 <|
      .field "Signature" (.byteArray 64) .nil)
    { toFun := fun j => (j.isValid, j.validatorIndex, j.signature, ())
      invFun := fun (a, b, c, ()) => ⟨a, b, c⟩ }

def Verdict.wire : Wire Verdict :=
  Record.struct (.field "ReportHash" hashWire <| .field "EpochIndex" .uint32 <|
      .field "Judgements" (Judgement.wire.array validatorsSuperMajority) .nil)
    { toFun := fun v => (v.reportHash, v.epochIndex, v.judgements, ())
      invFun := fun (a, b, c, ()) => ⟨a, b, c⟩ }

def Culprit.wire : Wire Culprit :=
  Record.struct (.field "ReportHash" hashWire <| .field "ValidatorEd25519PublicKey" .publicKey <|
      .field "Signature" (.byteArray 64) .nil)
    { toFun := fun c => (c.reportHash, c.validatorEd25519PublicKey, c.signature, ())
      invFun := fun (a, b, c, ()) => ⟨a, b, c⟩ }

def Fault.wire : Wire Fault :=
  Record.struct (.field "ReportHash" hashWire <| .field "IsValid" .bool <|
      .field "ValidatorEd25519PublicKey" .publicKey <| .field "Signature" (.byteArray 64) .nil)
    { toFun := fun f => (f.reportHash, f.isValid, f.validatorEd25519PublicKey, f.signature, ())
      invFun := fun (a, b, c, d, ()) => ⟨a, b, c, d⟩ }

def DisputeExtrinsic.wire : Wire DisputeExtrinsic :=
  Record.struct (.field "Verdicts" Verdict.wire.slice <| .field "Culprits" Culprit.wire.slice <|
      .field "Faults" Fault.wire.slice .nil)
    { toFun := fun d => (d.verdicts, d.culprits, d.faults, ())
      invFun := fun (a, b, c, ()) => ⟨a, b, c⟩ }

def Extrinsic.wire : Wire Extrinsic :=
  Record.struct (.field "ET" ticketExtrinsic <| .field "EP" Preimage.wire.slice <|
      .field "EG" guaranteesExtrinsic <| .field "EA" Assurance.wire.slice <|
      .field "ED" DisputeExtrinsic.wire .nil)
    { toFun := fun e => (e.et, e.ep, e.eg, e.ea, e.ed, ())
      invFun := fun (a, b, c, d, e, ()) => ⟨a, b, c, d, e⟩ }

def EpochMarker.wire : Wire EpochMarker :=
  Record.struct (.field "Entropy" hashWire <| .field "TicketsEntropy" hashWire <|
      .field "Keys" ((Wire.byteArray 32).array numberOfValidators) .nil)
    { toFun := fun m => (m.entropy, m.ticketsEntropy, m.keys, ())
      invFun := fun (a, b, c, ()) => ⟨a, b, c⟩ }

def Header.wire : Wire Header :=
  Record.struct (.field "ParentHash" hashWire <| .field "PriorStateRoot" hashWire <|
      .field "ExtrinsicHash" hashWire <| .field "TimeSlotIndex" .uint32 <|
      .field "EpochMarker" EpochMarker.wire.pointer <|
      .field "WinningTicketsMarker" (Ticket.wire.array timeslotsPerEpoch).pointer <|
      .field "OffendersMarkers" Wire.publicKey.slice <| .field "BlockAuthorIndex" .uint16 <|
      .field "VRFSignature" (.byteArray 96) <| .field "BlockSealSignature" (.byteArray 96) .nil)
    { toFun := fun h => (h.parentHash, h.priorStateRoot, h.extrinsicHash, h.timeSlotIndex,
        h.epochMarker, h.winningTicketsMarker, h.offendersMarkers, h.blockAuthorIndex,
        h.vrfSignature, h.blockSealSignature, ())
      invFun := fun (a, b, c, d, e, f, g, h, i, j, ()) => ⟨a, b, c, d, e, f, g, h, i, j⟩ }

end Strawberry.Block

namespace Strawberry

open Jam

def Block.wire : Wire Block :=
  Record.struct (.field "Header" Block.Header.wire <| .field "Extrinsic" Block.Extrinsic.wire .nil)
    { toFun := fun b => (b.header, b.extrinsic, ())
      invFun := fun (a, b, ()) => ⟨a, b⟩ }

end Strawberry
