import Strawberry.Block.Wire

/-!
# Encoding and decoding blocks

The codec's results for all types, and what they say of headers, work reports and blocks.
-/

namespace Strawberry.Block

open Constants Jam

theorem Ticket.marshal_wire (t : Ticket) : Ticket.wire.marshal t = .ok t.encode :=
  marshal_field (marshal_byteArray _) (marshal_field (marshal_uint8 _) marshal_nil)

theorem EpochMarker.marshal_wire (m : EpochMarker) : EpochMarker.wire.marshal m = .ok m.encode := by
  have h : EpochMarker.wire.marshal m = _ :=
    marshal_field (marshal_byteArray m.entropy) <|
    marshal_field (marshal_byteArray m.ticketsEntropy) <|
    marshal_field (marshal_array fun key _ => marshal_byteArray key) marshal_nil
  rw [h, EpochMarker.encode, List.append_nil, List.append_assoc]

theorem elim_eq_encodePointer {α : Type} (encode : α → List UInt8) (p : Option α) :
    (p.elim [0] fun x => 1 :: encode x) = encodePointer encode p := by
  cases p with
  | none | some => rfl

theorem Header.marshal_wire (h : Header) : Header.wire.marshal h = .ok h.bytes := by
  have hbytes : Header.wire.marshal h = _ :=
    marshal_field (marshal_byteArray h.parentHash) <|
    marshal_field (marshal_byteArray h.priorStateRoot) <|
    marshal_field (marshal_byteArray h.extrinsicHash) <|
    marshal_field (marshal_uint32 h.timeSlotIndex) <|
    marshal_field (marshal_pointer rfl fun m _ => m.marshal_wire) <|
    marshal_field (marshal_pointer rfl fun m _ => marshal_array fun t _ => t.marshal_wire) <|
    marshal_field (marshal_slice fun key _ => marshal_publicKey key) <|
    marshal_field (marshal_uint16 h.blockAuthorIndex) <|
    marshal_field (marshal_byteArray h.vrfSignature) <|
    marshal_field (marshal_byteArray h.blockSealSignature) marshal_nil
  rw [hbytes, elim_eq_encodePointer, elim_eq_encodePointer]
  simp only [Header.bytes, encodeUint32, encodeUint16, List.append_assoc, List.append_nil]

end Strawberry.Block

namespace Strawberry

open Block Jam List

def Block.bytes (b : Block) : Call JamError (List UInt8) := Block.wire.marshal b

def readBlock (s : Strictness) (data : List UInt8) : Except JamError (Block × Reader) :=
  Block.wire.read s data

def blockFromBytes (data : List UInt8) : Except JamError Block := Block.wire.unmarshal data

def headerFromBytes (data : List UInt8) : Except JamError Header := Header.wire.unmarshal data

def Block.Header.Fits (h : Header) : Prop := h.offendersMarkers.length < 2 ^ 64

def Block.WorkResultOutputOrError.Fits : WorkResultOutputOrError → Prop
  | .output bytes => bytes.length ≤ maxUint32
  | .error e => e ≠ .noError
  | .invalid => False

@[mk_iff] structure Block.WorkReport.Fits (w : WorkReport) : Prop where
  prerequisites : w.refinementContext.prerequisiteWorkPackage.length < 2 ^ 64
  output : w.output.length ≤ maxUint32
  lookup : w.segmentRootLookup.len < 2 ^ 64
  results : w.workResults.length < 2 ^ 64
  result : ∀ r ∈ w.workResults, r.output.Fits

@[mk_iff] structure Block.Extrinsic.Fits (e : Extrinsic) : Prop where
  tickets : e.et.length < 2 ^ 64
  preimages : e.ep.length < 2 ^ 64
  preimage : ∀ p ∈ e.ep, p.data.length ≤ maxUint32
  guarantees : e.eg.length < 2 ^ 64
  guarantee : ∀ g ∈ e.eg, g.workReport.Fits ∧ g.credentials.length < 2 ^ 64
  assurances : e.ea.length < 2 ^ 64
  verdicts : e.ed.verdicts.length < 2 ^ 64
  culprits : e.ed.culprits.length < 2 ^ 64
  faults : e.ed.faults.length < 2 ^ 64

@[mk_iff] structure Block.Fits (b : Block) : Prop where
  header : b.header.Fits
  extrinsic : b.extrinsic.Fits

namespace Block

theorem Header.wire_fits {h : Header} : Header.wire.Fits h ↔ h.Fits := by
  simp [Header.wire, EpochMarker.wire, Ticket.wire, hashWire, Header.Fits]

theorem WorkResultOutputOrError.wire_fits {o : WorkResultOutputOrError} :
    WorkResultOutputOrError.wire.Fits o ↔ o.Fits := by
  match o with
  | .output bytes => exact Iff.rfl
  | .error .noError => exact iff_of_false (fun h => h.1 rfl) (fun h => h rfl)
  | .error .outOfGas => exact iff_of_true ⟨by decide, by decide, trivial⟩ nofun
  | .error .unexpectedTermination =>
    exact iff_of_true ⟨by decide, by decide, by decide, trivial⟩ nofun
  | .error .codeNotAvailable =>
    exact iff_of_true ⟨by decide, by decide, by decide, by decide, trivial⟩ nofun
  | .error .codeTooLarge =>
    exact iff_of_true ⟨by decide, by decide, by decide, by decide, by decide, trivial⟩ nofun
  | .invalid => exact iff_of_false (fun h => h.2.2.2.2.2.2) id

theorem WorkReport.wire_fits {w : WorkReport} : WorkReport.wire.Fits w ↔ w.Fits := by
  simp [WorkReport.wire, WorkPackageSpecification.wire, RefinementContext.wire,
    RefinementContextAnchor.wire, RefinementContextLookupAnchor.wire, WorkResult.wire, hashWire,
    WorkResultOutputOrError.wire_fits, WorkReport.fits_iff]

theorem Extrinsic.wire_fits {e : Extrinsic} : Extrinsic.wire.Fits e ↔ e.Fits := by
  simp [Extrinsic.wire, ticketExtrinsic, guaranteesExtrinsic, oneField, TicketProof.wire,
    Preimage.wire, Guarantee.wire, CredentialSignature.wire, Assurance.wire,
    DisputeExtrinsic.wire, Verdict.wire, Judgement.wire, Culprit.wire, Fault.wire, hashWire,
    WorkReport.wire_fits, Extrinsic.fits_iff, and_assoc]

end Block

theorem Block.wire_fits {b : Block} : Block.wire.Fits b ↔ b.Fits := by
  simp [Block.wire, Header.wire_fits, Extrinsic.wire_fits, Block.fits_iff]

theorem Block.Header.wire_supported : Header.wire.Supported := by
  simp [Header.wire, EpochMarker.wire, Ticket.wire, hashWire]

theorem Block.WorkReport.wire_supported : WorkReport.wire.Supported := by
  have houtput : WorkResultOutputOrError.wire.Supported := ⟨trivial, trivial⟩
  simpa [WorkReport.wire, WorkPackageSpecification.wire, RefinementContext.wire,
    RefinementContextAnchor.wire, RefinementContextLookupAnchor.wire, WorkResult.wire, hashWire]
    using houtput

theorem Block.Extrinsic.wire_supported : Extrinsic.wire.Supported := by
  simpa [Extrinsic.wire, ticketExtrinsic, guaranteesExtrinsic, oneField, TicketProof.wire,
    Preimage.wire, Guarantee.wire, CredentialSignature.wire, Assurance.wire,
    DisputeExtrinsic.wire, Verdict.wire, Judgement.wire, Culprit.wire, Fault.wire, hashWire]
    using WorkReport.wire_supported

theorem Block.wire_supported : Block.wire.Supported :=
  ⟨Header.wire_supported, Extrinsic.wire_supported, trivial⟩

theorem Block.header_prefix {b : Block} {data : List UInt8} (h : b.bytes = .ok data) :
    b.header.bytes <+: data := by
  obtain ⟨head, hhead, h⟩ := Call.bind_eq_ok.mp h
  obtain ⟨tail, -, h⟩ := Call.bind_eq_ok.mp h
  have hheader : inField (.encodingStructField "Header") (Header.wire.marshal b.header) =
      .ok b.header.bytes := by
    rw [Header.marshal_wire]
    rfl
  have hhead : head = b.header.bytes := (Call.ok_inj.mp (hheader.symm.trans hhead)).symm
  rw [← Call.pure_eq_ok.mp h, hhead]
  exact prefix_append _ _

theorem Block.Header.bytes_ne_nil (h : Header) : h.bytes ≠ [] := by
  intro hnil
  have hlen := congrArg List.length hnil
  simp [Header.bytes] at hlen

theorem Block.bytes_ne_nil {b : Block} {data : List UInt8} (h : b.bytes = .ok data) : data ≠ [] := by
  rintro rfl
  exact b.header.bytes_ne_nil (prefix_nil.mp (Block.header_prefix h))

theorem blockFromBytes_bytes {b : Block} (hb : b.Fits) :
    ∃ bytes, b.bytes = .ok bytes ∧ ∀ rest, blockFromBytes (bytes ++ rest) = .ok b := by
  obtain ⟨bytes, hbytes, hdec⟩ := Wire.written (Block.wire_fits.mpr hb)
  refine ⟨bytes, hbytes, ?_⟩
  intro rest
  have hne : bytes ++ rest ≠ [] := append_ne_nil_of_left_ne_nil (Block.bytes_ne_nil hbytes) _
  exact (Wire.unmarshal_eq_ok rfl hne).mpr ⟨rest, hdec.reads .code rest⟩

theorem headerFromBytes_bytes {h : Header} (hh : h.Fits) : headerFromBytes h.bytes = .ok h := by
  obtain ⟨bytes, hbytes, hdec⟩ := Wire.written (Header.wire_fits.mpr hh)
  rw [h.marshal_wire] at hbytes
  cases hbytes
  refine (Wire.unmarshal_eq_ok rfl h.bytes_ne_nil).mpr ⟨[], ?_⟩
  have hread := hdec.reads .code []
  rwa [append_nil] at hread

theorem Block.fits_of_blockFromBytes {b : Block} {data : List UInt8} (hdata : data ≠ [])
    (h : blockFromBytes data = .ok b) : b.Fits := by
  obtain ⟨rest, hrest⟩ := (Wire.unmarshal_eq_ok rfl hdata).mp h
  exact Block.wire_fits.mp (Ty.fits_of_decoded .code _ Block.wire_supported _ _ _
    (Wire.decode_eq_ok.mp hrest))

/-- The encoding of the value, with any octets behind, is read back by the reader and, where the
destination is not itself a pointer, by `Unmarshal`. -/
def RoundTrips (t : Ty) (v : t.Val) : Prop :=
  ∃ bytes, marshal t v = .ok bytes ∧ ∀ rest, unmarshal t (bytes ++ rest) = .ok (v, rest) ∧
    (t.isPointer = false → bytes ++ rest ≠ [] →
      unmarshalBytes .code t (bytes ++ rest) = .ok (v, rest))

/-- When what is written is read back. -/
theorem codec_round_trip (t : Ty) (b : Block) :
    (∀ v : t.Val, t.Fits v → RoundTrips t v) ∧
    (t.Supported → ∀ v : t.Val, RoundTrips t v → t.Fits v) ∧
    (b.Fits ↔ ∃ bytes, b.bytes = .ok bytes ∧ ∀ rest, blockFromBytes (bytes ++ rest) = .ok b) := by
  refine ⟨?_, ?_, blockFromBytes_bytes, ?_⟩
  · intro v hv
    obtain ⟨bytes, hbytes, hdec⟩ := t.written v hv
    refine ⟨bytes, hbytes, fun rest => ⟨hdec.reads .code rest, ?_⟩⟩
    intro hpointer hne
    rw [unmarshalBytes_eq hpointer _ hne]
    exact hdec.reads .code rest
  · rintro ht v ⟨bytes, -, hread⟩
    exact t.fits_of_decoded .code ht _ v [] (hread []).1
  · rintro ⟨bytes, hbytes, hread⟩
    exact Block.fits_of_blockFromBytes
      (append_ne_nil_of_left_ne_nil (Block.bytes_ne_nil hbytes) []) (hread [])

def Block.zero : Block := ⟨Header.zero, ⟨[], [], [], [], ⟨[], [], []⟩⟩⟩

theorem Block.Header.zero_fits : Header.zero.Fits := show 0 < 2 ^ 64 by decide

theorem Block.zero_fits : Block.zero.Fits where
  header := Header.zero_fits
  extrinsic := ⟨by decide, by decide, nofun, by decide, nofun, by decide, by decide, by decide,
    by decide⟩

def flags : Ty := .enum (.bare 0 (.bare 1 (.nil .unknownEnumTypeValue)))

theorem codec_round_trip_zero : RoundTrips (.slice (.pointer flags)) [] ∧
    ¬ RoundTrips (.struct (.tagged "Length" 8 (.prim .uint) .nil)) ((7 : UInt64), ()) ∧
    ∃ bytes, Block.zero.bytes = .ok bytes ∧
      ∀ rest, blockFromBytes (bytes ++ rest) = .ok Block.zero :=
  ⟨(codec_round_trip _ Block.zero).1 _ ⟨by decide, nofun⟩,
    fun h => ((codec_round_trip (.struct (.tagged "Length" 8 (.prim .uint) .nil))
      Block.zero).2.1 trivial _ h).1,
    (codec_round_trip .bytes Block.zero).2.2.mp Block.zero_fits⟩

theorem codec_round_trip_fails : (marshal (.pointer flags) (some (.inl ())) = .ok [0] ∧
      unmarshal (.pointer flags) [0] = .ok (none, [])) ∧
    (marshal (.struct (.tagged "Length" 8 (.prim .uint) .nil)) ((7 : UInt64), ()) =
        .ok [7, 0, 0, 0, 0, 0, 0, 0] ∧
      unmarshal (.struct (.tagged "Length" 8 (.prim .uint) .nil)) [7, 0, 0, 0, 0, 0, 0, 0] =
        .error (.encodingStructField "Length" .unsupportedType)) ∧
    (WorkResultOutputOrError.wire.marshal (.error .noError) = .ok [0] ∧
      WorkResultOutputOrError.wire.unmarshal [0, 2, 8, 9] = .ok (.output [8, 9])) :=
  ⟨⟨rfl, rfl⟩, ⟨rfl, rfl⟩, rfl, rfl⟩

theorem readBlock_append {s : Strictness} {h : Header} (hh : h.Fits) {r r' : Reader}
    {e : Extrinsic} (he : Extrinsic.wire.decode s r = .ok (e, r')) :
    readBlock s (h.bytes ++ r) = .ok (⟨h, e⟩, r') := by
  obtain ⟨bytes, hbytes, hdec⟩ := Wire.written (Header.wire_fits.mpr hh)
  rw [h.marshal_wire] at hbytes
  cases hbytes
  have hne : h.bytes ++ r ≠ [] := append_ne_nil_of_left_ne_nil h.bytes_ne_nil _
  have hheader := Wire.decode_eq_ok.mp (hdec.reads s r)
  have hextrinsic := Wire.decode_eq_ok.mp he
  rw [readBlock, read_cons rfl _ hne, Wire.decode_eq_ok]
  refine Decoder.bind_eq_ok.mpr ⟨_, _, Decoder.mapError_eq_ok.mpr hheader, ?_⟩
  refine Decoder.bind_eq_ok.mpr ⟨(Extrinsic.wire.equiv e, ()), r', ?_, rfl⟩
  exact Decoder.bind_eq_ok.mpr ⟨_, _, Decoder.mapError_eq_ok.mpr hextrinsic, rfl⟩

/-- Which accepted inputs are the encoding of their block. -/
theorem accepted_is_canonical_iff (data : List UInt8) (b : Block) :
    (∀ rest, readBlock .code data = .ok (b, rest) → (b.bytes = .ok data ↔
        data ≠ [] ∧ rest = [] ∧ readBlock .canonical data = .ok (b, []))) ∧
    ∀ data', data ≠ [] → data' ≠ [] →
      readBlock .canonical data = .ok (b, []) → readBlock .canonical data' = .ok (b, []) →
      data = data' := by
  constructor
  · intro rest h
    by_cases hdata : data = []
    · -- an empty input is accepted, and no encoding is empty
      exact iff_of_false (fun hbytes => Block.bytes_ne_nil hbytes hdata) fun hne => hne.1 hdata
    · unfold readBlock at h ⊢
      rw [read_cons rfl _ hdata] at h ⊢
      rw [and_iff_right hdata]
      exact Wire.marshal_eq_iff Block.wire_supported h
  · intro data' hdata hdata' h h'
    unfold readBlock at h h'
    rw [read_cons rfl _ hdata] at h
    rw [read_cons rfl _ hdata'] at h'
    obtain ⟨bytes, hbytes, rfl⟩ := Wire.recovers Block.wire_supported data b [] h
    obtain ⟨bytes', hbytes', rfl⟩ := Wire.recovers Block.wire_supported data' b [] h'
    rw [Call.ok_inj.mp (hbytes.symm.trans hbytes')]

theorem accepted_is_canonical_iff_zero :
    readBlock .canonical (Header.zero.bytes ++ List.replicate 7 0) = .ok (Block.zero, []) ∧
      Block.zero.bytes = .ok (Header.zero.bytes ++ List.replicate 7 0) := by
  have hcanonical : readBlock .canonical (Header.zero.bytes ++ List.replicate 7 0) =
      .ok (Block.zero, []) := readBlock_append Header.zero_fits rfl
  have hcode : readBlock .code (Header.zero.bytes ++ List.replicate 7 0) = .ok (Block.zero, []) :=
    readBlock_append Header.zero_fits rfl
  have hne := append_ne_nil_of_left_ne_nil Header.zero.bytes_ne_nil (List.replicate 7 0)
  exact ⟨hcanonical, ((accepted_is_canonical_iff _ _).1 _ hcode).mpr ⟨hne, rfl, hcanonical⟩⟩

theorem accepted_not_canonical :
    readBlock .full (Header.zero.bytes ++ List.replicate 7 0) = .ok (Block.zero, []) ∧
    readBlock .full (Header.zero.bytes ++ List.replicate 8 0) = .ok (Block.zero, [0]) ∧
    readBlock .full (Header.zero.bytes ++ 128 :: List.replicate 7 0) = .ok (Block.zero, []) ∧
    blockFromBytes (Header.zero.bytes ++ List.replicate 8 0) = .ok Block.zero ∧
    blockFromBytes (Header.zero.bytes ++ 128 :: List.replicate 7 0) = .ok Block.zero := by
  have hcode : ∀ {r r' : Reader}, Extrinsic.wire.decode .code r = .ok (Block.zero.extrinsic, r') →
      blockFromBytes (Header.zero.bytes ++ r) = .ok Block.zero := by
    intro r r' h
    have hread := readBlock_append Header.zero_fits h
    rw [blockFromBytes, Wire.unmarshal]
    unfold readBlock at hread
    rw [hread]
    rfl
  exact ⟨readBlock_append Header.zero_fits rfl, readBlock_append Header.zero_fits rfl,
    readBlock_append Header.zero_fits rfl, hcode rfl, hcode rfl⟩

end Strawberry
