import Strawberry.StateTransition.Queue

/-!
# Block seals

`state/block_seal.go`: the author of a block signs its header, and whoever imports the
block checks the two signatures.
-/

namespace Strawberry.State

open Block Constants

abbrev BandersnatchPrivateKey := Vector UInt8 32

structure Bandersnatch where
  publicOf : BandersnatchPrivateKey → Option BandersnatchPublicKey
  sign : BandersnatchPrivateKey → List UInt8 → List UInt8 → Option BandersnatchSignature
  verify : BandersnatchPublicKey → List UInt8 → List UInt8 → BandersnatchSignature → Bool
  outputHash : BandersnatchSignature → Option BandersnatchOutputHash

structure Bandersnatch.SignsExactly (vrf : Bandersnatch) : Prop where
  verify_iff : ∀ {privateKey publicKey context aux signature},
    vrf.publicOf privateKey = some publicKey →
    vrf.sign privateKey context aux = some signature →
    ∀ key, vrf.verify key context aux signature = true ↔ key = publicKey
  outputHash_eq : ∀ {privateKey context aux aux' signature signature'},
    vrf.sign privateKey context aux = some signature →
    vrf.sign privateKey context aux' = some signature' →
    vrf.outputHash signature = vrf.outputHash signature'

inductive SealError where
  | unexpectedTicketsOrKeys
  | invalidAuthor
  | generatingPublicKey
  | generatingSignature
  | gettingOutputHash
  deriving DecidableEq

def buildTicketSealContext (entropy : Hash) (ticketAttempt : UInt8) : List UInt8 :=
  ascii "jam_ticket_seal" ++ entropy.toList ++ [ticketAttempt]

def buildTicketFallbackContext (entropy : Hash) : List UInt8 :=
  ascii "jam_fallback_seal" ++ entropy.toList

def buildVRFContext (sealOutputHash : BandersnatchOutputHash) : List UInt8 :=
  ascii "jam_entropy" ++ sealOutputHash.toList

def encodeUnsealedHeader (header : Header) : List UInt8 :=
  header.bytes.take (header.bytes.length - 96)

inductive TicketOrKey where
  | ticket (ticket : Ticket)
  | key (key : BandersnatchPublicKey)

def indexInEpoch (ts : Timeslot) : Fin timeslotsPerEpoch :=
  ⟨(timeslotInEpoch ts).toNat, by
    rw [timeslotInEpoch_toNat]
    exact Nat.mod_lt _ (by decide)⟩

def getWinningTicketOrKey (header : Header) (state : State) : Except SealError TicketOrKey :=
  let index := indexInEpoch header.timeSlotIndex
  match state.validatorState.safroleState.sealingKeySeries with
  | .tickets bodies => .ok (.ticket (bodies.get index))
  | .keys epochKeys => .ok (.key (epochKeys.get index))
  | .none => .error .unexpectedTicketsOrKeys

section

variable (vrf : Bandersnatch)

def signBlockVRFS (sealOutputHash : BandersnatchOutputHash) (privateKey : BandersnatchPrivateKey) :
    Except SealError BandersnatchSignature :=
  orError (vrf.sign privateKey (buildVRFContext sealOutputHash) []) .generatingSignature

def signBlockWithTicket (header : Header) (ticket : Ticket) (privateKey : BandersnatchPrivateKey)
    (entropy : Hash) : Except SealError (BandersnatchSignature × BandersnatchSignature) := do
  let sealContext := buildTicketSealContext entropy ticket.entryIndex
  let sealVRFSignature ← orError (vrf.sign privateKey sealContext []) .generatingSignature
  let sealOutputHash ← orError (vrf.outputHash sealVRFSignature) .gettingOutputHash
  check (sealOutputHash = ticket.identifier) .invalidAuthor
  let vrfSignature ← signBlockVRFS vrf sealOutputHash privateKey
  let unsealedHeader := encodeUnsealedHeader { header with vrfSignature := vrfSignature }
  let sealSignature ← orError (vrf.sign privateKey sealContext unsealedHeader) .generatingSignature
  return (sealSignature, vrfSignature)

def signBlockWithFallback (header : Header) (winningKey : BandersnatchPublicKey)
    (privateKey : BandersnatchPrivateKey) (entropy : Hash) :
    Except SealError (BandersnatchSignature × BandersnatchSignature) := do
  let ownerPublicKey ← orError (vrf.publicOf privateKey) .generatingPublicKey
  check (ownerPublicKey = winningKey) .invalidAuthor
  let sealContext := buildTicketFallbackContext entropy
  let sealVRFSignature ← orError (vrf.sign privateKey sealContext []) .generatingSignature
  let sealOutputHash ← orError (vrf.outputHash sealVRFSignature) .gettingOutputHash
  let vrfSignature ← signBlockVRFS vrf sealOutputHash privateKey
  let unsealedHeader := encodeUnsealedHeader { header with vrfSignature := vrfSignature }
  let sealSignature ← orError (vrf.sign privateKey sealContext unsealedHeader) .generatingSignature
  return (sealSignature, vrfSignature)

def signBlock (header : Header) (ticketOrKey : TicketOrKey) (privateKey : BandersnatchPrivateKey)
    (entropy : Hash) : Except SealError (BandersnatchSignature × BandersnatchSignature) :=
  match ticketOrKey with
  | .ticket tok => signBlockWithTicket vrf header tok privateKey entropy
  | .key tok => signBlockWithFallback vrf header tok privateKey entropy

def sealBlock (header : Header) (state : State) (privateKey : BandersnatchPrivateKey) :
    Except SealError Header := do
  let winningTicketOrKey ← getWinningTicketOrKey header state
  let entropy := state.entropyPool.get 3
  let (sealSignature, vrfSignature) ← signBlock vrf header winningTicketOrKey privateKey entropy
  return { header with blockSealSignature := sealSignature, vrfSignature := vrfSignature }

def bandersnatchKeys (validators : ValidatorsData) : List BandersnatchPublicKey :=
  validators.toList.filterMap fun keys => keys.map (·.bandersnatch)

def zeroPublicKey : BandersnatchPublicKey := .replicate 32 0

def findSigner (currentValidators : ValidatorsData) (sealContext unsealedHeader : List UInt8)
    (signature : BandersnatchSignature) : BandersnatchPublicKey :=
  ((bandersnatchKeys currentValidators).find? fun publicKey =>
    vrf.verify publicKey sealContext unsealedHeader signature).getD zeroPublicKey

def verifyBlockSignatures (header : Header) (ticketOrKey : TicketOrKey)
    (currentValidators : ValidatorsData) (entropy : Hash) : Except SealError Bool := do
  let unsealedHeader := encodeUnsealedHeader header
  let sealOutputHash ← orError (vrf.outputHash header.blockSealSignature) .gettingOutputHash
  match ticketOrKey with
  | .ticket tok =>
    if sealOutputHash ≠ tok.identifier then
      return false
    let sealContext := buildTicketSealContext entropy tok.entryIndex
    let publicKey :=
      findSigner vrf currentValidators sealContext unsealedHeader header.blockSealSignature
    if publicKey = zeroPublicKey then
      return false
    return vrf.verify publicKey (buildVRFContext sealOutputHash) [] header.vrfSignature
  | .key tok =>
    if !vrf.verify tok (buildTicketFallbackContext entropy) unsealedHeader
        header.blockSealSignature then
      return false
    return vrf.verify tok (buildVRFContext sealOutputHash) [] header.vrfSignature

def verifyBlockSeal (header : Header) (state : State) : Except SealError Bool := do
  let winningTicketOrKey ← getWinningTicketOrKey header state
  let entropy := state.entropyPool.get 3
  verifyBlockSignatures vrf header winningTicketOrKey state.validatorState.currentValidators entropy

end

theorem encodeUnsealedHeader_append (header : Header) :
    encodeUnsealedHeader header ++ header.blockSealSignature.toList = header.bytes := by
  have hlen : header.blockSealSignature.toList.length = 96 := Vector.length_toList
  unfold encodeUnsealedHeader Header.bytes
  rw [List.length_append, hlen, Nat.add_sub_cancel, List.take_left]

theorem encodeUnsealedHeader_seal (header : Header) (signature : BandersnatchSignature) :
    encodeUnsealedHeader { header with blockSealSignature := signature } =
      encodeUnsealedHeader header := by
  have hold := encodeUnsealedHeader_append header
  have hnew := encodeUnsealedHeader_append { header with blockSealSignature := signature }
  have hold' := List.append_inj_left' hold rfl
  have hnew' := List.append_inj_left' hnew rfl
  rw [hold', hnew']

variable {vrf : Bandersnatch} {header sealed : Header} {state : State} {ticket : Ticket}
  {privateKey : BandersnatchPrivateKey} {publicKey winningKey : BandersnatchPublicKey}
  {entropy : Hash} {context aux : List UInt8}
  {signature sealSignature vrfSignature : BandersnatchSignature}
  {sealOutputHash : BandersnatchOutputHash}

structure Signed (vrf : Bandersnatch) (header : Header) (privateKey : BandersnatchPrivateKey)
    (context : List UInt8) (sealOutputHash : BandersnatchOutputHash)
    (sealSignature vrfSignature : BandersnatchSignature) : Prop where
  hashed : ∃ signature, vrf.sign privateKey context [] = some signature ∧
    vrf.outputHash signature = some sealOutputHash
  vrfSigned : vrf.sign privateKey (buildVRFContext sealOutputHash) [] = some vrfSignature
  sealSigned : vrf.sign privateKey context
    (encodeUnsealedHeader { header with vrfSignature := vrfSignature }) = some sealSignature

theorem signBlockWithTicket_eq_ok :
    signBlockWithTicket vrf header ticket privateKey entropy = .ok (sealSignature, vrfSignature) ↔
      Signed vrf header privateKey (buildTicketSealContext entropy ticket.entryIndex)
        ticket.identifier sealSignature vrfSignature := by
  unfold signBlockWithTicket signBlockVRFS
  constructor
  · intro h
    obtain ⟨signature, hsign, h⟩ := bind_eq_ok.mp h
    obtain ⟨hash, hhash, h⟩ := bind_eq_ok.mp h
    obtain ⟨hidentifier, h⟩ := bind_unit_eq_ok.mp h
    obtain ⟨v, hv, h⟩ := bind_eq_ok.mp h
    obtain ⟨s, hs, h⟩ := bind_eq_ok.mp h
    rw [orError_eq_ok] at hsign hhash hv hs
    rw [check_eq_ok, decide_eq_true_eq] at hidentifier
    obtain ⟨rfl, rfl⟩ := h
    subst hidentifier
    exact ⟨⟨signature, hsign, hhash⟩, hv, hs⟩
  · intro h
    obtain ⟨signature, hsign, hhash⟩ := h.hashed
    simp only [hsign, hhash, h.vrfSigned, h.sealSigned, orError, check, ok_bind]
    rfl

theorem signBlockWithFallback_eq_ok
    (h : signBlockWithFallback vrf header winningKey privateKey entropy =
      .ok (sealSignature, vrfSignature)) :
    vrf.publicOf privateKey = some winningKey ∧
      ∃ sealOutputHash, Signed vrf header privateKey (buildTicketFallbackContext entropy)
        sealOutputHash sealSignature vrfSignature := by
  unfold signBlockWithFallback signBlockVRFS at h
  obtain ⟨owner, howner, h⟩ := bind_eq_ok.mp h
  obtain ⟨hwinner, h⟩ := bind_unit_eq_ok.mp h
  obtain ⟨signature, hsign, h⟩ := bind_eq_ok.mp h
  obtain ⟨hash, hhash, h⟩ := bind_eq_ok.mp h
  obtain ⟨v, hv, h⟩ := bind_eq_ok.mp h
  obtain ⟨s, hs, h⟩ := bind_eq_ok.mp h
  rw [orError_eq_ok] at howner hsign hhash hv hs
  rw [check_eq_ok, decide_eq_true_eq] at hwinner
  obtain ⟨rfl, rfl⟩ := h
  subst hwinner
  exact ⟨howner, hash, ⟨signature, hsign, hhash⟩, hv, hs⟩

theorem sealBlock_eq_ok (h : sealBlock vrf header state privateKey = .ok sealed) :
    ∃ winner sealSignature vrfSignature, getWinningTicketOrKey header state = .ok winner ∧
      signBlock vrf header winner privateKey (state.entropyPool.get 3) =
        .ok (sealSignature, vrfSignature) ∧
      sealed =
        { header with blockSealSignature := sealSignature, vrfSignature := vrfSignature } := by
  unfold sealBlock at h
  simp only [bind_eq_ok, pure_eq_ok] at h
  obtain ⟨winner, hwinner, ⟨s, v⟩, hsign, rfl⟩ := h
  exact ⟨winner, s, v, hwinner, hsign, rfl⟩

variable {currentValidators : ValidatorsData} (hvrf : vrf.SignsExactly)
  (hpublic : vrf.publicOf privateKey = some publicKey)

include hvrf hpublic in
theorem findSigner_eq (hsign : vrf.sign privateKey context aux = some signature)
    (hcur : publicKey ∈ bandersnatchKeys currentValidators) :
    findSigner vrf currentValidators context aux signature = publicKey := by
  have hverify := hvrf.verify_iff hpublic hsign
  unfold findSigner
  cases hfind : (bandersnatchKeys currentValidators).find? fun key =>
      vrf.verify key context aux signature with
  | none =>
    have hnone := List.find?_eq_none.mp hfind publicKey hcur
    exact absurd ((hverify publicKey).mpr rfl) hnone
  | some key =>
    have hkey := List.find?_some hfind
    exact (hverify key).mp hkey

namespace Signed

variable (h : Signed vrf header privateKey context sealOutputHash sealSignature vrfSignature)

include h

include hvrf in
theorem outputHash_seal : vrf.outputHash sealSignature = some sealOutputHash := by
  obtain ⟨signature, hsign, hhash⟩ := h.hashed
  rw [hvrf.outputHash_eq h.sealSigned hsign]
  exact hhash

include hvrf hpublic in
theorem verify_vrf : vrf.verify publicKey (buildVRFContext sealOutputHash) [] vrfSignature = true :=
  (hvrf.verify_iff hpublic h.vrfSigned publicKey).mpr rfl

theorem sign_sealed :
    vrf.sign privateKey context (encodeUnsealedHeader
      { header with blockSealSignature := sealSignature, vrfSignature := vrfSignature }) =
        some sealSignature := by
  have hunsealed :=
    encodeUnsealedHeader_seal { header with vrfSignature := vrfSignature } sealSignature
  exact (congrArg (vrf.sign privateKey context) hunsealed).trans h.sealSigned

end Signed

include hvrf hpublic in
theorem verify_ticket (hcur : publicKey ∈ bandersnatchKeys currentValidators)
    (hne : publicKey ≠ zeroPublicKey)
    (h : Signed vrf header privateKey (buildTicketSealContext entropy ticket.entryIndex)
      ticket.identifier sealSignature vrfSignature) :
    verifyBlockSignatures vrf
        { header with blockSealSignature := sealSignature, vrfSignature := vrfSignature }
        (.ticket ticket) currentValidators entropy = .ok true := by
  have hsigner := findSigner_eq hvrf hpublic h.sign_sealed hcur
  unfold verifyBlockSignatures
  simp only [h.outputHash_seal hvrf, orError, ok_bind, ne_eq, not_true_eq_false, if_false, hsigner,
    hne, h.verify_vrf hvrf hpublic]
  rfl

theorem verify_fallback (hvrf : vrf.SignsExactly)
    (hpublic : vrf.publicOf privateKey = some winningKey) (currentValidators : ValidatorsData)
    (h : Signed vrf header privateKey (buildTicketFallbackContext entropy) sealOutputHash
      sealSignature vrfSignature) :
    verifyBlockSignatures vrf
        { header with blockSealSignature := sealSignature, vrfSignature := vrfSignature }
        (.key winningKey) currentValidators entropy = .ok true := by
  have hseal := (hvrf.verify_iff hpublic h.sign_sealed winningKey).mpr rfl
  unfold verifyBlockSignatures
  simp only [h.outputHash_seal hvrf, orError, ok_bind, hseal, h.verify_vrf hvrf hpublic,
    Bool.not_true]
  rfl

theorem verifyBlockSeal_of_winner
    {winner : TicketOrKey} (h : getWinningTicketOrKey header state = .ok winner)
    (s v : BandersnatchSignature) :
    verifyBlockSeal vrf { header with blockSealSignature := s, vrfSignature := v } state =
      verifyBlockSignatures vrf { header with blockSealSignature := s, vrfSignature := v } winner
        state.validatorState.currentValidators (state.entropyPool.get 3) := by
  unfold verifyBlockSeal
  unfold getWinningTicketOrKey at h ⊢
  rw [h, ok_bind]

def paddedKey (key : BandersnatchPrivateKey) : BandersnatchSignature :=
  Vector.ofFn fun i => if h : i.val < 32 then key.get ⟨i.val, h⟩ else 0

theorem paddedKey_inj {key key' : BandersnatchPrivateKey} (h : paddedKey key = paddedKey key') :
    key = key' := by
  have hget (i : Fin 96) := congrArg (·.get i) h
  simp only [paddedKey, get_ofFn] at hget
  apply ext_get
  intro i
  have hi := hget ⟨i.val, by omega⟩
  rwa [dif_pos i.isLt, dif_pos i.isLt] at hi

/-- Signs every message with the key itself. -/
def openVrf : Bandersnatch where
  publicOf key := if key = zeroPublicKey then none else some key
  sign key _ _ := some (paddedKey key)
  verify key _ _ signature := signature = paddedKey key
  outputHash _ := some (.replicate 32 0)

theorem openVrf_publicOf {key : BandersnatchPrivateKey} (h : openVrf.publicOf key = some publicKey) :
    key ≠ zeroPublicKey ∧ key = publicKey :=
  (Option.ite_none_left_eq_some.mp h).imp_right Option.some.inj

theorem openVrf_signsExactly : openVrf.SignsExactly where
  verify_iff hpublic hsign key := by
    obtain ⟨-, rfl⟩ := openVrf_publicOf hpublic
    rw [← Option.some.inj hsign, openVrf, decide_eq_true_eq]
    exact ⟨fun h => (paddedKey_inj h).symm, fun h => by rw [h]⟩
  outputHash_eq _ _ := rfl

def sealingState (key : BandersnatchPublicKey) : State :=
  let validator := some { ValidatorKey.zero with bandersnatch := key }
  let validatorState := StateTransition.emptyState.validatorState
  { StateTransition.emptyState with
    validatorState :=
      { validatorState with
        currentValidators := .replicate numberOfValidators validator
        safroleState :=
          { validatorState.safroleState with
            sealingKeySeries := .tickets (.replicate timeslotsPerEpoch Ticket.zero) } } }

theorem sealBlock_sealingState (key : BandersnatchPrivateKey) :
    ∃ sealed, sealBlock openVrf Header.zero (sealingState key) key = .ok sealed := by
  have hwinner : getWinningTicketOrKey Header.zero (sealingState key) =
      .ok (.ticket Ticket.zero) := by
    unfold getWinningTicketOrKey sealingState
    simp only [get_replicate]
  unfold sealBlock
  rw [hwinner, ok_bind]
  refine ⟨_, bind_eq_ok.mpr ⟨(paddedKey key, paddedKey key), ?_, rfl⟩⟩
  exact signBlockWithTicket_eq_ok.mpr ⟨⟨_, rfl, rfl⟩, rfl, rfl⟩

theorem mem_bandersnatchKeys_sealingState (key : BandersnatchPrivateKey) :
    key ∈ bandersnatchKeys (sealingState key).validatorState.currentValidators := by
  unfold bandersnatchKeys
  rw [List.mem_filterMap]
  refine ⟨some { ValidatorKey.zero with bandersnatch := key }, ?_, rfl⟩
  exact List.mem_replicate.mpr ⟨by decide, rfl⟩

/-- The search of `VerifyBlockSignatures` takes the all-zero key for "no signer found". No private
key has it for its public key: 32 zero octets encode no point of the curve. -/
theorem sealed_block_verifies (vrf : Bandersnatch) (hvrf : vrf.SignsExactly)
    (hzero : ∀ key, vrf.publicOf key ≠ some zeroPublicKey) (header : Header) (state : State)
    (privateKey : BandersnatchPrivateKey) (publicKey : BandersnatchPublicKey)
    (hpublic : vrf.publicOf privateKey = some publicKey)
    (hcur : publicKey ∈ bandersnatchKeys state.validatorState.currentValidators)
    (sealed : Header) (hseal : sealBlock vrf header state privateKey = .ok sealed) :
    verifyBlockSeal vrf sealed state = .ok true := by
  obtain ⟨winner, s, v, hwinner, hsign, rfl⟩ := sealBlock_eq_ok hseal
  rw [verifyBlockSeal_of_winner hwinner]
  cases winner with
  | ticket ticket =>
    have hne : publicKey ≠ zeroPublicKey := by
      rintro rfl
      exact hzero privateKey hpublic
    exact verify_ticket hvrf hpublic hcur hne (signBlockWithTicket_eq_ok.mp hsign)
  | key winningKey =>
    obtain ⟨howner, hash, hsigned⟩ := signBlockWithFallback_eq_ok hsign
    exact verify_fallback hvrf howner state.validatorState.currentValidators hsigned

theorem sealed_block_verifies_with_ticket : openVrf.SignsExactly ∧
    ∃ sealed, sealBlock openVrf Header.zero (sealingState (.replicate 32 1)) (.replicate 32 1) =
        .ok sealed ∧
      verifyBlockSeal openVrf sealed (sealingState (.replicate 32 1)) = .ok true := by
  obtain ⟨sealed, hseal⟩ := sealBlock_sealingState (.replicate 32 1)
  refine ⟨openVrf_signsExactly, sealed, hseal, sealed_block_verifies _ openVrf_signsExactly ?_
    Header.zero _ _ _ (if_neg (by decide)) (mem_bandersnatchKeys_sealingState _) sealed hseal⟩
  intro key hkey
  obtain ⟨hne, heq⟩ := openVrf_publicOf hkey
  exact hne heq

end Strawberry.State
