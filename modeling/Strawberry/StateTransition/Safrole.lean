import Mathlib.Data.List.Chain
import Strawberry.Lib.Checks
import Strawberry.Lib.Ranked
import Strawberry.State.State
import Strawberry.StateTransition.Errors

/-!
# Safrole

A ring verifier that the library refuses is a nil pointer, which the deferred `Free` follows.
-/

namespace Strawberry.StateTransition

open Block State Constants

variable (prims : Primitives)

def arrayOf {α : Type} (n : Nat) (zero : α) (xs : List α) : Vector α n :=
  Vector.ofFn fun i => xs.getD i zero

def bytesLt {n : Nat} (a b : Vector UInt8 n) : Bool := a.toList < b.toList

section

variable {n : Nat} {a b c : Vector UInt8 n}

theorem bytesLt_irrefl (a : Vector UInt8 n) : bytesLt a a = false := by
  unfold bytesLt
  rw [decide_eq_false_iff_not]
  exact List.lt_irrefl _

theorem bytesLt_trans (hab : bytesLt a b) (hbc : bytesLt b c) : bytesLt a c := by
  unfold bytesLt at *
  rw [decide_eq_true_iff] at *
  exact List.lt_trans hab hbc

theorem eq_of_not_bytesLt (hab : ¬ bytesLt a b) (hba : ¬ bytesLt b a) : a = b := by
  unfold bytesLt at *
  rw [decide_eq_true_iff, List.not_lt] at *
  exact Vector.toList_inj.mp (List.le_antisymm hba hab)

instance bytesLt_order : IsStrictTotalOrder (Vector UInt8 n) fun a b => bytesLt a b where
  trichotomous _ _ := eq_of_not_bytesLt
  irrefl a := by
    rw [bytesLt_irrefl]
    exact Bool.false_ne_true
  trans _ _ _ := bytesLt_trans

end

def bandersnatchOf (validator : Option ValidatorKey) : Outcome BandersnatchPublicKey :=
  match validator with
  | none => .crash .nilDereference
  | some key => .ret key.bandersnatch

def ringKeys (validators : ValidatorsData) : Outcome (List BandersnatchPublicKey) :=
  validators.toList.mapM bandersnatchOf

def ringVerifier (validators : ValidatorsData) : Outcome (List BandersnatchPublicKey) := do
  let ring ← ringKeys validators
  if prims.newRingVerifier ring then return ring else .crash .nilDereference

def calculateRingCommitment (validators : ValidatorsData) : Call TransitionError RingCommitment := do
  let ring ← ringVerifier prims validators
  match prims.ringCommitment ring with
  | none => .fail .ringCommitment
  | some commitment => return commitment

def nullifyOffender (offenders : List Ed25519Key) (validator : Option ValidatorKey) :
    Outcome (Option ValidatorKey) :=
  match validator with
  | none => .crash .nilDereference
  | some key => .ret (some (if key.ed25519 ∈ offenders then .zero else key))

def nullifyOffenders (queuedValidators : ValidatorsData) (offenders : List Ed25519Key) :
    Outcome ValidatorsData := do
  let validators ← queuedValidators.toList.mapM (nullifyOffender offenders)
  return arrayOf numberOfValidators none validators

def rotateEntropyPool (pool : EntropyPool) : EntropyPool :=
  #v[pool.get 0, pool.get 0, pool.get 1, pool.get 2]

def calculateNewEntropyPool (currentTimeslot newTimeslot : Timeslot)
    (entropyInput : BandersnatchOutputHash) (entropyPool : EntropyPool) : EntropyPool :=
  let newEntropyPool :=
    if toEpoch currentTimeslot < toEpoch newTimeslot then rotateEntropyPool entropyPool
    else entropyPool
  newEntropyPool.set 0 (prims.hashData ((entropyPool.get 0).toList ++ entropyInput.toList))

def ticketMessage (entropyPool : EntropyPool) (entryIndex : UInt8) : List UInt8 :=
  ascii "jam_ticket_seal" ++ (entropyPool.get 2).toList ++ [entryIndex]

def calculateTicket (safstate : SafroleState) (entropyPool : EntropyPool)
    (ring : List BandersnatchPublicKey) (tp : TicketProof) : Except TransitionError Ticket := do
  check (tp.entryIndex < maxTicketAttempts) .badTicketAttempt
  match prims.ringVerify ring (ticketMessage entropyPool tp.entryIndex) safstate.ringCommitment
    tp.proof with
  | none => .error .badTicketProof
  | some outputHash => do
    check (outputHash ∉ safstate.ticketAccumulator.map (·.identifier)) .duplicateTicket
    return ⟨outputHash, tp.entryIndex⟩

def calculateTickets (safstate : SafroleState) (entropyPool : EntropyPool)
    (ticketProofs : List TicketProof) : Call TransitionError (List Ticket) := do
  Call.check (ticketProofs.length ≤ maxTicketExtrinsicSize) .tooManyTickets
  let ring ← ringVerifier prims safstate.nextValidators
  let tickets ← (ticketProofs.mapM (calculateTicket prims safstate entropyPool ring) :
    Except TransitionError (List Ticket))
  Call.check (tickets.IsChain fun a b => bytesLt a.identifier b.identifier) .badTicketOrder
  return tickets

def mergeTickets (accumulator tickets : List Ticket) : List Ticket :=
  ((accumulator ++ tickets).insertionSort fun a b => ¬ bytesLt b.identifier a.identifier).take
    timeslotsPerEpoch

def accumulateTickets (safstate : SafroleState) (entropyPool : EntropyPool)
    (ticketProofs : List TicketProof) : Call TransitionError (List Ticket) :=
  if ticketProofs.isEmpty then .ok safstate.ticketAccumulator
  else do
    let tickets ← calculateTickets prims safstate entropyPool ticketProofs
    let allTickets := mergeTickets safstate.ticketAccumulator tickets
    Call.check (tickets.all fun t => t.identifier ∈ allTickets.map (·.identifier)) .uselessTicket
    return allTickets

def outsideInFrom (tickets : List Ticket) (i left right : Nat) : Nat → List Ticket
  | 0 => []
  | rest + 1 =>
    if i % 2 = 0 then
      tickets.getD left Ticket.zero :: outsideInFrom tickets (i + 1) (left + 1) right rest
    else tickets.getD right Ticket.zero :: outsideInFrom tickets (i + 1) left (right - 1) rest

def outsideInSequence (tickets : List Ticket) : List Ticket :=
  outsideInFrom tickets 0 0 (tickets.length - 1) tickets.length

def ticketsBodies (tickets : List Ticket) : Outcome TicketsBodies :=
  if tickets.length < timeslotsPerEpoch then .crash .sliceOutOfRange
  else .ret (arrayOf timeslotsPerEpoch Ticket.zero tickets)

def hashUint32 (hash : Hash) : UInt32 := UInt32.ofNat (Jam.leNat (hash.toList.take 4))

def fallbackKey (entropy : Hash) (currentValidators : ValidatorsData) (i : Nat) :
    Outcome BandersnatchPublicKey :=
  let index := hashUint32 (prims.hashData (entropy.toList ++ encodeUint32 (UInt32.ofNat i)))
  bandersnatchOf (currentValidators.get ⟨index.toNat % numberOfValidators, Nat.mod_lt _ (by decide)⟩)

def selectFallbackKeys (entropy : Hash) (currentValidators : ValidatorsData) :
    Outcome EpochKeys := do
  let keys ← (List.range timeslotsPerEpoch).mapM (fallbackKey prims entropy currentValidators)
  return arrayOf timeslotsPerEpoch (.replicate 32 0) keys

structure SafroleInput where
  timeSlot : Timeslot
  tickets : List TicketProof
  entropy : BandersnatchOutputHash
  offenders : List Ed25519Key

def newSafroleInputFromBlock (block : Block) : Except TransitionError SafroleInput :=
  match prims.outputHash block.header.vrfSignature with
  | none => .error .outputHash
  | some entropy =>
    .ok {
      timeSlot := block.header.timeSlotIndex
      tickets := block.extrinsic.et
      entropy
      offenders := block.header.offendersMarkers }

structure SafroleOutput where
  epochMark : Option EpochMarker
  winningTicketMark : Option WinningTicketMarker

structure SafroleUpdate where
  entropyPool : EntropyPool
  validatorState : ValidatorState
  output : SafroleOutput

def ticketAccumulatorFull (validatorState : ValidatorState) : Bool :=
  validatorState.safroleState.ticketAccumulator.length = timeslotsPerEpoch

def newSealingKeys (preTimeSlot nextTimeSlot : Timeslot) (newEntropyPool : EntropyPool)
    (validatorState : ValidatorState) (ticketAccumulator : List Ticket)
    (currentValidators : ValidatorsData) : Outcome SealingKeys :=
  if toEpoch nextTimeSlot = toEpoch preTimeSlot + 1 ∧ ¬ isTicketSubmissionPeriod preTimeSlot ∧
      ticketAccumulatorFull validatorState then
    .tickets <$> ticketsBodies (outsideInSequence ticketAccumulator)
  else .keys <$> selectFallbackKeys prims (newEntropyPool.get 2) currentValidators

def enterEpoch (input : SafroleInput) (preTimeSlot : Timeslot)
    (entropyPool newEntropyPool : EntropyPool) (validatorState : ValidatorState)
    (ticketAccumulator : List Ticket) : Call TransitionError (ValidatorState × EpochMarker) := do
  let nextValidators ← nullifyOffenders validatorState.queuedValidators input.offenders
  let currentValidators := validatorState.safroleState.nextValidators
  let ringCommitment ← calculateRingCommitment prims nextValidators
  let sealingKeySeries ← newSealingKeys prims preTimeSlot input.timeSlot newEntropyPool
    validatorState ticketAccumulator currentValidators
  let keys ← ringKeys nextValidators
  return ({ validatorState with
    currentValidators
    archivedValidators := validatorState.currentValidators
    safroleState := { nextValidators, ticketAccumulator := [], sealingKeySeries, ringCommitment } },
    { entropy := entropyPool.get 0
      ticketsEntropy := entropyPool.get 1
      keys := arrayOf numberOfValidators (.replicate 32 0) keys })

def winningTicketMark (input : SafroleInput) (preTimeSlot : Timeslot)
    (validatorState : ValidatorState) (ticketAccumulator : List Ticket) :
    Outcome (Option WinningTicketMarker) :=
  if isWinningTicketMarkerPeriod input.timeSlot preTimeSlot ∧
      ticketAccumulatorFull validatorState then
    some <$> ticketsBodies (outsideInSequence ticketAccumulator)
  else .ret none

def updateSafroleState (input : SafroleInput) (preTimeSlot : Timeslot) (entropyPool : EntropyPool)
    (validatorState : ValidatorState) : Call TransitionError SafroleUpdate := do
  Call.check (preTimeSlot < input.timeSlot) .badSlot
  let newEntropyPool :=
    calculateNewEntropyPool prims preTimeSlot input.timeSlot input.entropy entropyPool
  Call.check (isTicketSubmissionPeriod input.timeSlot || input.tickets.isEmpty) .unexpectedTicket
  let ticketAccumulator ←
    accumulateTickets prims validatorState.safroleState entropyPool input.tickets
  if toEpoch preTimeSlot < toEpoch input.timeSlot then do
    let (newValidatorState, epochMark) ← enterEpoch prims input preTimeSlot entropyPool
      newEntropyPool validatorState ticketAccumulator
    return ⟨newEntropyPool, newValidatorState, ⟨some epochMark, none⟩⟩
  else do
    let mark ← winningTicketMark input preTimeSlot validatorState ticketAccumulator
    return ⟨newEntropyPool, { validatorState with
      safroleState.ticketAccumulator := ticketAccumulator }, ⟨none, mark⟩⟩

end Strawberry.StateTransition
