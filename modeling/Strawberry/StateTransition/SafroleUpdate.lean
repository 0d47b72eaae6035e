import Strawberry.Lib.Tables
import Strawberry.StateTransition.Safrole

/-!
# An update of Safrole

What a successful call has gone through, part by part, and when a call goes through.
-/

namespace Strawberry.StateTransition

open Block State Constants List

def TicketOf (prims : Primitives) (safstate : SafroleState) (entropyPool : EntropyPool)
    (tp : TicketProof) (ticket : Ticket) : Prop :=
  ∃ ring, ringKeys safstate.nextValidators = .ret ring ∧
    prims.ringVerify ring (ticketMessage entropyPool tp.entryIndex) safstate.ringCommitment
      tp.proof = some ticket.identifier ∧
    ticket.entryIndex = tp.entryIndex

abbrev TicketsRanked (tickets : List Ticket) : Prop :=
  Ranked (fun a b : BandersnatchOutputHash => bytesLt a b) Ticket.identifier tickets

variable {prims : Primitives} {safstate : SafroleState} {pool : EntropyPool}
  {ticketProofs : List TicketProof} {tickets acc : List Ticket}

theorem ringVerifier_eq_ret {validators : ValidatorsData} {ring : List BandersnatchPublicKey} :
    ringVerifier prims validators = .ret ring ↔
      ringKeys validators = .ret ring ∧ prims.newRingVerifier ring = true := by
  rw [ringVerifier, bind_eq_ret]
  constructor
  · rintro ⟨ring', hkeys, h⟩
    split at h
    · next hok =>
      cases h
      exact ⟨hkeys, hok⟩
    · cases h
  · rintro ⟨hkeys, hok⟩
    exact ⟨ring, hkeys, if_pos hok⟩

theorem calculateTicket_eq_ok {ring : List BandersnatchPublicKey} {tp : TicketProof}
    {ticket : Ticket} :
    calculateTicket prims safstate pool ring tp = .ok ticket ↔
      tp.entryIndex < maxTicketAttempts ∧
        prims.ringVerify ring (ticketMessage pool tp.entryIndex) safstate.ringCommitment
          tp.proof = some ticket.identifier ∧
        ticket.entryIndex = tp.entryIndex ∧
        ticket.identifier ∉ safstate.ticketAccumulator.map (·.identifier) := by
  rw [calculateTicket, bind_unit_eq_ok, check_eq_ok, decide_eq_true_iff]
  refine and_congr_right fun _ => ?_
  split
  · next hrefused =>
    rw [hrefused]
    exact iff_of_false nofun fun h => nomatch h.1
  · next outputHash hverified =>
    rw [hverified, bind_unit_eq_ok, check_eq_ok, decide_eq_true_iff, pure_eq_ok]
    constructor
    · rintro ⟨hnew, rfl⟩
      exact ⟨rfl, rfl, hnew⟩
    · rintro ⟨hidentifier, hindex, hnew⟩
      cases hidentifier
      refine ⟨hnew, ?_⟩
      rw [← hindex]

theorem calculateTickets_spec
    (h : calculateTickets prims safstate pool ticketProofs = .ok tickets) :
    List.Forall₂ (TicketOf prims safstate pool) ticketProofs tickets ∧ TicketsRanked tickets ∧
      ∀ ticket ∈ tickets, ticket.identifier ∉ safstate.ticketAccumulator.map (·.identifier) := by
  obtain ⟨-, h⟩ := Call.bind_unit_eq_ok.mp h
  obtain ⟨ring, hring, h⟩ := Call.bind_eq_ok.mp h
  obtain ⟨tickets', htickets, h⟩ := Call.bind_eq_ok.mp h
  obtain ⟨hsorted, h⟩ := Call.bind_unit_eq_ok.mp h
  cases Call.pure_eq_ok.mp h
  have hkeys := (ringVerifier_eq_ret.mp (Call.lift_outcome_eq_ok.mp hring)).1
  have hrounds := mapM_eq_ok.mp (Call.lift_except_eq_ok.mp htickets)
  refine ⟨?_, ranked_of_isChain (of_decide_eq_true (Call.check_eq_ok.mp hsorted)), ?_⟩
  · refine hrounds.imp ?_
    intro tp ticket hround
    obtain ⟨-, hverified, hindex, -⟩ := calculateTicket_eq_ok.mp hround
    exact ⟨ring, hkeys, hverified, hindex⟩
  · intro ticket hmem
    obtain ⟨tp, -, hround⟩ := exists_of_mem_right hrounds hmem
    exact (calculateTicket_eq_ok.mp hround).2.2.2

theorem accumulateTickets_eq_ok : accumulateTickets prims safstate pool ticketProofs = .ok acc ↔
      (ticketProofs = [] ∧ acc = safstate.ticketAccumulator) ∨ (ticketProofs ≠ [] ∧ ∃ tickets,
          calculateTickets prims safstate pool ticketProofs = .ok tickets ∧
          acc = mergeTickets safstate.ticketAccumulator tickets ∧
          ∀ ticket ∈ tickets, ticket.identifier ∈ acc.map (·.identifier)) := by
  unfold accumulateTickets
  cases ticketProofs with
  | nil =>
    rw [isEmpty_nil, if_pos rfl, Call.ok_inj]
    simp [eq_comm]
  | cons tp ticketProofs =>
    rw [isEmpty_cons, if_neg Bool.false_ne_true, Call.bind_eq_ok]
    simp only [Call.bind_unit_eq_ok, Call.check_eq_ok, Call.pure_eq_ok, all_eq_true,
      decide_eq_true_iff, reduceCtorEq, false_and, false_or, ne_eq, not_false_eq_true, true_and]
    constructor
    · rintro ⟨tickets, hcalculate, huseful, rfl⟩
      exact ⟨tickets, hcalculate, rfl, huseful⟩
    · rintro ⟨tickets, hcalculate, rfl, huseful⟩
      exact ⟨tickets, hcalculate, huseful, rfl⟩

variable {currentTimeslot newTimeslot : Timeslot} {entropyInput : BandersnatchOutputHash}

theorem newEntropyPool_zero :
    (calculateNewEntropyPool prims currentTimeslot newTimeslot entropyInput pool).get 0 =
      prims.hashData ((pool.get 0).toList ++ entropyInput.toList) := by
  exact (get_set _ 0 0 _).trans (if_pos rfl)

theorem newEntropyPool_entered (hepoch : toEpoch currentTimeslot < toEpoch newTimeslot) :
    (calculateNewEntropyPool prims currentTimeslot newTimeslot entropyInput pool).get 1 =
        pool.get 0 ∧
      (calculateNewEntropyPool prims currentTimeslot newTimeslot entropyInput pool).get 2 =
        pool.get 1 ∧
      (calculateNewEntropyPool prims currentTimeslot newTimeslot entropyInput pool).get 3 =
        pool.get 2 := by
  rw [calculateNewEntropyPool, if_pos hepoch]
  exact ⟨rfl, rfl, rfl⟩

theorem newEntropyPool_stayed (hepoch : ¬ toEpoch currentTimeslot < toEpoch newTimeslot) :
    (calculateNewEntropyPool prims currentTimeslot newTimeslot entropyInput pool).get 1 =
        pool.get 1 ∧
      (calculateNewEntropyPool prims currentTimeslot newTimeslot entropyInput pool).get 2 =
        pool.get 2 ∧
      (calculateNewEntropyPool prims currentTimeslot newTimeslot entropyInput pool).get 3 =
        pool.get 3 := by
  rw [calculateNewEntropyPool, if_neg hepoch]
  exact ⟨(get_set _ 0 1 _).trans (if_neg (by decide)), (get_set _ 0 2 _).trans (if_neg (by decide)),
    (get_set _ 0 3 _).trans (if_neg (by decide))⟩

variable {input : SafroleInput} {pre : Timeslot} {newEntropyPool : EntropyPool}
  {vs newValidatorState : ValidatorState} {epochMark : EpochMarker}

structure Entered (prims : Primitives) (input : SafroleInput) (preTimeSlot : Timeslot)
    (newEntropyPool : EntropyPool) (validatorState : ValidatorState)
    (ticketAccumulator : List Ticket) (newValidatorState : ValidatorState) : Prop where
  currentValidators :
    newValidatorState.currentValidators = validatorState.safroleState.nextValidators
  archivedValidators : newValidatorState.archivedValidators = validatorState.currentValidators
  ticketAccumulator_eq : newValidatorState.safroleState.ticketAccumulator = []
  sealingKeys : newSealingKeys prims preTimeSlot input.timeSlot newEntropyPool validatorState
    ticketAccumulator validatorState.safroleState.nextValidators =
      .ret newValidatorState.safroleState.sealingKeySeries

theorem enterEpoch_spec (h : enterEpoch prims input pre pool newEntropyPool
      vs acc = .ok (newValidatorState, epochMark)) :
    Entered prims input pre newEntropyPool vs acc
      newValidatorState := by
  obtain ⟨nextValidators, -, h⟩ := Call.bind_eq_ok.mp h
  obtain ⟨ringCommitment, -, h⟩ := Call.bind_eq_ok.mp h
  obtain ⟨sealingKeys, hsealing, h⟩ := Call.bind_eq_ok.mp h
  obtain ⟨keys, -, h⟩ := Call.bind_eq_ok.mp h
  cases Call.pure_eq_ok.mp h
  exact ⟨rfl, rfl, rfl, Call.lift_outcome_eq_ok.mp hsealing⟩

theorem timeSlot_of_newSafroleInput {newBlock : Block}
    (h : newSafroleInputFromBlock prims newBlock = .ok input) :
    input.timeSlot = newBlock.header.timeSlotIndex := by
  unfold newSafroleInputFromBlock at h
  split at h
  · cases h
  · cases h
    rfl

variable {u : SafroleUpdate}

structure Updated (prims : Primitives) (input : SafroleInput) (preTimeSlot : Timeslot)
    (entropyPool : EntropyPool) (validatorState : ValidatorState) (ticketAccumulator : List Ticket)
    (u : SafroleUpdate) : Prop where
  forward : preTimeSlot < input.timeSlot
  inPeriod : isTicketSubmissionPeriod input.timeSlot ∨ input.tickets = []
  entropyPool_eq : u.entropyPool =
    calculateNewEntropyPool prims preTimeSlot input.timeSlot input.entropy entropyPool
  accumulated : accumulateTickets prims validatorState.safroleState entropyPool input.tickets =
    .ok ticketAccumulator
  entered : toEpoch preTimeSlot < toEpoch input.timeSlot → u.output.winningTicketMark = none ∧
      Entered prims input preTimeSlot u.entropyPool validatorState ticketAccumulator
        u.validatorState
  stayed : ¬ toEpoch preTimeSlot < toEpoch input.timeSlot →
    winningTicketMark input preTimeSlot validatorState ticketAccumulator =
        .ret u.output.winningTicketMark ∧
      u.validatorState = { validatorState with safroleState.ticketAccumulator := ticketAccumulator }

theorem updateSafroleState_spec (h : updateSafroleState prims input pre pool vs = .ok u) : ∃ acc,
      Updated prims input pre pool vs acc u := by
  obtain ⟨hfwd, h⟩ := Call.bind_unit_eq_ok.mp h
  obtain ⟨hperiod, h⟩ := Call.bind_unit_eq_ok.mp h
  obtain ⟨acc, haccumulated, h⟩ := Call.bind_eq_ok.mp h
  have hfwd := of_decide_eq_true (Call.check_eq_ok.mp hfwd)
  have hperiod : isTicketSubmissionPeriod input.timeSlot ∨ input.tickets = [] := by
    rw [← List.isEmpty_iff, ← Bool.or_eq_true]
    exact Call.check_eq_ok.mp hperiod
  refine ⟨acc, ?_⟩
  split at h
  · next hepoch =>
    obtain ⟨r, hr, h⟩ := Call.bind_eq_ok.mp h
    cases Call.pure_eq_ok.mp h
    exact ⟨hfwd, hperiod, rfl, haccumulated, fun _ => ⟨rfl, enterEpoch_spec hr⟩,
      fun hstays => absurd hepoch hstays⟩
  · next hepoch =>
    obtain ⟨mark, hmark, h⟩ := Call.bind_eq_ok.mp h
    cases Call.pure_eq_ok.mp h
    exact ⟨hfwd, hperiod, rfl, haccumulated, fun hchange => absurd hchange hepoch,
      fun _ => ⟨Call.lift_outcome_eq_ok.mp hmark, rfl⟩⟩

theorem updateSafroleState_sets (h : updateSafroleState prims input pre pool vs = .ok u) :
    pre < input.timeSlot ∧ ((toEpoch pre < toEpoch input.timeSlot ∧
          u.validatorState.currentValidators = vs.safroleState.nextValidators ∧
          u.validatorState.archivedValidators = vs.currentValidators) ∨
        (¬ toEpoch pre < toEpoch input.timeSlot ∧
          u.validatorState.currentValidators = vs.currentValidators ∧
          u.validatorState.archivedValidators = vs.archivedValidators)) := by
  obtain ⟨acc, hu⟩ := updateSafroleState_spec h
  refine ⟨hu.forward, ?_⟩
  by_cases hepoch : toEpoch pre < toEpoch input.timeSlot
  · have hentered := (hu.entered hepoch).2
    exact .inl ⟨hepoch, hentered.currentValidators, hentered.archivedValidators⟩
  · rw [(hu.stayed hepoch).2]
    exact .inr ⟨hepoch, rfl, rfl⟩

theorem updateSafroleState_entropyPool (h : updateSafroleState prims input pre pool vs = .ok u) :
    u.entropyPool = calculateNewEntropyPool prims pre input.timeSlot input.entropy pool := by
  obtain ⟨acc, hu⟩ := updateSafroleState_spec h
  exact hu.entropyPool_eq

def AllPresent (validators : ValidatorsData) : Prop := ∀ i, (validators.get i).isSome

variable {validators : ValidatorsData} {offenders : List Ed25519Key}

theorem allPresent_replicate (key : ValidatorKey) :
    AllPresent (.replicate numberOfValidators (some key)) := by
  intro i
  exact congrArg Option.isSome (get_replicate (some key) i)

theorem AllPresent.mem (h : AllPresent validators) {validator : Option ValidatorKey}
    (hmem : validator ∈ validators.toList) : ∃ key, validator = some key := by
  obtain ⟨i, hi, rfl⟩ := getElem_of_mem hmem
  rw [Vector.length_toList] at hi
  exact Option.isSome_iff_exists.mp (h ⟨i, hi⟩)

theorem ringKeys_returns (h : AllPresent validators) : (ringKeys validators).Returns := by
  have hround : ∀ validator ∈ validators.toList,
      ∃ key, bandersnatchOf validator = .ret key ∧ True := by
    intro validator hmem
    obtain ⟨key, rfl⟩ := h.mem hmem
    exact ⟨_, rfl, trivial⟩
  obtain ⟨keys, hkeys, -⟩ := mapM_returns hround
  exact ⟨keys, hkeys⟩

theorem nullifyOffenders_returns (h : AllPresent validators) :
    ∃ next, nullifyOffenders validators offenders = .ret next ∧ AllPresent next := by
  have hround : ∀ validator ∈ validators.toList,
      ∃ next, nullifyOffender offenders validator = .ret next ∧ next.isSome := by
    intro validator hmem
    obtain ⟨key, rfl⟩ := h.mem hmem
    exact ⟨_, rfl, rfl⟩
  obtain ⟨next, hnext, hlen, hsome⟩ := mapM_returns hround
  refine ⟨arrayOf numberOfValidators none next, ?_, ?_⟩
  · rw [nullifyOffenders, hnext]
    rfl
  · intro i
    have hi : i.val < next.length := by
      rw [hlen, Vector.length_toList]
      exact i.isLt
    rw [arrayOf, get_ofFn, getD_eq_getElem _ _ hi]
    exact hsome _ (getElem_mem hi)

theorem calculateRingCommitment_returns (h : AllPresent validators)
    (hring : ∀ ring, prims.newRingVerifier ring = true)
    (hcommitment : ∀ ring, (prims.ringCommitment ring).isSome) :
    ∃ commitment, calculateRingCommitment prims validators = .ok commitment := by
  obtain ⟨ring, hkeys⟩ := ringKeys_returns h
  obtain ⟨commitment, hcommitment⟩ := Option.isSome_iff_exists.mp (hcommitment ring)
  have hverifier : ringVerifier prims validators = .ret ring := by
    rw [ringVerifier, hkeys, ret_bind, if_pos (hring ring)]
    rfl
  refine ⟨commitment, Call.bind_eq_ok.mpr ⟨ring, Call.lift_outcome_eq_ok.mpr hverifier, ?_⟩⟩
  rw [hcommitment]
  rfl

theorem selectFallbackKeys_returns {entropy : Hash} (h : AllPresent validators) :
    (selectFallbackKeys prims entropy validators).Returns := by
  have hround : ∀ i ∈ List.range timeslotsPerEpoch,
      ∃ key, fallbackKey prims entropy validators i = .ret key ∧ True := by
    intro i _
    rw [fallbackKey]
    obtain ⟨key, hkey⟩ := Option.isSome_iff_exists.mp (h _)
    exact ⟨key.bandersnatch, by rw [hkey]; rfl, trivial⟩
  obtain ⟨keys, hkeys, -⟩ := mapM_returns hround
  refine ⟨arrayOf timeslotsPerEpoch (.replicate 32 0) keys, ?_⟩
  rw [selectFallbackKeys, hkeys]
  rfl

theorem length_outsideInFrom (tickets : List Ticket) (i left right rest : Nat) :
    (outsideInFrom tickets i left right rest).length = rest := by
  induction rest generalizing i left right with
  | zero => rfl
  | succ rest ih =>
    rw [outsideInFrom]
    split
    · rw [length_cons, ih]
    · rw [length_cons, ih]

theorem length_outsideInSequence (tickets : List Ticket) :
    (outsideInSequence tickets).length = tickets.length := length_outsideInFrom ..

theorem ticketsBodies_outsideIn (h : timeslotsPerEpoch ≤ tickets.length) :
    ticketsBodies (outsideInSequence tickets) =
      .ret (arrayOf timeslotsPerEpoch Ticket.zero (outsideInSequence tickets)) := by
  rw [ticketsBodies, length_outsideInSequence, if_neg (Nat.not_lt.mpr h)]

theorem newSealingKeys_returns (h : AllPresent validators)
    (hlong : ticketAccumulatorFull vs → timeslotsPerEpoch ≤ acc.length) :
    (newSealingKeys prims pre input.timeSlot newEntropyPool vs acc validators).Returns := by
  unfold newSealingKeys
  split
  · next htickets =>
    rw [ticketsBodies_outsideIn (hlong htickets.2.2), map_ret]
    exact returns_ret _
  · have hfallback : (selectFallbackKeys prims (newEntropyPool.get 2) validators).Returns :=
      selectFallbackKeys_returns h
    obtain ⟨keys, hkeys⟩ := hfallback
    rw [hkeys, map_ret]
    exact returns_ret _

theorem winningTicketMark_returns
    (hlong : ticketAccumulatorFull vs → timeslotsPerEpoch ≤ acc.length) :
    (winningTicketMark input pre vs acc).Returns := by
  unfold winningTicketMark
  split
  · next htickets =>
    rw [ticketsBodies_outsideIn (hlong htickets.2), map_ret]
    exact returns_ret _
  · exact returns_ret _

/-- The sets that a change of epoch moves have all their keys, and every ring is taken. -/
structure Staffed (prims : Primitives) (validatorState : ValidatorState) : Prop where
  queued : AllPresent validatorState.queuedValidators
  next : AllPresent validatorState.safroleState.nextValidators
  ring : ∀ ring, prims.newRingVerifier ring = true
  commitment : ∀ ring, (prims.ringCommitment ring).isSome

theorem enterEpoch_returns (h : Staffed prims vs)
    (hlong : ticketAccumulatorFull vs → timeslotsPerEpoch ≤ acc.length) :
    ∃ r, enterEpoch prims input pre pool newEntropyPool vs acc = .ok r := by
  obtain ⟨next, hnullify, hpresent⟩ := nullifyOffenders_returns h.queued
  obtain ⟨commitment, hcommitment⟩ := calculateRingCommitment_returns hpresent h.ring h.commitment
  obtain ⟨sealingKeys, hsealing⟩ := newSealingKeys_returns h.next hlong
  obtain ⟨keys, hkeys⟩ := ringKeys_returns hpresent
  exact ⟨_, Call.bind_of_ret hnullify (Call.bind_eq_ok.mpr ⟨_, hcommitment,
    Call.bind_of_ret hsealing (Call.bind_of_ret hkeys rfl)⟩)⟩

theorem updateSafroleState_returns (h : Staffed prims vs) (hfwd : pre < input.timeSlot)
    (hperiod : isTicketSubmissionPeriod input.timeSlot || input.tickets.isEmpty)
    (haccumulated : accumulateTickets prims vs.safroleState pool input.tickets =
      .ok acc)
    (hlong : ticketAccumulatorFull vs → timeslotsPerEpoch ≤ acc.length) :
    ∃ u, updateSafroleState prims input pre pool vs = .ok u := by
  rw [updateSafroleState,
    Call.bind_of_ok ((Call.check_eq_ok (u := ())).mpr (decide_eq_true hfwd))]
  dsimp only
  rw [Call.bind_of_ok ((Call.check_eq_ok (u := ())).mpr hperiod), Call.bind_of_ok haccumulated]
  split
  · exact Call.exists_bind (enterEpoch_returns h hlong) fun _ => ⟨_, rfl⟩
  · obtain ⟨mark, hmark⟩ := winningTicketMark_returns hlong
    exact ⟨_, Call.bind_of_ret hmark rfl⟩

theorem updateSafroleState_returns_of_no_tickets (h : Staffed prims vs)
    (hfwd : pre < input.timeSlot) (htickets : input.tickets = []) :
    ∃ u, updateSafroleState prims input pre pool vs = .ok u := by
  refine updateSafroleState_returns h hfwd ?_
    (accumulateTickets_eq_ok.mpr (.inl ⟨htickets, rfl⟩)) ?_
  · rw [htickets, isEmpty_nil, Bool.or_true]
  · intro hfull
    exact (of_decide_eq_true hfull).ge

structure SafrolePoint where
  timeSlot : Timeslot
  entropyPool : EntropyPool
  validatorState : ValidatorState

inductive SafroleRun (prims : Primitives) : SafrolePoint → List SafroleInput → SafrolePoint → Prop
  | nil (s : SafrolePoint) : SafroleRun prims s [] s
  | cons {s s' : SafrolePoint} {input : SafroleInput} {inputs : List SafroleInput}
      {u : SafroleUpdate} (queuedValidators : ValidatorsData)
      (call : updateSafroleState prims input s.timeSlot s.entropyPool
        { s.validatorState with queuedValidators } = .ok u)
      (rest : SafroleRun prims ⟨input.timeSlot, u.entropyPool, u.validatorState⟩ inputs s') :
      SafroleRun prims s (input :: inputs) s'

end Strawberry.StateTransition
