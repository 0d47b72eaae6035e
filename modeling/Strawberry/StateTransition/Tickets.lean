import Strawberry.StateTransition.Judgements
import Strawberry.StateTransition.SafroleUpdate

/-!
# The ticket accumulator

The tickets that blocks submit are collected in the accumulator, which is ranked by their
identifiers and no longer than an epoch.
-/

namespace Strawberry.StateTransition

open Block State Constants List

structure AccumulatorInv (ticketAccumulator : List Ticket) : Prop where
  ranked : TicketsRanked ticketAccumulator
  bounded : ticketAccumulator.length ≤ timeslotsPerEpoch

structure Admitted (prims : Primitives) (safstate : SafroleState) (entropyPool : EntropyPool)
    (ticketProofs : List TicketProof) (newAccumulator : List Ticket) : Prop where
  submitted : ∀ tp ∈ ticketProofs, ∃ ticket ∈ newAccumulator,
    TicketOf prims safstate entropyPool tp ticket
  dropped : ∀ old ∈ safstate.ticketAccumulator, old ∉ newAccumulator →
    ∀ kept ∈ newAccumulator, bytesLt kept.identifier old.identifier

variable {prims : Primitives} {safstate : SafroleState} {pool : EntropyPool}
  {ticketProofs : List TicketProof} {tickets newAccumulator : List Ticket}

theorem mergeTickets_eq (accumulator tickets : List Ticket) : mergeTickets accumulator tickets =
      boundedMerge (fun a b : BandersnatchOutputHash => bytesLt a b) Ticket.identifier
        timeslotsPerEpoch accumulator tickets := rfl

theorem nodup_identifiers (hranked : TicketsRanked safstate.ticketAccumulator)
    (h : calculateTickets prims safstate pool ticketProofs = .ok tickets) :
    ((safstate.ticketAccumulator ++ tickets).map Ticket.identifier).Nodup := by
  obtain ⟨-, hnew, hunknown⟩ := calculateTickets_spec h
  rw [map_append, nodup_append]
  refine ⟨hranked.nodup_keys, hnew.nodup_keys, ?_⟩
  intro identifier hold identifier' hnew' heq
  obtain ⟨ticket, hmem, rfl⟩ := mem_map.mp hnew'
  rw [heq] at hold
  exact hunknown ticket hmem hold

theorem accumulateTickets_inv (hinv : AccumulatorInv safstate.ticketAccumulator)
    (h : accumulateTickets prims safstate pool ticketProofs = .ok newAccumulator) :
    AccumulatorInv newAccumulator := by
  rcases accumulateTickets_eq_ok.mp h with ⟨-, rfl⟩ | ⟨-, tickets, hcalculate, rfl, -⟩
  · exact hinv
  · rw [mergeTickets_eq]
    refine ⟨ranked_boundedMerge (nodup_identifiers hinv.ranked hcalculate), ?_⟩
    rw [length_boundedMerge]
    exact Nat.min_le_left ..

theorem accumulateTickets_admitted (hranked : TicketsRanked safstate.ticketAccumulator)
    (h : accumulateTickets prims safstate pool ticketProofs = .ok newAccumulator) :
    Admitted prims safstate pool ticketProofs newAccumulator := by
  rcases accumulateTickets_eq_ok.mp h with ⟨rfl, rfl⟩ | ⟨-, tickets, hcalculate, rfl, huseful⟩
  · exact ⟨nofun, fun old hold hdropped => absurd hold hdropped⟩
  · have hnodup := nodup_identifiers hranked hcalculate
    obtain ⟨hproofs, -, -⟩ := calculateTickets_spec hcalculate
    rw [mergeTickets_eq] at huseful ⊢
    refine ⟨?_, ?_⟩
    · intro tp htp
      obtain ⟨ticket, hticket, hof⟩ := exists_of_mem_right hproofs.flip htp
      have hkept := mem_boundedMerge_of_key hnodup (mem_append_right _ hticket)
        (huseful ticket hticket)
      exact ⟨ticket, hkept, hof⟩
    · intro old hold hdropped kept hkept
      exact lt_of_notMem_boundedMerge hnodup (mem_append_left _ hold) hdropped hkept

theorem exists_new_ticket
    (h : accumulateTickets prims safstate pool ticketProofs = .ok newAccumulator)
    (hsome : ticketProofs ≠ []) :
    ∃ ticket ∈ newAccumulator, ticket ∉ safstate.ticketAccumulator := by
  rcases accumulateTickets_eq_ok.mp h with ⟨hnone, -⟩ | ⟨-, tickets, hcalculate, -, huseful⟩
  · exact absurd hnone hsome
  · obtain ⟨hproofs, -, hunknown⟩ := calculateTickets_spec hcalculate
    obtain ⟨tp, htp⟩ := exists_mem_of_ne_nil _ hsome
    obtain ⟨submitted, hsubmitted, -⟩ := exists_of_mem_right hproofs.flip htp
    obtain ⟨ticket, hticket, hidentifier⟩ := mem_map.mp (huseful submitted hsubmitted)
    refine ⟨ticket, hticket, ?_⟩
    intro hold
    apply hunknown submitted hsubmitted
    rw [← hidentifier]
    exact mem_map_of_mem hold

variable {pre : Timeslot} {vs newValidatorState : ValidatorState}
  {acc : List Ticket}

theorem updateSafroleState_inv {input : SafroleInput} {u : SafroleUpdate}
    (hinv : AccumulatorInv vs.safroleState.ticketAccumulator)
    (h : updateSafroleState prims input pre pool vs = .ok u) :
    AccumulatorInv u.validatorState.safroleState.ticketAccumulator := by
  obtain ⟨acc, hu⟩ := updateSafroleState_spec h
  by_cases hepoch : toEpoch pre < toEpoch input.timeSlot
  · rw [(hu.entered hepoch).2.ticketAccumulator_eq]
    exact ⟨ranked_nil, Nat.zero_le _⟩
  · rw [(hu.stayed hepoch).2]
    exact accumulateTickets_inv hinv hu.accumulated

structure SafroleCall where
  input : SafroleInput
  preTimeSlot : Timeslot
  entropyPool : EntropyPool

def SafroleCall.run (prims : Primitives) (call : SafroleCall) (validatorState : ValidatorState) :
    Call TransitionError SafroleUpdate :=
  updateSafroleState prims call.input call.preTimeSlot call.entropyPool validatorState

def afterCall (prims : Primitives) (validatorState : ValidatorState) (call : SafroleCall) :
    Outcome ValidatorState :=
  match call.run prims validatorState with
  | .ret (.ok u) => .ret u.validatorState
  | .ret (.error _) => .ret validatorState
  | .crash f => .crash f
  | .hang => .hang

def afterCalls (prims : Primitives) (calls : List SafroleCall) (validatorState : ValidatorState) :
    Outcome ValidatorState :=
  calls.foldlM (afterCall prims) validatorState

theorem afterCall_inv {call : SafroleCall} (hinv : AccumulatorInv vs.safroleState.ticketAccumulator)
    (h : afterCall prims vs call = .ret newValidatorState) :
    AccumulatorInv newValidatorState.safroleState.ticketAccumulator := by
  unfold afterCall at h
  split at h
  · next u hu =>
    cases h
    exact updateSafroleState_inv hinv hu
  · cases h
    exact hinv
  · cases h
  · cases h

theorem afterCalls_inv {calls : List SafroleCall}
    (hinv : AccumulatorInv vs.safroleState.ticketAccumulator)
    (h : afterCalls prims calls vs = .ret newValidatorState) :
    AccumulatorInv newValidatorState.safroleState.ticketAccumulator := by
  unfold afterCalls at h
  induction calls generalizing vs with
  | nil =>
    cases h
    exact hinv
  | cons call calls ih =>
    rw [foldlM_cons, bind_eq_ret] at h
    obtain ⟨next, hcall, h⟩ := h
    exact ih (afterCall_inv hinv hcall) h

/-- The accumulator stays ranked and bounded. -/
theorem ticket_accumulator_invariant (prims : Primitives) (calls : List SafroleCall)
    (start reached : ValidatorState) (hstart : start.safroleState.ticketAccumulator = [])
    (hrun : afterCalls prims calls start = .ret reached) :
    AccumulatorInv reached.safroleState.ticketAccumulator ∧
      ∀ (call : SafroleCall) (u : SafroleUpdate), call.run prims reached = .ok u →
        toEpoch call.input.timeSlot = toEpoch call.preTimeSlot → call.input.tickets ≠ [] →
        Admitted prims reached.safroleState call.entropyPool call.input.tickets
          u.validatorState.safroleState.ticketAccumulator := by
  have hempty : AccumulatorInv start.safroleState.ticketAccumulator := by
    rw [hstart]
    exact ⟨ranked_nil, Nat.zero_le _⟩
  have hinv := afterCalls_inv hempty hrun
  refine ⟨hinv, ?_⟩
  intro call u hcall hepoch _
  obtain ⟨acc, hu⟩ := updateSafroleState_spec hcall
  have hstays : ¬ toEpoch call.preTimeSlot < toEpoch call.input.timeSlot := by
    rw [hepoch]
    exact UInt32.lt_irrefl _
  rw [(hu.stayed hstays).2]
  exact accumulateTickets_admitted hinv.ranked hu.accumulated

def zeroProof : TicketProof := ⟨0, .replicate 784 0⟩

def zeroEntropyPool : EntropyPool := .replicate _ (.replicate 32 0)

def withTickets (ticketAccumulator : List Ticket) : ValidatorState :=
  { zeroValidatorState with safroleState.ticketAccumulator := ticketAccumulator }

theorem calculateTickets_zeroProof (hnew : .replicate 32 0 ∉ acc.map Ticket.identifier) :
    calculateTickets accepting (withTickets acc).safroleState
      zeroEntropyPool [zeroProof] = .ok [Ticket.zero] := by
  obtain ⟨ring, hring⟩ := ringKeys_returns (allPresent_replicate .zero)
  have hround : calculateTicket accepting (withTickets acc).safroleState
      zeroEntropyPool ring zeroProof = .ok Ticket.zero :=
    calculateTicket_eq_ok.mpr ⟨by decide, rfl, rfl, hnew⟩
  refine Call.bind_of_check (by decide) ?_
  refine Call.bind_eq_ok.mpr ⟨ring, Call.lift_outcome_eq_ok.mpr ?_, ?_⟩
  · exact ringVerifier_eq_ret.mpr ⟨hring, rfl⟩
  · refine Call.bind_eq_ok.mpr ⟨[Ticket.zero], Call.lift_except_eq_ok.mpr ?_, ?_⟩
    · exact mapM_eq_ok.mpr (.cons hround .nil)
    · exact Call.bind_of_check (by simp) rfl

def plainInput (timeSlot : Timeslot) : SafroleInput := ⟨timeSlot, [], .replicate 32 0, []⟩

section

variable {timeSlot : Timeslot} {u : SafroleUpdate}

theorem withTickets_staffed : Staffed accepting (withTickets acc) :=
  ⟨allPresent_replicate .zero, allPresent_replicate .zero, fun _ => rfl, fun _ => rfl⟩

variable (pool acc) in
theorem plainInput_updates (hfwd : pre < timeSlot) :
    ∃ u, updateSafroleState accepting (plainInput timeSlot) pre pool (withTickets acc) = .ok u :=
  updateSafroleState_returns_of_no_tickets withTickets_staffed hfwd rfl

theorem plainInput_accumulated (h : Updated accepting (plainInput timeSlot) pre pool
      (withTickets acc) newAccumulator u) : newAccumulator = acc := by
  rcases accumulateTickets_eq_ok.mp h.accumulated with ⟨-, heq⟩ | ⟨hsome, -⟩
  · exact heq
  · exact absurd rfl hsome

theorem plainInput_stays (h : updateSafroleState accepting (plainInput timeSlot) pre pool
      (withTickets acc) = .ok u)
    (hstays : ¬ toEpoch pre < toEpoch timeSlot) :
    u.validatorState = withTickets acc := by
  obtain ⟨newAccumulator, hu⟩ := updateSafroleState_spec h
  rw [(hu.stayed hstays).2, plainInput_accumulated hu]
  rfl

end

def ticketInput (timeSlot : Timeslot) : SafroleInput := ⟨timeSlot, [zeroProof], .replicate 32 0, []⟩

theorem ticketInput_updates {timeSlot : Timeslot}
    (hfwd : pre < timeSlot) (hperiod : isTicketSubmissionPeriod timeSlot)
    (hnew : .replicate 32 0 ∉ acc.map Ticket.identifier)
    (huseful : .replicate 32 0 ∈ (mergeTickets acc [Ticket.zero]).map Ticket.identifier) :
    ∃ u, updateSafroleState accepting (ticketInput timeSlot) pre zeroEntropyPool
      (withTickets acc) = .ok u := by
  have haccumulated : accumulateTickets accepting
      (withTickets acc).safroleState zeroEntropyPool (ticketInput timeSlot).tickets =
        .ok (mergeTickets acc [Ticket.zero]) := by
    refine accumulateTickets_eq_ok.mpr (.inr ⟨nofun, _, calculateTickets_zeroProof hnew, rfl, ?_⟩)
    rw [forall_mem_singleton]
    exact huseful
  refine updateSafroleState_returns withTickets_staffed hfwd ?_ haccumulated ?_
  · rw [Bool.or_eq_true]
    exact .inl hperiod
  · intro hfull
    have hlen : acc.length = timeslotsPerEpoch := of_decide_eq_true hfull
    rw [mergeTickets_eq, length_boundedMerge, hlen]
    omega

theorem ticket_accumulator_after_one :
    ∃ reached, afterCalls accepting [⟨ticketInput 1, 0, zeroEntropyPool⟩]
        (withTickets []) = .ret reached ∧
      AccumulatorInv reached.safroleState.ticketAccumulator := by
  have hcall : ∃ u, updateSafroleState accepting (ticketInput 1) 0 zeroEntropyPool
      (withTickets []) = .ok u :=
    ticketInput_updates (by decide) (by decide) (by decide) (by decide)
  obtain ⟨u, hu⟩ := hcall
  have hrun : afterCalls accepting [⟨ticketInput 1, 0, zeroEntropyPool⟩]
      (withTickets []) = .ret u.validatorState := by
    rw [afterCalls, foldlM_cons, afterCall, SafroleCall.run, hu]
    rfl
  have hinv := ticket_accumulator_invariant accepting _ (withTickets []) _ rfl hrun
  exact ⟨_, hrun, hinv.1⟩

structure StartsAccumulator (prims : Primitives) (safstate : SafroleState)
    (ticketProofs : List TicketProof) (u : SafroleUpdate) : Prop where
  verified : ∀ tp ∈ ticketProofs, ∃ ticket, TicketOf prims safstate u.entropyPool tp ticket
  ranked : TicketsRanked u.validatorState.safroleState.ticketAccumulator
  members : ∀ ticket, ticket ∈ u.validatorState.safroleState.ticketAccumulator ↔
    ∃ tp ∈ ticketProofs, TicketOf prims safstate u.entropyPool tp ticket

variable {input : SafroleInput} {u : SafroleUpdate}

theorem ticketAccumulator_of_entered (h : updateSafroleState prims input pre pool vs = .ok u)
    (hepoch : toEpoch pre < toEpoch input.timeSlot) :
    u.validatorState.safroleState.ticketAccumulator = [] := by
  obtain ⟨acc, hu⟩ := updateSafroleState_spec h
  exact (hu.entered hepoch).2.ticketAccumulator_eq

theorem startsAccumulator_iff (hempty : u.validatorState.safroleState.ticketAccumulator = []) :
    StartsAccumulator prims vs.safroleState input.tickets u ↔ input.tickets = [] := by
  constructor
  · intro h
    apply eq_nil_iff_forall_not_mem.mpr
    intro tp htp
    obtain ⟨ticket, hof⟩ := h.verified tp htp
    have hmem := (h.members ticket).mpr ⟨tp, htp, hof⟩
    rw [hempty] at hmem
    cases hmem
  · intro hnone
    rw [hnone]
    refine ⟨nofun, ?_, ?_⟩
    · rw [hempty]
      exact ranked_nil
    · intro ticket
      rw [hempty]
      exact iff_of_false nofun nofun

/-- When the tickets of the first block start the accumulator of the epoch. -/
theorem epoch_change_tickets_iff (prims : Primitives) (input : SafroleInput)
    (pre : Timeslot) (pool : EntropyPool) (vs : ValidatorState)
    (u : SafroleUpdate)
    (h : updateSafroleState prims input pre pool vs = .ok u)
    (hepoch : toEpoch pre < toEpoch input.timeSlot) :
    StartsAccumulator prims vs.safroleState input.tickets u ↔ input.tickets = [] :=
  startsAccumulator_iff (ticketAccumulator_of_entered h hepoch)

theorem epoch_change_without_tickets :
    ∃ u, updateSafroleState accepting (plainInput 600) 0 zeroEntropyPool
        (withTickets [Ticket.zero]) = .ok u ∧
      StartsAccumulator accepting (withTickets [Ticket.zero]).safroleState [] u := by
  have hfwd : (0 : Timeslot) < 600 := by decide
  obtain ⟨u, hu⟩ := plainInput_updates zeroEntropyPool [Ticket.zero] hfwd
  exact ⟨u, hu, (epoch_change_tickets_iff accepting (plainInput 600) 0 zeroEntropyPool
    (withTickets [Ticket.zero]) u hu (by decide)).mpr rfl⟩

theorem ticket_lost_at_epoch_change :
    ∃ u, updateSafroleState accepting (ticketInput 600) 0 zeroEntropyPool (withTickets []) = .ok u ∧
      u.validatorState.safroleState.ticketAccumulator = [] ∧
      ¬ StartsAccumulator accepting (withTickets []).safroleState (ticketInput 600).tickets u := by
  have hcall : ∃ u, updateSafroleState accepting (ticketInput 600) 0 zeroEntropyPool
      (withTickets []) = .ok u :=
    ticketInput_updates (by decide) (by decide) (by decide) (by decide)
  obtain ⟨u, hu⟩ := hcall
  have hempty := ticketAccumulator_of_entered hu (by decide)
  refine ⟨u, hu, hempty, ?_⟩
  rw [startsAccumulator_iff hempty]
  exact cons_ne_nil _ _

end Strawberry.StateTransition
