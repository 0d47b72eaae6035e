import Strawberry.StateTransition.Tickets

/-!
# The announced winners

The first block of an epoch merges its tickets before it takes the sealing keys.
-/

namespace Strawberry.StateTransition

open Block State Constants

theorem outsideInFrom_perm (tickets : List Ticket) (i left right rest : Nat)
    (hright : right = left + rest - 1) (hlen : left + rest ≤ tickets.length) :
    (outsideInFrom tickets i left right rest).Perm ((tickets.drop left).take rest) := by
  induction rest generalizing i left right with
  | zero => exact .nil
  | succ rest ih =>
    rw [outsideInFrom]
    split
    · have hleft : left < tickets.length := by omega
      rw [List.getD_eq_getElem _ _ hleft, List.drop_eq_getElem_cons hleft, List.take_succ_cons]
      exact (ih _ _ _ (by omega) (by omega)).cons _
    · have hlast : left + rest < tickets.length := by omega
      have hright : right = left + rest := by omega
      subst hright
      rw [List.getD_eq_getElem _ _ hlast, List.take_add_one, List.getElem?_drop,
        List.getElem?_eq_getElem hlast, Option.toList_some]
      refine List.Perm.trans ?_ (List.perm_append_singleton _ _).symm
      exact (ih _ _ _ rfl (by omega)).cons _

theorem outsideInSequence_perm (tickets : List Ticket) :
    (outsideInSequence tickets).Perm tickets := by
  have hperm := outsideInFrom_perm tickets 0 0 (tickets.length - 1) tickets.length
    (by rw [Nat.zero_add]) (Nat.zero_add _).le
  rw [List.drop_zero, List.take_length] at hperm
  exact hperm

theorem getElem?_outsideInFrom (tickets : List Ticket) {i left right rest p : Nat} (hp : p < rest) :
    (outsideInFrom tickets i left right rest)[p]? = some (if (i + p) % 2 = 0
      then tickets.getD (left + ((i + p + 1) / 2 - (i + 1) / 2)) Ticket.zero
      else tickets.getD (right - ((i + p) / 2 - i / 2)) Ticket.zero) := by
  induction rest generalizing i left right p with
  | zero => omega
  | succ rest ih =>
    rw [outsideInFrom]
    cases p with
    | zero => split <;> simp [*]
    | succ p =>
      have hparity : (i + 1 + p) % 2 = (i + (p + 1)) % 2 := by congr 1; omega
      split
      · have hleft : left + 1 + ((i + 1 + p + 1) / 2 - (i + 1 + 1) / 2) =
            left + ((i + (p + 1) + 1) / 2 - (i + 1) / 2) := by omega
        have hright : right - ((i + 1 + p) / 2 - (i + 1) / 2) =
            right - ((i + (p + 1)) / 2 - i / 2) := by omega
        rw [List.getElem?_cons_succ, ih (Nat.lt_of_succ_lt_succ hp), hparity, hleft, hright]
      · have hleft : left + ((i + 1 + p + 1) / 2 - (i + 1 + 1) / 2) =
            left + ((i + (p + 1) + 1) / 2 - (i + 1) / 2) := by omega
        have hright : right - 1 - ((i + 1 + p) / 2 - (i + 1) / 2) =
            right - ((i + (p + 1)) / 2 - i / 2) := by omega
        rw [List.getElem?_cons_succ, ih (Nat.lt_of_succ_lt_succ hp), hparity, hleft, hright]

theorem rel_of_getElem? {α : Type} {r : α → α → Prop} {l : List α} {m n : Nat} {a b : α}
    (h : l.Pairwise r) (hmn : m < n) (ha : l[m]? = some a) (hb : l[n]? = some b) : r a b := by
  obtain ⟨hm, rfl⟩ := List.getElem?_eq_some_iff.mp ha
  obtain ⟨hn, rfl⟩ := List.getElem?_eq_some_iff.mp hb
  exact List.pairwise_iff_getElem.mp h m n hm hn hmn

variable {tickets : List Ticket} {k : Nat}

theorem outsideInSequence_even (h : 2 * k < tickets.length) :
    (outsideInSequence tickets)[2 * k]? = tickets[k]? := by
  have hk : k < tickets.length := by omega
  have hindex : 0 + ((0 + 2 * k + 1) / 2 - (0 + 1) / 2) = k := by omega
  rw [outsideInSequence, getElem?_outsideInFrom tickets h, if_pos (by omega), hindex,
    List.getD_eq_getElem _ _ hk, List.getElem?_eq_getElem hk]

theorem outsideInSequence_odd (h : 2 * k + 1 < tickets.length) :
    (outsideInSequence tickets)[2 * k + 1]? = tickets[tickets.length - 1 - k]? := by
  have hk : tickets.length - 1 - k < tickets.length := by omega
  have hindex : (0 + (2 * k + 1)) / 2 - 0 / 2 = k := by omega
  rw [outsideInSequence, getElem?_outsideInFrom tickets h, if_neg (by omega), hindex,
    List.getD_eq_getElem _ _ hk, List.getElem?_eq_getElem hk]

theorem outsideInSequence_inj {tickets' : List Ticket} (hlen : tickets.length = tickets'.length)
    (h : outsideInSequence tickets = outsideInSequence tickets') : tickets = tickets' := by
  apply List.ext_getElem?
  intro m
  rcases Nat.lt_or_ge m tickets.length with hm | hm
  · rcases Nat.lt_or_ge (2 * m) tickets.length with hleft | hright
    · rw [← outsideInSequence_even hleft, h, outsideInSequence_even (hlen ▸ hleft)]
    · have hodd : 2 * (tickets.length - 1 - m) + 1 < tickets.length := by omega
      have hback : tickets.length - 1 - (tickets.length - 1 - m) = m := by omega
      have hleft := outsideInSequence_odd hodd
      rw [h, outsideInSequence_odd (hlen ▸ hodd), ← hlen, hback] at hleft
      exact hleft.symm
  · rw [List.getElem?_eq_none hm, List.getElem?_eq_none (hlen ▸ hm)]

/-- The tickets from the outside in. -/
theorem outside_in_order (tickets : List Ticket) : (outsideInSequence tickets).Perm tickets ∧
    (∀ k, 2 * k < tickets.length → (outsideInSequence tickets)[2 * k]? = tickets[k]?) ∧
    (∀ k, 2 * k + 1 < tickets.length →
      (outsideInSequence tickets)[2 * k + 1]? = tickets[tickets.length - 1 - k]?) ∧
    (∀ before : BandersnatchOutputHash → BandersnatchOutputHash → Prop,
      tickets.Pairwise (fun a b => before a.identifier b.identifier) → ∀ j k a b, j < k →
        ((outsideInSequence tickets)[2 * j]? = some a →
          (outsideInSequence tickets)[2 * k]? = some b → before a.identifier b.identifier) ∧
        ((outsideInSequence tickets)[2 * j + 1]? = some a →
          (outsideInSequence tickets)[2 * k + 1]? = some b → before b.identifier a.identifier)) ∧
    (∀ tickets', tickets.length = tickets'.length →
      outsideInSequence tickets = outsideInSequence tickets' → tickets = tickets') := by
  refine ⟨outsideInSequence_perm tickets, fun k => outsideInSequence_even,
    fun k => outsideInSequence_odd, ?_, fun tickets' => outsideInSequence_inj⟩
  intro before hsorted j k a b hjk
  have hlt : ∀ {p : Nat} {ticket}, (outsideInSequence tickets)[p]? = some ticket →
      p < tickets.length := by
    intro p ticket hp
    rw [← length_outsideInSequence tickets]
    exact (List.getElem?_eq_some_iff.mp hp).1
  constructor
  · intro ha hb
    rw [outsideInSequence_even (hlt ha)] at ha
    rw [outsideInSequence_even (hlt hb)] at hb
    have hab := rel_of_getElem? hsorted hjk ha hb
    exact hab
  · intro ha hb
    have hk := hlt hb
    rw [outsideInSequence_odd (hlt ha)] at ha
    rw [outsideInSequence_odd hk] at hb
    have hba := rel_of_getElem? hsorted (by omega) hb ha
    exact hba

theorem toList_arrayOf {α : Type} {n : Nat} {zero : α} {xs : List α} (h : xs.length = n) :
    (arrayOf n zero xs).toList = xs := by
  subst h
  unfold arrayOf
  rw [Vector.toList_ofFn]
  apply List.ext_getElem
  · rw [List.length_ofFn]
  · intro i hi hi'
    rw [List.getElem_ofFn, List.getD_eq_getElem _ _ hi']

theorem mem_of_arrayOf_eq {accumulator accumulator' : List Ticket}
    (hlen : accumulator.length = timeslotsPerEpoch)
    (hlen' : accumulator'.length = timeslotsPerEpoch)
    (h : arrayOf timeslotsPerEpoch Ticket.zero (outsideInSequence accumulator) =
      arrayOf timeslotsPerEpoch Ticket.zero (outsideInSequence accumulator'))
    {ticket : Ticket} (hmem : ticket ∈ accumulator) : ticket ∈ accumulator' := by
  have hlists := congrArg Vector.toList h
  rw [toList_arrayOf ((length_outsideInSequence _).trans hlen),
    toList_arrayOf ((length_outsideInSequence _).trans hlen')] at hlists
  rw [← (outsideInSequence_perm accumulator').mem_iff, ← hlists]
  exact (outsideInSequence_perm accumulator).mem_iff.mpr hmem

structure Announced (epoch : UInt32) (winners : List Ticket) (s : SafrolePoint) : Prop where
  epoch_eq : toEpoch s.timeSlot = epoch
  closed : ¬ isTicketSubmissionPeriod s.timeSlot
  full : winners.length = timeslotsPerEpoch
  tickets : s.validatorState.safroleState.ticketAccumulator = winners

theorem closed_of_later {ts ts' : Timeslot} (hlt : ts < ts') (hepoch : toEpoch ts' = toEpoch ts)
    (hclosed : ¬ isTicketSubmissionPeriod ts) : ¬ isTicketSubmissionPeriod ts' := by
  have hquotient := congrArg UInt32.toNat hepoch
  rw [toEpoch_toNat, toEpoch_toNat] at hquotient
  unfold isTicketSubmissionPeriod at *
  rw [decide_eq_true_iff, UInt32.lt_iff_toNat_lt, timeslotInEpoch_toNat] at *
  omega

variable {prims : Primitives} {input : SafroleInput} {s : SafrolePoint} {u : SafroleUpdate}
  {epoch : UInt32} {winners : List Ticket} {queuedValidators : ValidatorsData}

theorem announced_of_mark {mark : WinningTicketMarker}
    (h : updateSafroleState prims input s.timeSlot s.entropyPool
      { s.validatorState with queuedValidators } = .ok u)
    (hmark : u.output.winningTicketMark = some mark) :
    ∃ winners, mark = arrayOf timeslotsPerEpoch Ticket.zero (outsideInSequence winners) ∧
      Announced (toEpoch input.timeSlot) winners
        ⟨input.timeSlot, u.entropyPool, u.validatorState⟩ := by
  obtain ⟨ticketAccumulator, hu⟩ := updateSafroleState_spec h
  have hstays : ¬ toEpoch s.timeSlot < toEpoch input.timeSlot := by
    intro hepoch
    rw [(hu.entered hepoch).1] at hmark
    cases hmark
  obtain ⟨hwinning, hstate⟩ := hu.stayed hstays
  rw [hmark, winningTicketMark] at hwinning
  split at hwinning
  · next hperiod =>
    obtain ⟨hperiod, hfull⟩ := hperiod
    have hclosed : ¬ isTicketSubmissionPeriod input.timeSlot := by
      rw [isWinningTicketMarkerPeriod, Bool.and_eq_true, decide_eq_true_iff,
        decide_eq_true_iff] at hperiod
      rw [isTicketSubmissionPeriod, decide_eq_true_iff, UInt32.not_lt]
      exact hperiod.2
    have hnone := hu.inPeriod.resolve_left hclosed
    have hfull : s.validatorState.safroleState.ticketAccumulator.length = timeslotsPerEpoch :=
      of_decide_eq_true hfull
    rcases accumulateTickets_eq_ok.mp hu.accumulated with ⟨-, rfl⟩ | ⟨hsome, -⟩
    · rw [ticketsBodies_outsideIn hfull.ge] at hwinning
      simp only [map_ret, Outcome.ret.injEq, Option.some.injEq] at hwinning
      exact ⟨_, hwinning.symm, rfl, hclosed, hfull, by rw [hstate]⟩
    · exact absurd hnone hsome
  · cases hwinning

theorem announced_step (hs : Announced epoch winners s)
    (h : updateSafroleState prims input s.timeSlot s.entropyPool
      { s.validatorState with queuedValidators } = .ok u)
    (hepoch : toEpoch input.timeSlot = epoch) :
    Announced epoch winners ⟨input.timeSlot, u.entropyPool, u.validatorState⟩ := by
  obtain ⟨ticketAccumulator, hu⟩ := updateSafroleState_spec h
  have hsame : toEpoch input.timeSlot = toEpoch s.timeSlot := hepoch.trans hs.epoch_eq.symm
  have hclosed := closed_of_later hu.forward hsame hs.closed
  have hstays : ¬ toEpoch s.timeSlot < toEpoch input.timeSlot := by
    rw [hsame]
    exact UInt32.lt_irrefl _
  refine ⟨hepoch, hclosed, hs.full, ?_⟩
  rcases accumulateTickets_eq_ok.mp hu.accumulated with ⟨-, hunchanged⟩ | ⟨hsome, -⟩
  · rw [(hu.stayed hstays).2]
    exact hunchanged.trans hs.tickets
  · exact absurd (hu.inPeriod.resolve_left hclosed) hsome

theorem announced_run {s' : SafrolePoint} {inputs : List SafroleInput}
    (hrun : SafroleRun prims s inputs s') (hs : Announced epoch winners s)
    (hepoch : ∀ input ∈ inputs, toEpoch input.timeSlot = epoch) : Announced epoch winners s' := by
  induction hrun with
  | nil s => exact hs
  | cons queuedValidators call _ ih =>
    rw [List.forall_mem_cons] at hepoch
    exact ih (announced_step hs call hepoch.1) hepoch.2

theorem sealing_of_announced (hs : Announced epoch winners s)
    (h : updateSafroleState prims input s.timeSlot s.entropyPool
      { s.validatorState with queuedValidators } = .ok u)
    (hnext : toEpoch input.timeSlot = epoch + 1) :
    u.validatorState.safroleState.sealingKeySeries =
        .tickets (arrayOf timeslotsPerEpoch Ticket.zero (outsideInSequence winners)) ↔
      input.tickets = [] := by
  obtain ⟨ticketAccumulator, hu⟩ := updateSafroleState_spec h
  have hentered : toEpoch s.timeSlot < toEpoch input.timeSlot := by
    have hsmall := toEpoch_toNat s.timeSlot
    have hbound := s.timeSlot.toNat_lt
    rw [hnext, hs.epoch_eq.symm, UInt32.lt_iff_toNat_lt, UInt32.toNat_add]
    simp only [UInt32.reduceToNat]
    omega
  obtain ⟨-, hentered⟩ := hu.entered hentered
  have hwinners : ticketAccumulatorFull { s.validatorState with queuedValidators } := by
    rw [ticketAccumulatorFull, decide_eq_true_iff, hs.tickets]
    exact hs.full
  have hlen : ticketAccumulator.length = timeslotsPerEpoch := by
    rcases accumulateTickets_eq_ok.mp hu.accumulated with ⟨-, rfl⟩ | ⟨-, tickets, -, rfl, -⟩
    · rw [hs.tickets]
      exact hs.full
    · rw [mergeTickets_eq, length_boundedMerge, hs.tickets, hs.full]
      omega
  have hsealing := hentered.sealingKeys
  rw [newSealingKeys, if_pos ⟨hnext.trans (by rw [hs.epoch_eq]), hs.closed, hwinners⟩,
    ticketsBodies_outsideIn hlen.ge, map_ret, Outcome.ret.injEq] at hsealing
  rw [← hsealing, SealingKeys.tickets.injEq]
  constructor
  · intro heq
    by_contra hsome
    obtain ⟨ticket, hticket, hnew⟩ := exists_new_ticket hu.accumulated hsome
    rw [hs.tickets] at hnew
    exact hnew (mem_of_arrayOf_eq hlen hs.full heq hticket)
  · intro hnone
    rcases accumulateTickets_eq_ok.mp hu.accumulated with ⟨-, rfl⟩ | ⟨hsome, -⟩
    · rw [hs.tickets]
    · exact absurd hnone hsome

/-- When the announced winners seal the next epoch. -/
theorem winners_seal_iff (prims : Primitives) (s s' : SafrolePoint)
    (announcing opening : SafroleInput) (between : List SafroleInput)
    (queuedValidators queuedValidators' : ValidatorsData) (u u' : SafroleUpdate)
    (mark : WinningTicketMarker)
    (hannouncing : updateSafroleState prims announcing s.timeSlot s.entropyPool
      { s.validatorState with queuedValidators } = .ok u)
    (hmark : u.output.winningTicketMark = some mark)
    (hrun : SafroleRun prims ⟨announcing.timeSlot, u.entropyPool, u.validatorState⟩ between s')
    (hbetween : ∀ input ∈ between, toEpoch input.timeSlot = toEpoch announcing.timeSlot)
    (hopening : updateSafroleState prims opening s'.timeSlot s'.entropyPool
      { s'.validatorState with queuedValidators := queuedValidators' } = .ok u')
    (hnext : toEpoch opening.timeSlot = toEpoch announcing.timeSlot + 1) :
    u'.validatorState.safroleState.sealingKeySeries = .tickets mark ↔ opening.tickets = [] := by
  obtain ⟨winners, rfl, hannounced⟩ := announced_of_mark hannouncing hmark
  exact sealing_of_announced (announced_run hrun hannounced hbetween) hopening hnext

def numberedTicket (i : Nat) : Ticket :=
  ⟨(Vector.replicate 32 0).setIfInBounds 0 1 |>.setIfInBounds 1 (UInt8.ofNat (i / 256))
    |>.setIfInBounds 2 (UInt8.ofNat i), 0⟩

def manyTickets : List Ticket := (List.range timeslotsPerEpoch).map numberedTicket

theorem manyTickets_length : manyTickets.length = timeslotsPerEpoch := by
  rw [manyTickets, List.length_map, List.length_range]

theorem zero_notMem_manyTickets : .replicate 32 0 ∉ manyTickets.map Ticket.identifier := by
  rw [manyTickets, List.map_map, List.mem_map]
  rintro ⟨i, -, hidentifier⟩
  have hfirst := congrArg (fun v : Vector UInt8 32 => v[0]) hidentifier
  simp [numberedTicket] at hfirst

theorem announced_at_500 (hlen : tickets.length = timeslotsPerEpoch) :
    ∃ u mark, updateSafroleState accepting (plainInput 500) 0 zeroEntropyPool
        (withTickets tickets) = .ok u ∧
      u.entropyPool = zeroEntropyPool ∧ u.validatorState = withTickets tickets ∧
      u.output.winningTicketMark = some mark := by
  obtain ⟨u, hu⟩ := plainInput_updates zeroEntropyPool tickets (by decide : (0 : Timeslot) < 500)
  obtain ⟨ticketAccumulator, hspec⟩ := updateSafroleState_spec hu
  have htickets := plainInput_accumulated hspec
  subst htickets
  have hmark := (hspec.stayed (by decide)).1
  have hperiod : isWinningTicketMarkerPeriod 500 0 = true := by decide
  have hfull : ticketAccumulatorFull (withTickets ticketAccumulator) = true :=
    decide_eq_true hlen
  rw [winningTicketMark, if_pos ⟨hperiod, hfull⟩, ticketsBodies_outsideIn hlen.ge,
    map_ret, Outcome.ret.injEq] at hmark
  refine ⟨u, _, hu, ?_, plainInput_stays hu (by decide), hmark.symm⟩
  rw [hspec.entropyPool_eq]
  decide +kernel

theorem winners_seal_without_tickets :
    ∃ u u' mark, updateSafroleState accepting (plainInput 500) 0 zeroEntropyPool
        (withTickets manyTickets) = .ok u ∧
      u.output.winningTicketMark = some mark ∧
      updateSafroleState accepting (plainInput 600) 500 u.entropyPool u.validatorState =
        .ok u' ∧
      u'.validatorState.safroleState.sealingKeySeries = .tickets mark := by
  obtain ⟨u, mark, hu, hpool, hstate, hmark⟩ :=
    announced_at_500 manyTickets_length
  obtain ⟨u', hu'⟩ :=
    plainInput_updates zeroEntropyPool manyTickets (by decide : (500 : Timeslot) < 600)
  rw [← hpool, ← hstate] at hu'
  refine ⟨u, u', mark, hu, hmark, hu', ?_⟩
  exact (winners_seal_iff accepting ⟨0, zeroEntropyPool, withTickets manyTickets⟩
    ⟨500, u.entropyPool, u.validatorState⟩ (plainInput 500) (plainInput 600) [] zeroValidators
    u.validatorState.queuedValidators u u' mark hu hmark (.nil _) nofun hu' (by decide)).mpr rfl

theorem late_ticket_seals :
    ∃ u u' mark, updateSafroleState accepting (plainInput 500) 0 zeroEntropyPool
        (withTickets manyTickets) = .ok u ∧
      u.output.winningTicketMark = some mark ∧
      updateSafroleState accepting (ticketInput 600) 500 u.entropyPool u.validatorState =
        .ok u' ∧
      u'.validatorState.safroleState.sealingKeySeries ≠ .tickets mark := by
  obtain ⟨u, mark, hu, hpool, hstate, hmark⟩ :=
    announced_at_500 manyTickets_length
  have hopening : ∃ u', updateSafroleState accepting (ticketInput 600) 500
      zeroEntropyPool (withTickets manyTickets) = .ok u' :=
    ticketInput_updates (by decide) (by decide) zero_notMem_manyTickets (by decide +kernel)
  obtain ⟨u', hu'⟩ := hopening
  rw [← hpool, ← hstate] at hu'
  refine ⟨u, u', mark, hu, hmark, hu', ?_⟩
  have hcall : updateSafroleState accepting (plainInput 500) 0 zeroEntropyPool
      { withTickets manyTickets with queuedValidators := zeroValidators } = .ok u := hu
  obtain ⟨winners, rfl, hannounced⟩ :=
    announced_of_mark (s := ⟨0, zeroEntropyPool, withTickets manyTickets⟩) hcall hmark
  rw [ne_eq, sealing_of_announced hannounced hu' (by decide)]
  exact List.cons_ne_nil _ _

def foldEntropy (prims : Primitives) (entropy : Hash) (inputs : List SafroleInput) : Hash :=
  inputs.foldl (fun entropy input => prims.hashData (entropy.toList ++ input.entropy.toList))
    entropy

def epochEntropies (prims : Primitives) : Timeslot → Hash → List SafroleInput → List Hash
  | _, _, [] => []
  | timeSlot, entropy, input :: inputs =>
    epochEntropies prims input.timeSlot (foldEntropy prims entropy [input]) inputs ++
      if toEpoch timeSlot < toEpoch input.timeSlot then [entropy] else []

def snapshots (entropyPool : EntropyPool) : List Hash :=
  [entropyPool.get 1, entropyPool.get 2, entropyPool.get 3]

section

variable {prims : Primitives} {input : SafroleInput} {preTimeSlot : Timeslot}
  {entropyPool : EntropyPool} {validatorState : ValidatorState} {u : SafroleUpdate}

theorem updateSafroleState_entropy
    (h : updateSafroleState prims input preTimeSlot entropyPool validatorState = .ok u) :
    u.entropyPool.get 0 = foldEntropy prims (entropyPool.get 0) [input] := by
  rw [updateSafroleState_entropyPool h, newEntropyPool_zero]
  rfl

theorem updateSafroleState_snapshots
    (h : updateSafroleState prims input preTimeSlot entropyPool validatorState = .ok u) :
    snapshots u.entropyPool =
      ((if toEpoch preTimeSlot < toEpoch input.timeSlot then [entropyPool.get 0] else []) ++
        snapshots entropyPool).take 3 := by
  rw [updateSafroleState_entropyPool h, snapshots]
  by_cases hepoch : toEpoch preTimeSlot < toEpoch input.timeSlot
  · rw [(newEntropyPool_entered hepoch).1, (newEntropyPool_entered hepoch).2.1,
      (newEntropyPool_entered hepoch).2.2, if_pos hepoch]
    rfl
  · rw [(newEntropyPool_stayed hepoch).1, (newEntropyPool_stayed hepoch).2.1,
      (newEntropyPool_stayed hepoch).2.2, if_neg hepoch]
    rfl

end

theorem take_append_take {α : Type} (n : Nat) (l m : List α) :
    (l ++ m.take n).take n = (l ++ m).take n := by
  rw [List.take_append, List.take_append, List.take_take]
  congr 2
  omega

/-- The pool holds the entropies before the last three epoch changes. -/
theorem entropy_history (prims : Primitives) (s s' : SafrolePoint) (inputs : List SafroleInput)
    (hrun : SafroleRun prims s inputs s') :
    s'.entropyPool.get 0 = foldEntropy prims (s.entropyPool.get 0) inputs ∧
      snapshots s'.entropyPool = (epochEntropies prims s.timeSlot (s.entropyPool.get 0) inputs ++
          snapshots s.entropyPool).take 3 := by
  induction hrun with
  | nil s => exact ⟨rfl, rfl⟩
  | @cons s s' input inputs u queuedValidators call _ ih =>
    obtain ⟨hzero, hsnapshots⟩ := ih
    constructor
    · rw [hzero, updateSafroleState_entropy call]
      rfl
    · rw [hsnapshots, updateSafroleState_entropy call, updateSafroleState_snapshots call,
        take_append_take, epochEntropies, List.append_assoc]

def countingPool : EntropyPool :=
  #v[.replicate 32 4, .replicate 32 1, .replicate 32 2, .replicate 32 3]

theorem entropy_history_two_blocks : ∃ s', SafroleRun accepting ⟨0, countingPool, withTickets []⟩
        [plainInput 1, plainInput 1800] s' ∧
      snapshots s'.entropyPool = [.replicate 32 0, .replicate 32 1, .replicate 32 2] := by
  obtain ⟨u, hu⟩ := plainInput_updates countingPool [] (by decide : (0 : Timeslot) < 1)
  obtain ⟨u', hu'⟩ := plainInput_updates u.entropyPool [] (by decide : (1 : Timeslot) < 1800)
  rw [← plainInput_stays hu (by decide)] at hu'
  have hrun : SafroleRun accepting ⟨0, countingPool, withTickets []⟩
      [plainInput 1, plainInput 1800] ⟨1800, u'.entropyPool, u'.validatorState⟩ :=
    .cons zeroValidators hu (.cons u.validatorState.queuedValidators hu' (.nil _))
  refine ⟨_, hrun, ?_⟩
  rw [(entropy_history _ _ _ _ hrun).2]
  decide +kernel

end Strawberry.StateTransition
