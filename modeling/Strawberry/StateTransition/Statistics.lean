import Strawberry.StateTransition.Epochs

/-!
# Validator statistics

What the validators did in an epoch is counted in the present statistics, which become the completed
ones when the next epoch begins.
-/

namespace Strawberry.StateTransition

open Block State Constants List

structure CountedBlock where
  block : Block
  reporters : Finset Ed25519Key
  prior : ValidatorsData
  posterior : ValidatorsData

namespace CountedBlock

variable (c : CountedBlock)

def epoch : UInt32 := toEpoch c.block.header.timeSlotIndex

def author : Nat := c.block.header.blockAuthorIndex.toNat

def guarantees (validators : ValidatorsData) (v : Fin numberOfValidators) : Bool :=
  (validators.get v).any (·.ed25519 ∈ c.reporters)

def credit (validators : ValidatorsData) (v : Fin numberOfValidators) (s : ValidatorStatistics) :
    ValidatorStatistics :=
  creditValidator c.block c.reporters (validators.get v) v s

end CountedBlock

inductive StatisticsRun (prims : Primitives) (start : State) : List CountedBlock → State → Prop
    where
  | start : StatisticsRun prims start [] start
  | block {cs : List CountedBlock} {s : State} {now : Timeslot} {fuel : Nat} {orders : Orders}
    {newBlock : Block} {chain : Chain} {t : Transition} (hrun : StatisticsRun prims start cs s)
    (st : Stages prims now fuel orders s newBlock chain t) :
    StatisticsRun prims start
      (cs ++ [⟨newBlock, st.reported.reporters, s.validatorState.currentValidators,
        t.newState.validatorState.currentValidators⟩]) t.newState

def totals (cs : List CountedBlock) (v : Fin numberOfValidators) : ValidatorStatistics :=
  cs.foldl (fun s c => c.credit c.posterior v s) .zero

structure StatisticsLaw (start : State) (cs : List CountedBlock) (s : State) : Prop where
  blocks : ∀ v, (s.validatorStatistics.present.get v).numOfBlocks.toNat =
    cs.countP fun c => c.author = v.val ∧ c.epoch = toEpoch s.timeslotIndex
  guarantees : ∀ v, (s.validatorStatistics.present.get v).numOfGuaranteedReports.toNat =
    cs.countP fun c => c.guarantees c.posterior v ∧ c.epoch = toEpoch s.timeslotIndex
  completed : ∀ before previous change after, cs = before ++ previous :: change :: after →
    previous.epoch ≠ change.epoch → (∀ c ∈ after, c.epoch = change.epoch) →
    ∀ v, s.validatorStatistics.completed.get v = totals (cs.filter (·.epoch = previous.epoch)) v
  kept : (∀ c ∈ cs, c.epoch = toEpoch start.timeslotIndex) →
    s.validatorStatistics.completed = start.validatorStatistics.completed

section

variable {prims : Primitives} {start s : State} {cs : List CountedBlock}

structure Accounted (start : State) (cs : List CountedBlock) (s : State) : Prop where
  completed : s.validatorStatistics.completed = start.validatorStatistics.completed
  present : ∀ v, s.validatorStatistics.present.get v =
    cs.foldl (fun s c => c.credit c.prior v s) (start.validatorStatistics.present.get v)
  slots : start.timeslotIndex.toNat + cs.length ≤ s.timeslotIndex.toNat

theorem accounted_step {now : Timeslot} {fuel : Nat} {orders : Orders} {newBlock : Block}
    {chain : Chain} {t : Transition} (h : Accounted start cs s)
    (st : Stages prims now fuel orders s newBlock chain t) :
    Accounted start (cs ++ [⟨newBlock, st.reported.reporters, s.validatorState.currentValidators,
      t.newState.validatorState.currentValidators⟩]) t.newState := by
  have hfwd := (updateSafroleState_sets st.safrole_eq).1
  rw [timeSlot_of_newSafroleInput st.safroleInput_eq, UInt32.lt_iff_toNat_lt] at hfwd
  have hstatistics : t.newState.validatorStatistics =
      calculateNewValidatorStatistics newBlock newBlock.header.timeSlotIndex s.validatorStatistics
        st.reported.reporters s.validatorState.currentValidators := by rw [st.newState_eq]
  rw [calculateNewValidatorStatistics, if_pos rfl] at hstatistics
  refine ⟨?_, ?_, ?_⟩
  · rw [hstatistics]
    exact h.completed
  · intro v
    rw [hstatistics, foldl_append, ← h.present v]
    exact get_ofFn _ v
  · have hslot : t.newState.timeslotIndex = newBlock.header.timeSlotIndex := by
      rw [st.newState_eq]
    have hslots := h.slots
    rw [hslot, length_append, length_singleton]
    omega

theorem StatisticsRun.accounted (h : StatisticsRun prims start cs s) : Accounted start cs s := by
  induction h with
  | start => exact ⟨rfl, fun _ => rfl, Nat.le_refl _⟩
  | block _ st ih => exact accounted_step ih st

theorem credit_numOfBlocks (c : CountedBlock) (validators : ValidatorsData)
    (v : Fin numberOfValidators) (s : ValidatorStatistics)
    (h : s.numOfBlocks.toNat + 1 < 2 ^ 32) :
    (c.credit validators v s).numOfBlocks.toNat =
      s.numOfBlocks.toNat + if decide (c.author = v.val) then 1 else 0 := by
  unfold CountedBlock.credit creditValidator CountedBlock.author
  by_cases hauthor : v.val = c.block.header.blockAuthorIndex.toNat
  · simp only [if_pos hauthor, creditAuthor, decide_eq_true hauthor.symm, if_true]
    exact Nat.mod_eq_of_lt h
  · simp [if_neg hauthor, Ne.symm hauthor]

theorem credit_numOfGuaranteedReports (c : CountedBlock) (validators : ValidatorsData)
    (v : Fin numberOfValidators) (s : ValidatorStatistics)
    (h : s.numOfGuaranteedReports.toNat + 1 < 2 ^ 32) :
    (c.credit validators v s).numOfGuaranteedReports.toNat =
      s.numOfGuaranteedReports.toNat + if c.guarantees validators v then 1 else 0 := by
  have hkept : (if v.val = c.block.header.blockAuthorIndex.toNat then
      creditAuthor c.block.extrinsic s else s).numOfGuaranteedReports =
        s.numOfGuaranteedReports := by
    split <;> rfl
  unfold CountedBlock.credit creditValidator CountedBlock.guarantees
  dsimp only
  rw [hkept]
  split
  · exact toNat_add_of_lt (Nat.lt_trans h (by decide))
  · simp

theorem StatisticsRun.counters (h : StatisticsRun prims start cs s)
    (hzero : start.validatorStatistics.present = .replicate numberOfValidators .zero)
    (v : Fin numberOfValidators) :
    (s.validatorStatistics.present.get v).numOfBlocks.toNat =
        cs.countP (fun c => c.author = v.val) ∧
      (s.validatorStatistics.present.get v).numOfGuaranteedReports.toNat =
        cs.countP fun c => c.guarantees c.prior v := by
  have haccounted := h.accounted
  have hlen : cs.length < 2 ^ 32 := by
    have hslots := haccounted.slots
    have hlt := s.timeslotIndex.toNat_lt
    omega
  have hstart : start.validatorStatistics.present.get v = .zero := by
    rw [hzero, get_replicate]
  rw [haccounted.present v, hstart]
  have hsize : 0 + cs.length < 2 ^ 32 := (Nat.zero_add _).trans_lt hlen
  have hblocks := @counter_foldl _ _ _ _ _ _ cs ValidatorStatistics.zero
    (fun s c => credit_numOfBlocks c c.prior v s) hsize
  have hguarantees := @counter_foldl _ _ _ _ _ _ cs ValidatorStatistics.zero
    (fun s c => credit_numOfGuaranteedReports c c.prior v s) hsize
  exact ⟨hblocks.trans (Nat.zero_add _), hguarantees.trans (Nat.zero_add _)⟩

theorem StatisticsRun.within_epoch (h : StatisticsRun prims start cs s)
    (hepoch : ∀ c ∈ cs, c.epoch = toEpoch start.timeslotIndex) :
    toEpoch s.timeslotIndex = toEpoch start.timeslotIndex ∧ ∀ c ∈ cs, c.prior = c.posterior := by
  induction h with
  | start => exact ⟨rfl, fun c hc => nomatch hc⟩
  | @block cs s now fuel orders newBlock chain t _ st ih =>
    rw [forall_mem_append, forall_mem_singleton] at hepoch
    obtain ⟨hbefore, hsame⟩ := ih hepoch.1
    obtain ⟨hslot, hsets⟩ := transition_sets ((transition_eq_ok prims now fuel orders).mpr ⟨st⟩)
    have hafter : toEpoch t.newState.timeslotIndex = toEpoch start.timeslotIndex := by
      rw [hslot]
      exact hepoch.2
    refine ⟨hafter, ?_⟩
    rw [forall_mem_append, forall_mem_singleton]
    refine ⟨hsame, ?_⟩
    rcases hsets with ⟨hchange, -⟩ | ⟨-, hcur, -⟩
    · rw [hafter, hbefore] at hchange
      exact absurd hchange (UInt32.lt_irrefl _)
    · exact hcur.symm

theorem forall_of_countP_eq {α : Type} {p q : α → Bool} {l : List α}
    (h : l.countP p = l.countP fun a => p a && q a) : ∀ a ∈ l, p a → q a := by
  have hsplit := countP_eq_countP_filter_add l p q
  rw [countP_filter, countP_filter, ← h, Nat.left_eq_add, countP_eq_zero] at hsplit
  intro a ha hp
  have hnot := hsplit a ha
  rw [hp, Bool.true_and, Bool.not_eq_true, Bool.not_eq_false'] at hnot
  exact hnot

theorem StatisticsLaw.authored_in_epoch (hlaw : StatisticsLaw start cs s)
    (h : StatisticsRun prims start cs s)
    (hzero : start.validatorStatistics.present = .replicate numberOfValidators .zero) :
    ∀ c ∈ cs, c.author < numberOfValidators → c.epoch = toEpoch s.timeslotIndex := by
  intro c hc hauthor
  have hcount := (h.counters hzero ⟨c.author, hauthor⟩).1.symm.trans
    (hlaw.blocks ⟨c.author, hauthor⟩)
  simp only [Bool.decide_and] at hcount
  have hepoch := forall_of_countP_eq hcount c hc (decide_eq_true rfl)
  exact of_decide_eq_true hepoch

end

/-- What the statistics count along a run. -/
theorem statistics_accounting (prims : Primitives) (start s : State) (cs : List CountedBlock)
    (hzero : start.validatorStatistics.present = .replicate numberOfValidators .zero)
    (hrun : StatisticsRun prims start cs s) :
    ((∀ c ∈ cs, c.epoch = toEpoch start.timeslotIndex) → StatisticsLaw start cs s) ∧
      (StatisticsLaw start cs s →
        ∀ c ∈ cs, c.author < numberOfValidators → c.epoch = toEpoch s.timeslotIndex) := by
  refine ⟨?_, fun hlaw => hlaw.authored_in_epoch hrun hzero⟩
  intro hepoch
  obtain ⟨hpresent, hsame⟩ := hrun.within_epoch hepoch
  refine ⟨?_, ?_, ?_, fun _ => hrun.accounted.completed⟩
  · intro v
    rw [(hrun.counters hzero v).1]
    apply countP_congr
    intro c hc
    simp [hepoch c hc, hpresent]
  · intro v
    rw [(hrun.counters hzero v).2]
    apply countP_congr
    intro c hc
    simp [hepoch c hc, hpresent, hsame c hc]
  · intro before previous change after hcs hchange _ v
    have hprevious := hepoch previous (by simp [hcs])
    have hnext := hepoch change (by simp [hcs])
    exact absurd (hprevious.trans hnext.symm) hchange

theorem first_block :
    ∃ c s, StatisticsRun accepting emptyState [c] s ∧ c.block = quietBlock 1 0 [] ∧
      s.timeslotIndex = 1 ∧ QuietState s := by
  have hfwd : emptyState.timeslotIndex < 1 := by decide
  obtain ⟨t, st, htable, -, hkeys, -⟩ := quietBlock_accepted 0 sortedOrders ⟨false, .ok []⟩ 0
    [] emptyState_quiet hfwd (UInt32.le_refl 1)
  have hslot : t.newState.timeslotIndex = 1 := by
    rw [st.newState_eq]
    rfl
  exact ⟨_, _, .block .start st, rfl, hslot,
    quietState_of_stages st emptyState_quiet rfl htable hkeys⟩

theorem statistics_of_first_block : ∃ c s, StatisticsRun accepting emptyState [c] s ∧
      StatisticsLaw emptyState [c] s := by
  obtain ⟨c, s, hrun, hblock, -, -⟩ := first_block
  have haccounting := statistics_accounting accepting emptyState s [c] rfl hrun
  refine ⟨c, s, hrun, haccounting.1 ?_⟩
  rw [forall_mem_singleton, CountedBlock.epoch, hblock]
  rfl

theorem epoch_change_keeps_counting : ∃ c c' s, StatisticsRun accepting emptyState [c, c'] s ∧
      c.block = quietBlock 1 0 [] ∧ c'.block = quietBlock 600 0 [] ∧
      (s.validatorStatistics.present.get ⟨0, by decide⟩).numOfBlocks.toNat = 2 ∧
      s.validatorStatistics.completed = .replicate numberOfValidators .zero ∧
      ¬ StatisticsLaw emptyState [c, c'] s := by
  obtain ⟨c, s, hrun, hblock, hslot, hquiet⟩ := first_block
  have hfwd : s.timeslotIndex < 600 := by
    rw [hslot]
    decide
  obtain ⟨t, st, -⟩ := quietBlock_accepted 0 sortedOrders ⟨false, .ok []⟩ 0 []
    hquiet hfwd (UInt32.le_refl 600)
  have hrun' := hrun.block st
  have hslot' : t.newState.timeslotIndex = 600 := by
    rw [st.newState_eq]
    rfl
  refine ⟨c, _, _, hrun', hblock, rfl, ?_, hrun'.accounted.completed, ?_⟩
  · rw [(hrun'.counters rfl _).1]
    simp [CountedBlock.author, hblock, quietBlock]
  · intro hlaw
    have hepoch := hlaw.authored_in_epoch hrun' rfl c mem_cons_self
      (by rw [CountedBlock.author, hblock]; decide)
    rw [hslot', CountedBlock.epoch, hblock] at hepoch
    exact absurd hepoch (by decide)

end Strawberry.StateTransition
