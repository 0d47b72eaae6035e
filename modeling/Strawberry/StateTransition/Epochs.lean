import Strawberry.StateTransition.Judgements
import Strawberry.StateTransition.Installed

/-!
# The epoch of a verdict

A verdict names an epoch, and it should be the validators of that epoch who signed it.
-/

namespace Strawberry.StateTransition

open Block State Constants UInt32 Function

abbrev ValidatorHistory := UInt32 → Option ValidatorsData

def startHistory (s : State) : ValidatorHistory := fun epoch =>
  if epoch = toEpoch s.timeslotIndex then some s.validatorState.currentValidators
  else if epoch.toNat + 1 = (toEpoch s.timeslotIndex).toNat then
    some s.validatorState.archivedValidators
  else none

def recordSet (history : ValidatorHistory) (s : State) : ValidatorHistory :=
  Function.update history (toEpoch s.timeslotIndex) (some s.validatorState.currentValidators)

inductive EpochRun (prims : Primitives) : State → ValidatorHistory → Prop where
  | start (s : State) : EpochRun prims s (startHistory s)
  | block {s : State} {history : ValidatorHistory} (run : EpochRun prims s history)
      {now : Timeslot} {fuel : Nat} {orders : Orders} {newBlock : Block} {chain : Chain}
      {t : Transition} (accepted : transition prims now fuel orders s newBlock chain = .ok t) :
      EpochRun prims t.newState (recordSet history t.newState)

def VerdictsBound (prims : Primitives) (history : ValidatorHistory) (newBlock : Block) : Prop :=
  ∀ verdict ∈ newBlock.extrinsic.ed.verdicts, ∃ validatorSet,
    history verdict.epochIndex = some validatorSet ∧ ∀ judgement ∈ verdict.judgements.toList,
        JudgementVerifies prims validatorSet verdict.reportHash judgement

def VerdictsInEpoch (s : State) (history : ValidatorHistory) (newBlock : Block) : Prop :=
  ∀ verdict ∈ newBlock.extrinsic.ed.verdicts,
    toEpoch newBlock.header.timeSlotIndex = toEpoch s.timeslotIndex ∧
      (history verdict.epochIndex).isSome

section

variable {prims : Primitives} {now : Timeslot} {fuel : Nat} {orders : Orders} {s : State}
  {newBlock : Block} {chain : Chain} {t : Transition} {history : ValidatorHistory}

theorem transition_sets (h : transition prims now fuel orders s newBlock chain = .ok t) :
    t.newState.timeslotIndex = newBlock.header.timeSlotIndex ∧
      ((toEpoch s.timeslotIndex < toEpoch t.newState.timeslotIndex ∧
          t.newState.validatorState.currentValidators =
            s.validatorState.safroleState.nextValidators ∧
          t.newState.validatorState.archivedValidators = s.validatorState.currentValidators) ∨
        (toEpoch s.timeslotIndex = toEpoch t.newState.timeslotIndex ∧
          t.newState.validatorState.currentValidators = s.validatorState.currentValidators ∧
          t.newState.validatorState.archivedValidators = s.validatorState.archivedValidators)) := by
  obtain ⟨st⟩ := (transition_eq_ok prims now fuel orders).mp h
  obtain ⟨hforward, hsets⟩ := updateSafroleState_sets st.safrole_eq
  rw [timeSlot_of_newSafroleInput st.safroleInput_eq] at hforward hsets
  rw [st.newState_eq]
  refine ⟨rfl, ?_⟩
  rcases hsets with hchange | ⟨hepoch, hcur, harchived⟩
  · exact .inl hchange
  · refine .inr ⟨UInt32.le_antisymm (toEpoch_mono hforward) ?_, hcur, harchived⟩
    exact UInt32.not_lt.mp hepoch

structure SetsKnown (s : State) (history : ValidatorHistory) : Prop where
  current : history (toEpoch s.timeslotIndex) = some s.validatorState.currentValidators
  archived : ∀ epoch, epoch.toNat + 1 = (toEpoch s.timeslotIndex).toNat →
    ∀ validatorSet, history epoch = some validatorSet →
      validatorSet = s.validatorState.archivedValidators
  later : ∀ epoch, toEpoch s.timeslotIndex < epoch → history epoch = none

theorem setsKnown_start : SetsKnown s (startHistory s) := by
  refine ⟨?_, ?_, ?_⟩
  · rw [startHistory, if_pos rfl]
  · intro epoch hepoch validatorSet hset
    have hne : epoch ≠ toEpoch s.timeslotIndex := by
      rintro rfl
      omega
    rw [startHistory, if_neg hne, if_pos hepoch] at hset
    cases hset
    rfl
  · intro epoch hlater
    rw [lt_iff_toNat_lt] at hlater
    have hne : epoch ≠ toEpoch s.timeslotIndex := by
      rintro rfl
      omega
    rw [startHistory, if_neg hne, if_neg (by omega)]

theorem setsKnown_transition (hk : SetsKnown s history)
    (h : transition prims now fuel orders s newBlock chain = .ok t) :
    SetsKnown t.newState (recordSet history t.newState) := by
  obtain ⟨-, hsets⟩ := transition_sets h
  refine ⟨update_self _ _ _, ?_, ?_⟩
  · intro epoch hepoch validatorSet hset
    have hne : epoch ≠ toEpoch t.newState.timeslotIndex := by
      rintro rfl
      omega
    rw [recordSet, update_of_ne hne] at hset
    rcases hsets with ⟨hlt, -, harchived⟩ | ⟨heq, -, harchived⟩
    · -- a new epoch: the one before it is that of the state before, or was skipped
      rw [harchived]
      by_cases hdirect : epoch = toEpoch s.timeslotIndex
      · rw [hdirect, hk.current] at hset
        cases hset
        rfl
      · have hskipped : toEpoch s.timeslotIndex < epoch := by
          rw [lt_iff_toNat_lt] at hlt ⊢
          have hne' : epoch.toNat ≠ (toEpoch s.timeslotIndex).toNat := by
            intro heq
            exact hdirect (UInt32.toNat_inj.mp heq)
          omega
        rw [hk.later epoch hskipped] at hset
        cases hset
    · rw [harchived]
      rw [← heq] at hepoch
      exact hk.archived epoch hepoch validatorSet hset
  · intro epoch hlater
    have hne : epoch ≠ toEpoch t.newState.timeslotIndex := by
      rintro rfl
      exact UInt32.lt_irrefl _ hlater
    rw [recordSet, update_of_ne hne]
    apply hk.later
    rcases hsets with ⟨hlt, -⟩ | ⟨heq, -⟩
    · exact UInt32.lt_trans hlt hlater
    · rw [heq]
      exact hlater

theorem setsKnown_run (hrun : EpochRun prims s history) : SetsKnown s history := by
  induction hrun with
  | start s => exact setsKnown_start
  | block _ accepted ih => exact setsKnown_transition ih accepted

end

theorem VerdictVerifies.epoch {prims : Primitives} {newTimeslot : Timeslot}
    {validators : ValidatorState} {verdict : Verdict}
    (h : VerdictVerifies prims newTimeslot validators verdict) :
    verdict.epochIndex = toEpoch newTimeslot ∨
      verdict.epochIndex.toNat + 1 = (toEpoch newTimeslot).toNat := by
  by_cases hepoch : verdict.epochIndex = toEpoch newTimeslot
  · exact .inl hepoch
  · have hne : verdict.epochIndex.toNat ≠ (toEpoch newTimeslot).toNat := by
      intro heq
      exact hepoch (UInt32.toNat_inj.mp heq)
    have hle := le_iff_toNat_le.mp h.notNewer
    have hage := le_iff_toNat_le.mp h.notOlder
    rw [UInt32.toNat_sub_of_le _ _ h.notNewer] at hage
    change _ ≤ 1 at hage
    right
    omega

/-- The votes of a verdict in its epoch are those of its validators. -/
theorem verdict_epoch_binding (prims : Primitives) (s : State) (history : ValidatorHistory)
    (hrun : EpochRun prims s history) (now : Timeslot) (fuel : Nat) (orders : Orders)
    (newBlock : Block) (chain : Chain) (t : Transition)
    (h : transition prims now fuel orders s newBlock chain = .ok t)
    (hepochs : VerdictsInEpoch s history newBlock) :
    VerdictsBound prims (recordSet history t.newState) newBlock := by
  have hk := setsKnown_run hrun
  obtain ⟨st⟩ := (transition_eq_ok prims now fuel orders).mp h
  obtain ⟨hok, -⟩ := calculateNewJudgements_eq_ok.mp st.judgements_eq
  obtain ⟨htime, hsets⟩ := transition_sets h
  rw [htime] at hsets
  intro verdict hv
  obtain ⟨hsame, hset⟩ := hepochs verdict hv
  have hverifies := hok.verdictsSigned verdict hv
  have hjs := hverifies.judgements
  rw [recordSet, htime]
  by_cases hepoch : verdict.epochIndex = toEpoch newBlock.header.timeSlotIndex
  · rw [verdictSet, if_pos hepoch] at hjs
    rcases hsets with ⟨hlt, -⟩ | ⟨-, hcur, -⟩
    · rw [hsame] at hlt
      exact absurd hlt (UInt32.lt_irrefl _)
    · rw [hepoch, update_self, hcur]
      exact ⟨_, rfl, hjs⟩
  · rw [verdictSet, if_neg hepoch] at hjs
    obtain ⟨validatorSet, hset⟩ := Option.isSome_iff_exists.mp hset
    have hbefore := hverifies.epoch.resolve_left hepoch
    rw [hsame] at hbefore
    rw [update_of_ne hepoch]
    refine ⟨validatorSet, hset, ?_⟩
    rw [hk.archived _ hbefore validatorSet hset]
    exact hjs

def zeroKeyPrimitives : Primitives :=
  { accepting with ed25519Verify := fun key _ _ => key = .replicate 32 0 }

def otherKey : ValidatorKey := { ValidatorKey.zero with ed25519 := .replicate 32 1 }

def stateBeforeChange : State :=
  { stateWith (.replicate totalNumberOfCores none) with
    validatorState := { zeroValidatorState with
      safroleState := { zeroValidatorState.safroleState with
        nextValidators := .replicate numberOfValidators (some otherKey) } } }

def disputeBlock (timeslot : Timeslot) : Block where
  header := { Header.zero with timeSlotIndex := timeslot }
  extrinsic := ⟨[], [], [], [], splitDispute (toEpoch timeslot)⟩

theorem splitVerdict_verifies_before (timeslot : Timeslot) :
    VerdictVerifies zeroKeyPrimitives timeslot stateBeforeChange.validatorState
      (splitVerdict (toEpoch timeslot)) where
  judgements := by
    have hset : verdictSet timeslot stateBeforeChange.validatorState
        (splitVerdict (toEpoch timeslot)) = zeroValidators := if_pos rfl
    rw [hset]
    exact verdictOf_verifies (fun _ => rfl) fun i hi => ⟨zeroValidators_get hi, rfl⟩
  notNewer := UInt32.le_refl _
  notOlder := by
    rw [splitVerdict, verdictOf, sub_self]
    decide

theorem disputeBlock_accepted {timeslot now : Timeslot} {safrole : SafroleUpdate}
    (hnow : timeslot ≤ now)
    (hsafrole : updateSafroleState zeroKeyPrimitives ⟨timeslot, [], .replicate 32 0, []⟩ 0
      stateBeforeChange.entropyPool stateBeforeChange.validatorState = .ok safrole) :
    ∃ t, transition zeroKeyPrimitives now 0 sortedOrders stateBeforeChange (disputeBlock timeslot)
        ⟨false, .ok []⟩ = .ok t ∧
      t.newState.validatorState.currentValidators = safrole.validatorState.currentValidators := by
  have hjs := calculateNewJudgements_eq_ok.mpr
    ⟨splitDispute_accepted (splitVerdict_verifies_before timeslot), rfl⟩
  have hinput : newSafroleInputFromBlock zeroKeyPrimitives (disputeBlock timeslot) =
      .ok ⟨timeslot, [], .replicate 32 0, []⟩ := rfl
  have htable : stateBeforeChange.coreAssignments = .replicate totalNumberOfCores none := rfl
  obtain ⟨t, st, rfl, -⟩ := accepted_of_no_reports 0 sortedOrders ⟨false, .ok []⟩ htable rfl rfl
    hnow hinput hsafrole hjs
  refine ⟨t, (transition_eq_ok _ _ _ _).mpr ⟨st⟩, ?_⟩
  rw [st.newState_eq]

theorem safrole_at_change :
    ∃ safrole, updateSafroleState zeroKeyPrimitives ⟨600, [], .replicate 32 0, []⟩ 0
        stateBeforeChange.entropyPool stateBeforeChange.validatorState = .ok safrole ∧
      safrole.validatorState.currentValidators = .replicate numberOfValidators (some otherKey) := by
  have hreturns : ∃ u, updateSafroleState zeroKeyPrimitives ⟨600, [], .replicate 32 0, []⟩ 0
      stateBeforeChange.entropyPool stateBeforeChange.validatorState = .ok u :=
    updateSafroleState_returns_of_no_tickets ⟨allPresent_replicate .zero,
      allPresent_replicate otherKey, fun _ => rfl, fun _ => rfl⟩ (by decide) rfl
  obtain ⟨u, hu⟩ := hreturns
  refine ⟨u, hu, ?_⟩
  rcases (updateSafroleState_sets hu).2 with ⟨-, hcur, -⟩ | ⟨hsame, -⟩
  · exact hcur
  · exact absurd (by decide) hsame

theorem verdict_epoch_binding_in_epoch :
    ∃ t, transition zeroKeyPrimitives 1 0 sortedOrders stateBeforeChange (disputeBlock 1)
        ⟨false, .ok []⟩ = .ok t ∧
      VerdictsBound zeroKeyPrimitives (recordSet (startHistory stateBeforeChange) t.newState)
        (disputeBlock 1) := by
  obtain ⟨t, ht, -⟩ := disputeBlock_accepted (UInt32.le_refl 1) rfl
  refine ⟨t, ht, verdict_epoch_binding zeroKeyPrimitives _ _ (.start stateBeforeChange) 1 0
    sortedOrders (disputeBlock 1) ⟨false, .ok []⟩ t ht ?_⟩
  exact List.forall_mem_singleton.mpr ⟨by decide, rfl⟩

theorem verdict_of_wrong_epoch_accepted :
    ∃ t, transition zeroKeyPrimitives 600 0 sortedOrders stateBeforeChange (disputeBlock 600)
        ⟨false, .ok []⟩ = .ok t ∧
      EpochRun zeroKeyPrimitives t.newState (recordSet (startHistory stateBeforeChange) t.newState) ∧
      ¬ VerdictsBound zeroKeyPrimitives (recordSet (startHistory stateBeforeChange) t.newState)
        (disputeBlock 600) := by
  obtain ⟨safrole, hsafrole, hcur⟩ := safrole_at_change
  obtain ⟨t, ht, hsets⟩ := disputeBlock_accepted (UInt32.le_refl 600) hsafrole
  refine ⟨t, ht, .block (.start stateBeforeChange) ht, ?_⟩
  intro hbound
  obtain ⟨validatorSet, hset, hjs⟩ := hbound (splitVerdict (toEpoch 600))
    (List.mem_singleton_self _)
  have hepoch : toEpoch t.newState.timeslotIndex = toEpoch 600 := by
    rw [(transition_sets ht).1]
    rfl
  have hrecorded : recordSet (startHistory stateBeforeChange) t.newState (toEpoch 600) =
      some (.replicate numberOfValidators (some otherKey)) := by
    rw [recordSet, hepoch, update_self, hsets, hcur]
  obtain rfl : validatorSet = .replicate numberOfValidators (some otherKey) :=
    Option.some.inj (hset.symm.trans hrecorded)
  have hfirst : splitJudgement 0 ∈ (splitVerdict (toEpoch 600)).judgements.toList := by
    rw [splitVerdict, verdictOf_judgements]
    exact List.mem_map_of_mem (List.mem_range.mpr (by decide))
  obtain ⟨key, hkey, hverify⟩ := hjs _ hfirst
  rw [Vector.getElem?_replicate, if_pos (by decide)] at hkey
  obtain rfl : otherKey = key := Option.some.inj (Option.some.inj hkey)
  exact absurd hverify (by decide)

end Strawberry.StateTransition
