import Strawberry.StateTransition.Queue
import Strawberry.StateTransition.SafroleUpdate

/-!
# What a block leaves in the state

`UpdateState` installs neither the new queues of authorizers nor the preimages of the block.
-/

namespace Strawberry.StateTransition

open Block Service State Constants Finmap

variable {H : HashData} {fuel : Nat}

theorem invokePVMOnTransfer_nil {d : ServiceState} {serviceId : ServiceId} :
    invokePVMOnTransfer H fuel d serviceId (transfersForReceiver [] serviceId) =
      .ret (d.getD serviceId .zero) := by
  unfold invokePVMOnTransfer
  dsimp only
  split
  · rfl
  · exact if_pos rfl

theorem onTransferStage_nil {d : ServiceState} {order : GoMap.Traversal d.keys} :
    onTransferStage H fuel d order [] = .ret d := by
  have hreturns : (onTransferStage H fuel d order []).Returns := by
    apply GoMap.fillFrom_returns
    intro id _
    exact ⟨_, invokePVMOnTransfer_nil⟩
  obtain ⟨post, hpost⟩ := hreturns
  obtain ⟨hin, hout⟩ := GoMap.fillFrom_eq_ret hpost
  have heq : post = d := by
    apply ext_lookup
    intro id
    by_cases hid : id ∈ order.keys
    · obtain ⟨account, haccount, hget⟩ := hin id hid
      rw [invokePVMOnTransfer_nil] at haccount
      obtain ⟨own, hown⟩ := mem_iff.mp (mem_keys.mp ((order.mem_iff id).mp hid))
      rw [hget, hown, ← Outcome.ret.inj haccount, GoMap.getD_of_lookup hown]
    · rw [hout id hid, lookup_empty, eq_comm, lookup_eq_none]
      intro hmem
      exact hid ((order.mem_iff id).mpr (mem_keys.mpr hmem))
  rw [hpost, heq]

theorem accumulation_of_no_reports (orders : Orders) (header : Header) (s : State)
    (newTimeslot : Timeslot) :
    ∃ acc, calculateWorkReportsAndAccumulate H fuel orders header s newTimeslot [] =
        .ret acc ∧
      acc.serviceState = s.services ∧
      acc.validatorKeys = s.validatorState.queuedValidators ∧
      acc.pendingAuthorizersQueues = s.pendingAuthorizersQueues := by
  unfold calculateWorkReportsAndAccumulate selectWorkReports
  simp only [accumulationPriority_eq_nil, ret_bind, pure_eq, List.filter_nil, List.nil_append]
  unfold sequentialDelta sequentialDeltaWithin
  simp only [affordable, if_true, ret_bind, onTransferStage_nil]
  exact ⟨_, rfl, rfl, rfl, rfl⟩

variable {prims : Primitives} {now : Timeslot} {s : State} {newBlock : Block}
  {input : SafroleInput} {safrole : SafroleUpdate} {judgements : Judgements}

theorem accepted_of_no_reports (fuel : Nat) (orders : Orders) (chain : Chain)
    (htable : s.coreAssignments = .replicate totalNumberOfCores none)
    (hguarantees : newBlock.extrinsic.eg = []) (hassurances : newBlock.extrinsic.ea = [])
    (hnow : newBlock.header.timeSlotIndex ≤ now)
    (hinput : newSafroleInputFromBlock prims newBlock = .ok input)
    (hsafrole : updateSafroleState prims input s.timeslotIndex s.entropyPool s.validatorState =
      .ok safrole)
    (hjudgements : calculateNewJudgements prims newBlock.header.timeSlotIndex newBlock.extrinsic.ed
      s.pastJudgements s.validatorState = .ok judgements) :
    ∃ t, ∃ st : Stages prims now fuel orders s newBlock chain t,
      st.safrole = safrole ∧ t.newState.coreAssignments = .replicate totalNumberOfCores none ∧
        st.accumulation.serviceState = s.services ∧
        st.accumulation.validatorKeys = s.validatorState.queuedValidators ∧
        st.accumulation.pendingAuthorizersQueues = s.pendingAuthorizersQueues := by
  obtain ⟨acc, haccumulation, hserv, hkeys, hqueues⟩ :=
    accumulation_of_no_reports orders newBlock.header s newBlock.header.timeSlotIndex
  have hempty : (availabilityOf [] (calculateIntermediateCoreAssignmentsFromExtrinsics prims
      newBlock.extrinsic.ed s.coreAssignments) newBlock.header.timeSlotIndex).coreAssignments =
        .replicate totalNumberOfCores none := by
    rw [htable]
    exact intermediate_of_empty prims newBlock.extrinsic.ed
  refine ⟨⟨_, []⟩, {
    safroleInput := input
    safrole
    availability := availabilityOf [] (calculateIntermediateCoreAssignmentsFromExtrinsics prims
      newBlock.extrinsic.ed s.coreAssignments) newBlock.header.timeSlotIndex
    reported := ⟨_, ∅⟩
    accumulation := acc
    judgements
    notInFuture := hnow
    guaranteesValid := by
      rw [hguarantees]
      rfl
    safroleInput_eq := hinput
    safrole_eq := hsafrole
    availability_eq := ?_
    reported_eq := by
      rw [hguarantees]
      rfl
    workReports_eq := (congrArg getAvailableWorkReports hempty).trans
      getAvailableWorkReports_of_empty
    accumulation_eq := haccumulation
    judgements_eq := hjudgements
    newState_eq := rfl }, rfl, hempty, hserv, hkeys, hqueues⟩
  rw [calculateIntermediateCoreFromAssurances_eq_ok, hassurances]
  exact ⟨nofun, rfl, fun core hcore => absurd rfl hcore, rfl⟩

structure QuietState (s : State) : Prop where
  coreAssignments : s.coreAssignments = .replicate totalNumberOfCores none
  queued : AllPresent s.validatorState.queuedValidators
  next : AllPresent s.validatorState.safroleState.nextValidators

theorem QuietState.staffed (hs : QuietState s) : Staffed accepting s.validatorState :=
  ⟨hs.queued, hs.next, fun _ => rfl, fun _ => rfl⟩

def quietBlock (timeslot : Timeslot) (author : UInt16) (preimages : List Preimage) : Block where
  header := { Header.zero with timeSlotIndex := timeslot, blockAuthorIndex := author }
  extrinsic := ⟨[], preimages, [], [], ⟨[], [], []⟩⟩

variable {timeslot : Timeslot}

theorem quietBlock_accepted (fuel : Nat) (orders : Orders) (chain : Chain) (author : UInt16)
    (preimages : List Preimage) (hs : QuietState s) (hfwd : s.timeslotIndex < timeslot)
    (hnow : timeslot ≤ now) :
    ∃ t, ∃ st : Stages accepting now fuel orders s (quietBlock timeslot author preimages) chain t,
      t.newState.coreAssignments = .replicate totalNumberOfCores none ∧
        st.accumulation.serviceState = s.services ∧
        st.accumulation.validatorKeys = s.validatorState.queuedValidators ∧
        st.accumulation.pendingAuthorizersQueues = s.pendingAuthorizersQueues := by
  have hinput : newSafroleInputFromBlock accepting (quietBlock timeslot author preimages) =
      .ok ⟨timeslot, [], .replicate 32 0, []⟩ := rfl
  have hsafrole : ∃ u, updateSafroleState accepting ⟨timeslot, [], .replicate 32 0, []⟩
      s.timeslotIndex s.entropyPool s.validatorState = .ok u :=
    updateSafroleState_returns_of_no_tickets hs.staffed hfwd rfl
  obtain ⟨safrole, hsafrole⟩ := hsafrole
  obtain ⟨t, st, -, hfacts⟩ := accepted_of_no_reports fuel orders chain hs.coreAssignments rfl rfl
    hnow hinput hsafrole rfl
  exact ⟨t, st, hfacts⟩

theorem quietState_of_stages {orders : Orders} {chain : Chain} {t : Transition}
    (st : Stages prims now fuel orders s newBlock chain t) (hs : QuietState s)
    (hepoch : toEpoch newBlock.header.timeSlotIndex = toEpoch s.timeslotIndex)
    (htable : t.newState.coreAssignments = .replicate totalNumberOfCores none)
    (hkeys : st.accumulation.validatorKeys = s.validatorState.queuedValidators) :
    QuietState t.newState := by
  obtain ⟨ticketAccumulator, hu⟩ := updateSafroleState_spec st.safrole_eq
  have hstays : ¬ toEpoch s.timeslotIndex < toEpoch st.safroleInput.timeSlot := by
    rw [timeSlot_of_newSafroleInput st.safroleInput_eq, hepoch]
    exact UInt32.lt_irrefl _
  have hvalidators := (hu.stayed hstays).2
  refine ⟨htable, ?_, ?_⟩
  · rw [st.newState_eq]
    exact hkeys.symm ▸ hs.queued
  · rw [st.newState_eq, hvalidators]
    exact hs.next

theorem emptyState_quiet : QuietState emptyState :=
  ⟨rfl, allPresent_replicate .zero, allPresent_replicate .zero⟩

end Strawberry.StateTransition

namespace Strawberry.StateTransition

open Block Service State Constants

variable (H : HashData)

def metaKeyOf (preimage : Preimage) : PreImageMetaKey :=
  ⟨H preimage.data, UInt32.ofNat preimage.data.length⟩

def preimageHasBeenSolicited (serviceState : ServiceState) (serviceIndex : ServiceId)
    (key : PreImageMetaKey) : Bool :=
  match serviceState.lookup serviceIndex with
  | none => false
  | some account => key.hash ∉ account.preimageLookup ∧ account.preimageMeta.getD key [] = []

def withPreimage (account : ServiceAccount) (preimage : Preimage) (newTimeslot : Timeslot) :
    ServiceAccount :=
  { account with
    preimageLookup := account.preimageLookup.insert (H preimage.data) preimage.data
    preimageMeta := account.preimageMeta.insert (metaKeyOf H preimage) [newTimeslot] }

def Requested (services : ServiceState) (preimage : Preimage) : Prop :=
  ∃ account, services.lookup preimage.serviceIndex = some account ∧
    H preimage.data ∉ account.preimageLookup ∧
    account.preimageMeta.lookup (metaKeyOf H preimage) = some []

def Provided (timeslot : Timeslot) (services : ServiceState) (preimage : Preimage) : Prop :=
  ∃ account, services.lookup preimage.serviceIndex = some account ∧
    account.preimageLookup.lookup (H preimage.data) = some preimage.data ∧
    account.preimageMeta.lookup (metaKeyOf H preimage) = some [timeslot]

section

variable {H} {services : ServiceState} {timeslot : Timeslot} {p q : Preimage}

theorem Requested.not_provided (h : Requested H services p) : ¬ Provided H timeslot services p := by
  intro hprovided
  obtain ⟨account, haccount, hmissing, -⟩ := h
  obtain ⟨account', haccount', hstored, -⟩ := hprovided
  rw [haccount] at haccount'
  obtain rfl := Option.some.inj haccount'
  exact hmissing (Finmap.mem_iff.mpr ⟨_, hstored⟩)

theorem preimageHasBeenSolicited_iff {id : ServiceId} {key : PreImageMetaKey} :
    preimageHasBeenSolicited services id key = true ↔
      ∃ account, services.lookup id = some account ∧ key.hash ∉ account.preimageLookup ∧
        account.preimageMeta.getD key [] = [] := by
  unfold preimageHasBeenSolicited
  cases services.lookup id with
  | none | some => simp

theorem Requested.solicited (h : Requested H services p) :
    preimageHasBeenSolicited services p.serviceIndex (metaKeyOf H p) = true := by
  obtain ⟨account, haccount, hmissing, hmeta⟩ := h
  rw [preimageHasBeenSolicited_iff]
  exact ⟨account, haccount, hmissing, GoMap.getD_of_lookup hmeta⟩

end

structure EffectsInstalled (newBlock : Block) (accumulation : BlockAccumulation)
    (newState : State) : Prop where
  queues : newState.pendingAuthorizersQueues = accumulation.pendingAuthorizersQueues
  preimages : ∀ p ∈ newBlock.extrinsic.ep, Requested H accumulation.serviceState p →
    Provided H newBlock.header.timeSlotIndex newState.services p

/-- When the effects of a block are in the new state. -/
theorem effects_installed_iff (prims : Primitives) (now : Timeslot) (fuel : Nat) (orders : Orders)
    (s : State) (newBlock : Block) (chain : Chain) (t : Transition)
    (h : transition prims now fuel orders s newBlock chain = .ok t) :
    ∃ acc, calculateWorkReportsAndAccumulate prims.hashData fuel orders newBlock.header s
        newBlock.header.timeSlotIndex t.workReports = .ret acc ∧
      (EffectsInstalled prims.hashData newBlock acc t.newState ↔
        acc.pendingAuthorizersQueues = s.pendingAuthorizersQueues ∧
          ∀ p ∈ newBlock.extrinsic.ep, ¬ Requested prims.hashData acc.serviceState p) := by
  obtain ⟨st⟩ := (transition_eq_ok prims now fuel orders).mp h
  have hqueues : t.newState.pendingAuthorizersQueues = s.pendingAuthorizersQueues := by
    rw [st.newState_eq]
  have hserv : t.newState.services = st.accumulation.serviceState := by
    rw [st.newState_eq]
  refine ⟨st.accumulation, st.accumulation_eq, ?_⟩
  constructor
  · intro heffects
    refine ⟨heffects.queues.symm.trans hqueues, ?_⟩
    intro p hp hreq
    have hprovided := heffects.preimages p hp hreq
    rw [hserv] at hprovided
    exact hreq.not_provided hprovided
  · rintro ⟨hkept, hnone⟩
    exact ⟨hqueues.trans hkept.symm, fun p hp hreq => absurd hreq (hnone p hp)⟩

def wantedPreimage : Preimage := ⟨1, [7]⟩

theorem effects_installed_of_unrequested : ∃ t acc,
      transition accepting 1 0 sortedOrders emptyState (quietBlock 1 0 [wantedPreimage])
        ⟨false, .ok []⟩ = .ok t ∧
      calculateWorkReportsAndAccumulate accepting.hashData 0 sortedOrders
        (quietBlock 1 0 [wantedPreimage]).header emptyState 1 t.workReports = .ret acc ∧
      EffectsInstalled accepting.hashData (quietBlock 1 0 [wantedPreimage]) acc t.newState := by
  have hfwd : emptyState.timeslotIndex < 1 := by decide
  obtain ⟨t, st, -, hserv, -, hqueues⟩ := quietBlock_accepted 0 sortedOrders ⟨false, .ok []⟩ 0
    [wantedPreimage] emptyState_quiet hfwd (UInt32.le_refl 1)
  have ht := (transition_eq_ok accepting 1 0 sortedOrders).mpr ⟨st⟩
  obtain ⟨acc, hacc, hiff⟩ := effects_installed_iff accepting 1 0 sortedOrders emptyState
    (quietBlock 1 0 [wantedPreimage]) ⟨false, .ok []⟩ t ht
  obtain rfl := Outcome.ret.inj (hacc.symm.trans st.accumulation_eq)
  refine ⟨t, st.accumulation, ht, hacc, hiff.mpr ⟨hqueues, ?_⟩⟩
  rintro p - ⟨account, haccount, -⟩
  rw [hserv] at haccount
  cases haccount

def requestingState : State :=
  { emptyState with
    services := Finmap.singleton 1 { ServiceAccount.zero with
        preimageMeta := Finmap.singleton (metaKeyOf accepting.hashData wantedPreimage) [] } }

theorem requestingState_requested :
    Requested accepting.hashData requestingState.services wantedPreimage :=
  ⟨_, Finmap.lookup_singleton_eq, Finmap.notMem_empty, Finmap.lookup_singleton_eq⟩

theorem requested_preimage_not_stored : ∃ t acc,
      transition accepting 1 0 sortedOrders requestingState
        (quietBlock 1 0 [wantedPreimage]) ⟨false, .ok []⟩ = .ok t ∧
      calculateWorkReportsAndAccumulate accepting.hashData 0 sortedOrders
        (quietBlock 1 0 [wantedPreimage]).header requestingState 1 t.workReports =
          .ret acc ∧
      Requested accepting.hashData acc.serviceState wantedPreimage ∧
      t.newState.services = requestingState.services ∧
      ¬ EffectsInstalled accepting.hashData (quietBlock 1 0 [wantedPreimage]) acc t.newState := by
  have hquiet : QuietState requestingState :=
    ⟨rfl, emptyState_quiet.queued, emptyState_quiet.next⟩
  have hfwd : requestingState.timeslotIndex < 1 := by decide
  obtain ⟨t, st, -, hserv, -, -⟩ := quietBlock_accepted 0 sortedOrders ⟨false, .ok []⟩ 0
    [wantedPreimage] hquiet hfwd (UInt32.le_refl 1)
  have hnew : t.newState.services = requestingState.services := by
    rw [st.newState_eq]
    exact hserv
  have hreq : Requested accepting.hashData st.accumulation.serviceState
      wantedPreimage := by
    rw [hserv]
    exact requestingState_requested
  refine ⟨t, st.accumulation, (transition_eq_ok _ _ _ _).mpr ⟨st⟩, st.accumulation_eq, hreq,
    hnew, ?_⟩
  intro heffects
  have hprovided := heffects.preimages wantedPreimage List.mem_cons_self hreq
  rw [hnew] at hprovided
  exact requestingState_requested.not_provided hprovided

end Strawberry.StateTransition
