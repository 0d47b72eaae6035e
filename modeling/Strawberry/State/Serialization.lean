import Strawberry.Block.Wire
import Strawberry.Merkle.Roots
import Strawberry.State.State

/-!
# The serialized state

Every item of the state is entered under a key of 32 octets, in any order of the maps.
-/

namespace Strawberry.State

open Block Constants Jam Service

def ValidatorKey.wire : Wire ValidatorKey :=
  Record.struct (.field "Bandersnatch" (.byteArray 32) <| .field "Ed25519" .publicKey <|
      .field "Bls" (.byteArray 144) <| .field "Metadata" (.byteArray 128) .nil)
    { toFun := fun k => (k.bandersnatch, k.ed25519, k.bls, k.metadata, ())
      invFun := fun (a, b, c, d, ()) => ⟨a, b, c, d⟩ }

def validatorsDataWire : Wire ValidatorsData := ValidatorKey.wire.pointer.array numberOfValidators

def SealingKeys.wire : Wire SealingKeys where
  ty := .enum <| .holding 0 (Ticket.wire.array timeslotsPerEpoch).ty <|
    .holding 1 (.array timeslotsPerEpoch (.array 32 (.prim (.fixed .w8)))) <|
    .nil .unsupportedEnumTypeValue
  equiv :=
    { toFun := fun
        | .tickets bodies => .inl ((Ticket.wire.array timeslotsPerEpoch).equiv bodies)
        | .keys epochKeys => .inr (.inl epochKeys)
        | .none => .inr (.inr ())
      invFun := fun
        | .inl bodies => .tickets ((Ticket.wire.array timeslotsPerEpoch).equiv.symm bodies)
        | .inr (.inl epochKeys) => .keys epochKeys
        | .inr (.inr ()) => .none
      left_inv := by
        rintro (_ | bodies | epochKeys)
        · rfl
        · simp
        · rfl
      right_inv := by
        rintro (bodies | epochKeys | ⟨⟩)
        · simp
        · rfl
        · rfl }

def SafroleState.wire : Wire SafroleState :=
  Record.struct
    (.field "NextValidators" validatorsDataWire <| .field "TicketAccumulator" Ticket.wire.slice <|
      .field "SealingKeySeries" SealingKeys.wire <| .field "RingCommitment" (.byteArray 144) .nil)
    { toFun := fun s => (s.nextValidators, s.ticketAccumulator, s.sealingKeySeries,
        s.ringCommitment, ())
      invFun := fun (a, b, c, d, ()) => ⟨a, b, c, d⟩ }

def ValidatorStatistics.wire : Wire ValidatorStatistics :=
  Record.struct (.field "NumOfBlocks" .uint32 <| .field "NumOfTickets" .uint64 <|
      .field "NumOfPreimages" .uint64 <| .field "NumOfBytesAllPreimages" .uint64 <|
      .field "NumOfGuaranteedReports" .uint64 <| .field "NumOfAvailabilityAssurances" .uint64 .nil)
    { toFun := fun s => (s.numOfBlocks, s.numOfTickets, s.numOfPreimages,
        s.numOfBytesAllPreimages, s.numOfGuaranteedReports, s.numOfAvailabilityAssurances, ())
      invFun := fun (a, b, c, d, e, f, ()) => ⟨a, b, c, d, e, f⟩ }

def Assignment.wire : Wire Assignment :=
  Record.struct (.field "WorkReport" WorkReport.wire.pointer <| .field "Time" .uint32 .nil)
    { toFun := fun a => (a.workReport, a.time, ())
      invFun := fun (a, b, ()) => ⟨a, b⟩ }

def coreAssignmentsWire : Wire CoreAssignments := Assignment.wire.pointer.array totalNumberOfCores

def coreAuthorizersPoolWire : Wire CoreAuthorizersPool := hashWire.slice.array totalNumberOfCores

def pendingAuthorizersQueuesWire : Wire PendingAuthorizersQueues :=
  (hashWire.array pendingAuthorizersQueueSize).array totalNumberOfCores

def BlockState.wire : Wire BlockState :=
  Record.struct (.field "HeaderHash" hashWire <| .field "StateRoot" hashWire <|
      .field "AccumulationResultMMR" hashWire.pointer.slice <|
      .field "WorkReportHashes" (.byteArrayMap 32 32) .nil)
    { toFun := fun b => (b.headerHash, b.stateRoot, b.accumulationResultMMR, b.workReportHashes, ())
      invFun := fun (a, b, c, d, ()) => ⟨a, b, c, d⟩ }

def PrivilegedServices.wire : Wire PrivilegedServices :=
  Record.struct (.field "ManagerServiceId" .uint32 <| .field "AssignServiceId" .uint32 <|
      .field "DesignateServiceId" .uint32 <| .field "AmountOfGasPerServiceId" .uint32Map .nil)
    { toFun := fun p => (p.managerServiceId, p.assignServiceId, p.designateServiceId,
        p.amountOfGasPerServiceId, ())
      invFun := fun (a, b, c, d, ()) => ⟨a, b, c, d⟩ }

def WorkReportWithUnAccumulatedDependencies.wire : Wire WorkReportWithUnAccumulatedDependencies :=
  Record.struct
    (.field "WorkReport" WorkReport.wire <| .field "Dependencies" (.byteArraySet 32) .nil)
    { toFun := fun w => (w.workReport, w.dependencies, ())
      invFun := fun (a, b, ()) => ⟨a, b⟩ }

def accumulationQueueWire : Wire AccumulationQueue :=
  WorkReportWithUnAccumulatedDependencies.wire.slice.array timeslotsPerEpoch

def accumulationHistoryWire : Wire AccumulationHistory := (Wire.byteArraySet 32).array timeslotsPerEpoch

def entropyPoolWire : Wire EntropyPool := hashWire.array entropyPoolSize

def ValidatorStatisticsState.wire : Wire ValidatorStatisticsState :=
  ((ValidatorStatistics.wire.array numberOfValidators).array 2).via
    { toFun := fun s => #v[s.completed, s.present]
      invFun := fun v => ⟨v[0], v[1]⟩
      left_inv := fun _ => rfl
      right_inv := by
        intro v
        apply Vector.ext
        intro i hi
        match i, hi with
        | 0, _ => rfl
        | 1, _ => rfl }

def generateStateKeyBasic (i : UInt8) : Hash := toArray 32 [i]

def generateStateKeyInterleavedBasic (i : UInt8) (s : ServiceId) : Call JamError Hash := do
  match ← Wire.uint32.marshal s with
  | e₀ :: e₁ :: e₂ :: e₃ :: _ => return toArray 32 [i, e₀, 0, e₁, 0, e₂, 0, e₃]
  | _ => .crash .indexOutOfRange

def generateStateKeyInterleaved (s : ServiceId) (h : Vector UInt8 32) : Call JamError Hash := do
  match ← Wire.uint32.marshal s with
  | e₀ :: e₁ :: e₂ :: e₃ :: _ =>
    return toArray 32 ([e₀, h[0], e₁, h[1], e₂, h[2], e₃, h[3]] ++ (h.toList.drop 4).take 24)
  | _ => .crash .indexOutOfRange

def octet (id : ServiceId) (i : Nat) : UInt8 := UInt8.ofNat (id.toNat / 256 ^ i)

def interleave (id : ServiceId) (h : Vector UInt8 32) : Hash :=
  toArray 32 ([octet id 0, h[0], octet id 1, h[1], octet id 2, h[2], octet id 3, h[3]] ++
    (h.toList.drop 4).take 24)

theorem take_four (h : Vector UInt8 32) : h.toList.take 4 = [h[0], h[1], h[2], h[3]] := by
  apply List.ext_getElem
  · simp
  · intro i hi hi'
    obtain rfl | rfl | rfl | rfl : i = 0 ∨ i = 1 ∨ i = 2 ∨ i = 3 := by
      simp only [List.length_cons, List.length_nil] at hi'
      omega
    all_goals simp

theorem take_twentyEight (h : Vector UInt8 32) :
    h.toList.take 28 = [h[0], h[1], h[2], h[3]] ++ (h.toList.drop 4).take 24 := by
  rw [← take_four, ← List.take_add]

def combine (encoded rest : List UInt8) : Vector UInt8 32 :=
  toArray 32 ((toArray 4 encoded).toList ++ rest)

inductive Component where
  | coreAuthorizersPool
  | pendingAuthorizersQueues
  | recentBlocks
  | safroleState
  | pastJudgements
  | entropyPool
  | queuedValidators
  | currentValidators
  | archivedValidators
  | coreAssignments
  | timeslotIndex
  | privilegedServices
  | validatorStatistics
  | accumulationQueue
  | accumulationHistory
  deriving DecidableEq

def Component.key : Component → UInt8
  | coreAuthorizersPool => 1
  | pendingAuthorizersQueues => 2
  | recentBlocks => 3
  | safroleState => 4
  | pastJudgements => 5
  | entropyPool => 6
  | queuedValidators => 7
  | currentValidators => 8
  | archivedValidators => 9
  | coreAssignments => 10
  | timeslotIndex => 11
  | privilegedServices => 12
  | validatorStatistics => 13
  | accumulationQueue => 14
  | accumulationHistory => 15

def sortByteSlicesCopy {n : Nat} (slice : List (Vector UInt8 n)) : List (Vector UInt8 n) :=
  slice.mergeSort fun a b => decide (leNat a.toList.reverse ≤ leNat b.toList.reverse)

def Judgements.marshal (j : Judgements) : Call JamError (List UInt8) := do
  let good ← hashWire.slice.marshal (sortByteSlicesCopy j.goodWorkReports)
  let bad ← hashWire.slice.marshal (sortByteSlicesCopy j.badWorkReports)
  let wonky ← hashWire.slice.marshal (sortByteSlicesCopy j.wonkyWorkReports)
  let offending ← Wire.publicKey.slice.marshal (sortByteSlicesCopy j.offendingValidators)
  return good ++ bad ++ wonky ++ offending

def Component.marshal (s : Strawberry.State) : Component → Call JamError (List UInt8)
  | coreAuthorizersPool => coreAuthorizersPoolWire.marshal s.coreAuthorizersPool
  | pendingAuthorizersQueues => pendingAuthorizersQueuesWire.marshal s.pendingAuthorizersQueues
  | recentBlocks => BlockState.wire.slice.marshal s.recentBlocks
  | safroleState => SafroleState.wire.marshal s.validatorState.safroleState
  | pastJudgements => s.pastJudgements.marshal
  | entropyPool => entropyPoolWire.marshal s.entropyPool
  | queuedValidators => validatorsDataWire.marshal s.validatorState.queuedValidators
  | currentValidators => validatorsDataWire.marshal s.validatorState.currentValidators
  | archivedValidators => validatorsDataWire.marshal s.validatorState.archivedValidators
  | coreAssignments => coreAssignmentsWire.marshal s.coreAssignments
  | timeslotIndex => Wire.uint32.marshal s.timeslotIndex
  | privilegedServices => PrivilegedServices.wire.marshal s.privilegedServices
  | validatorStatistics => ValidatorStatisticsState.wire.marshal s.validatorStatistics
  | accumulationQueue => accumulationQueueWire.marshal s.accumulationQueue
  | accumulationHistory => accumulationHistoryWire.marshal s.accumulationHistory

def basicFields : List Component :=
  [.coreAuthorizersPool, .pendingAuthorizersQueues, .recentBlocks, .entropyPool,
    .queuedValidators, .currentValidators, .archivedValidators, .coreAssignments, .timeslotIndex,
    .privilegedServices, .validatorStatistics, .accumulationQueue, .accumulationHistory]

abbrev Serialized := GoMap Hash (List UInt8)

def serializeField (s : Strawberry.State) (serializedState : Serialized) (c : Component) :
    Call JamError Serialized := do
  let encodedValue ← c.marshal s
  return serializedState.insert (generateStateKeyBasic c.key) encodedValue

structure Orders where
  services : (s : Finset ServiceId) → GoMap.Traversal s
  storage : ServiceId → (s : Finset Hash) → GoMap.Traversal s
  preimageLookup : ServiceId → (s : Finset Hash) → GoMap.Traversal s
  preimageMeta : ServiceId → (s : Finset PreImageMetaKey) → GoMap.Traversal s

def calculateFootprintSize (storage : GoMap Hash (List UInt8))
    (preimageMeta : GoMap PreImageMetaKey (List Timeslot)) : UInt64 :=
  UInt64.ofNat (∑ key ∈ preimageMeta.keys, (81 + key.length).toNat +
    storage.sumBy fun value => 32 + value.length)

def marshalRecord (account : ServiceAccount) : Call JamError (List UInt8) := do
  let encodedCodeHash ← hashWire.marshal account.codeHash
  let encodedBalance ← Wire.uint64.marshal account.balance
  let encodedGasLimitForAccumulator ← Wire.uint64.marshal account.gasLimitForAccumulator
  let encodedGasLimitOnTransfer ← Wire.uint64.marshal account.gasLimitOnTransfer
  let encodedFootprintSize ←
    Wire.uint64.marshal (calculateFootprintSize account.storage account.preimageMeta)
  let footprintItems := 2 * account.preimageMeta.len + account.storage.len
  let encodedFootprintItems ← Wire.int.marshal (Int64.ofNat footprintItems)
  return encodedCodeHash ++ encodedBalance ++ encodedGasLimitForAccumulator ++
    encodedGasLimitOnTransfer ++ encodedFootprintSize ++ encodedFootprintItems

variable (H : HashData)

section

variable (orders : Orders) (serviceId : ServiceId) (account : ServiceAccount)
  (serializedState : Serialized)

def serializeStorage : Call JamError Serialized := do
  let encodedMaxUint32 ← Wire.int.marshal 4294967295
  (account.storage.entriesAt (orders.storage serviceId account.storage.keys).keys).foldlM
    (fun m (hash, value) => do
      let encodedValue ← Wire.bytes.marshal value
      let combined := combine encodedMaxUint32 (hash.toList.take 28)
      let stateKey ← generateStateKeyInterleaved serviceId combined
      return m.insert stateKey encodedValue) serializedState

def serializePreimages : Call JamError Serialized := do
  let encodedMaxUint32MinusOne ← Wire.int.marshal 4294967294
  (account.preimageLookup.entriesAt
      (orders.preimageLookup serviceId account.preimageLookup.keys).keys).foldlM
    (fun m (hash, value) => do
      let encodedValue ← Wire.bytes.marshal value
      let combined := combine encodedMaxUint32MinusOne ((hash.toList.drop 1).take 28)
      let stateKey ← generateStateKeyInterleaved serviceId combined
      return m.insert stateKey encodedValue) serializedState

def serializeRequests : Call JamError Serialized :=
  (account.preimageMeta.entriesAt
      (orders.preimageMeta serviceId account.preimageMeta.keys).keys).foldlM
    (fun m (key, preImageHistoricalTimeslots) => do
      let encodedLength ← Wire.uint32.marshal key.length
      let encoded ← Wire.uint32.slice.marshal preImageHistoricalTimeslots
      let _combined := combine encodedLength (((H encoded).toList.drop 2).take 28)
      let stateKey ← generateStateKeyInterleaved serviceId key.hash
      return m.insert stateKey encoded) serializedState

def serializeStorageAndPreimage : Call JamError Serialized := do
  let serializedState ← serializeStorage orders serviceId account serializedState
  let serializedState ← serializePreimages orders serviceId account serializedState
  serializeRequests H orders serviceId account serializedState

def serializeServiceAccount : Call JamError Serialized := do
  let combined ← marshalRecord account
  let stateKey ← generateStateKeyInterleavedBasic 255 serviceId
  serializeStorageAndPreimage H orders serviceId account (serializedState.insert stateKey combined)

end

def serializeState (orders : Orders) (s : Strawberry.State) : Call JamError Serialized := do
  let serializedState ← basicFields.foldlM (serializeField s) ∅
  let serializedState ← serializeField s serializedState .safroleState
  let serializedState ← serializeField s serializedState .pastJudgements
  (s.services.entriesAt (orders.services s.services.keys).keys).foldlM
    (fun m (serviceId, account) => serializeServiceAccount H orders serviceId account m)
    serializedState

inductive MerklizeError where
  | serializing (cause : JamError)
  | committing (cause : Trie.BatchError)

def merklizeState (orders : Orders) (order : (keys : Finset Hash) → GoMap.Traversal keys)
    (fuel : Nat) (s : Strawberry.State) (store : Trie.DB) :
    Outcome (Trie.DB × Except MerklizeError Hash) :=
  match serializeState H orders s with
  | .ret (.error e) => .ret (store, .error (.serializing e))
  | .crash f => .crash f
  | .hang => .hang
  | .ret (.ok serializedState) => do
    let kvs := Trie.toKeyValues serializedState (order serializedState.keys)
    let (store, result) ← store.merklizeAndCommit H fuel kvs
    return (store, result.mapError .committing)

end Strawberry.State

namespace Strawberry.State

open Block Jam Service

inductive Item where
  | component (c : Component)
  | service (id : ServiceId) (account : ServiceAccount)
  | storage (id : ServiceId) (hash : Hash) (value : List UInt8)
  | preimage (id : ServiceId) (hash : Hash) (value : List UInt8)
  | request (id : ServiceId) (key : PreImageMetaKey) (timeslots : List Timeslot)
  deriving DecidableEq

def Has (s : Strawberry.State) : Item → Prop
  | .component _ => True
  | .service id account => s.services.lookup id = some account
  | .storage id hash value =>
    ∃ account, s.services.lookup id = some account ∧ account.storage.lookup hash = some value
  | .preimage id hash value =>
    ∃ account, s.services.lookup id = some account ∧ account.preimageLookup.lookup hash = some value
  | .request id key timeslots =>
    ∃ account, s.services.lookup id = some account ∧
      account.preimageMeta.lookup key = some timeslots

def Item.encode (s : Strawberry.State) : Item → Call JamError (List UInt8)
  | .component c => c.marshal s
  | .service _ account => marshalRecord account
  | .storage _ _ value => Wire.bytes.marshal value
  | .preimage _ _ value => Wire.bytes.marshal value
  | .request _ _ timeslots => Wire.uint32.slice.marshal timeslots

theorem marshal_serviceId (id : ServiceId) :
    Wire.uint32.marshal id = .ok [octet id 0, octet id 1, octet id 2, octet id 3] := by
  simp [toLE, octet, Nat.div_div_eq_div_mul]

theorem generateStateKeyInterleaved_eq (id : ServiceId) (h : Vector UInt8 32) :
    generateStateKeyInterleaved id h = .ok (interleave id h) := by
  rw [generateStateKeyInterleaved, marshal_serviceId]
  rfl

def maxUint32Octets : List UInt8 := [240, 255, 255, 255, 255]

def maxUint32MinusOneOctets : List UInt8 := [240, 254, 255, 255, 255]

theorem marshal_maxUint32 : Wire.int.marshal 4294967295 = .ok maxUint32Octets := by decide +kernel

theorem marshal_maxUint32MinusOne : Wire.int.marshal 4294967294 = .ok maxUint32MinusOneOctets := by
  decide +kernel

def stateKey : Item → Hash
  | .component c => generateStateKeyBasic c.key
  | .service id _ =>
    toArray 32 [255, octet id 0, 0, octet id 1, 0, octet id 2, 0, octet id 3]
  | .storage id hash _ => interleave id (combine maxUint32Octets (hash.toList.take 28))
  | .preimage id hash _ =>
    interleave id (combine maxUint32MinusOneOctets ((hash.toList.drop 1).take 28))
  | .request id key _ => interleave id key.hash

theorem generateStateKeyInterleavedBasic_eq (id : ServiceId) (account : ServiceAccount) :
    generateStateKeyInterleavedBasic 255 id = .ok (stateKey (.service id account)) := by
  rw [generateStateKeyInterleavedBasic, marshal_serviceId]
  rfl

variable {H : HashData} {orders : Orders} {s : Strawberry.State}

def accountItems (orders : Orders) (id : ServiceId) (account : ServiceAccount) : List Item :=
  .service id account ::
    (account.storage.entriesAt (orders.storage id account.storage.keys).keys).map
      (fun e => .storage id e.1 e.2) ++
    (account.preimageLookup.entriesAt (orders.preimageLookup id account.preimageLookup.keys).keys).map
      (fun e => .preimage id e.1 e.2) ++
    (account.preimageMeta.entriesAt (orders.preimageMeta id account.preimageMeta.keys).keys).map
      fun e => .request id e.1 e.2

def items (orders : Orders) (s : Strawberry.State) : List Item :=
  (basicFields ++ [Component.safroleState, Component.pastJudgements]).map Item.component ++
    (s.services.entriesAt (orders.services s.services.keys).keys).flatMap
      fun e => accountItems orders e.1 e.2

def writeItem (s : Strawberry.State) (m : Serialized) (item : Item) : Call JamError Serialized := do
  let bytes ← item.encode s
  return m.insert (stateKey item) bytes

theorem serializeRequests_eq (id : ServiceId) (account : ServiceAccount) (m : Serialized) :
    serializeRequests H orders id account m = ((account.preimageMeta.entriesAt
        (orders.preimageMeta id account.preimageMeta.keys).keys).map
          fun e => Item.request id e.1 e.2).foldlM (writeItem s) m := by
  rw [serializeRequests, List.foldlM_map]
  simp only [generateStateKeyInterleaved_eq, marshal_uint32]
  rfl

theorem serializePreimages_eq (id : ServiceId) (account : ServiceAccount) (m : Serialized) :
    serializePreimages orders id account m = ((account.preimageLookup.entriesAt
        (orders.preimageLookup id account.preimageLookup.keys).keys).map
          fun e => Item.preimage id e.1 e.2).foldlM (writeItem s) m := by
  rw [serializePreimages, List.foldlM_map, marshal_maxUint32MinusOne]
  simp only [generateStateKeyInterleaved_eq]
  rfl

theorem serializeStorage_eq (id : ServiceId) (account : ServiceAccount) (m : Serialized) :
    serializeStorage orders id account m =
      ((account.storage.entriesAt (orders.storage id account.storage.keys).keys).map
          fun e => Item.storage id e.1 e.2).foldlM (writeItem s) m := by
  rw [serializeStorage, List.foldlM_map, marshal_maxUint32]
  simp only [generateStateKeyInterleaved_eq]
  rfl

theorem serializeServiceAccount_eq (id : ServiceId) (account : ServiceAccount) (m : Serialized) :
    serializeServiceAccount H orders id account m =
      (accountItems orders id account).foldlM (writeItem s) m := by
  rw [serializeServiceAccount, generateStateKeyInterleavedBasic_eq id account, accountItems,
    List.cons_append, List.cons_append, List.foldlM_cons, writeItem]
  simp only [serializeStorageAndPreimage, serializeStorage_eq (s := s),
    serializePreimages_eq (s := s), serializeRequests_eq (s := s), List.foldlM_append, bind_assoc,
    pure_bind]
  rfl

theorem serializeServices_eq (es : List (ServiceId × ServiceAccount)) (m : Serialized) :
    es.foldlM (fun m e => serializeServiceAccount H orders e.1 e.2 m) m =
      (es.flatMap fun e => accountItems orders e.1 e.2).foldlM (writeItem s) m := by
  induction es generalizing m with
  | nil => rfl
  | cons e es ih =>
    rw [List.foldlM_cons, List.flatMap_cons, List.foldlM_append,
      ← serializeServiceAccount_eq e.1 e.2 m]
    exact bind_congr ih

theorem serializeState_eq :
    serializeState H orders s = (items orders s).foldlM (writeItem s) ∅ := by
  rw [serializeState, items, List.foldlM_append, List.foldlM_map, List.foldlM_append]
  simp only [serializeServices_eq (s := s), bind_assoc, List.foldlM_cons, List.foldlM_nil, pure_bind]
  rfl

theorem lookup_writeItems {l : List Item} {m m' : Serialized} (h : l.foldlM (writeItem s) m = .ok m')
    (key : Hash) :
    (∃ item ∈ l, stateKey item = key ∧ ∃ bytes, item.encode s = .ok bytes ∧
      m'.lookup key = some bytes) ∨
    ((∀ item ∈ l, stateKey item ≠ key) ∧ m'.lookup key = m.lookup key) := by
  induction l generalizing m with
  | nil =>
    cases Call.ok_inj.mp h
    exact .inr ⟨nofun, rfl⟩
  | cons item l ih =>
    obtain ⟨m₁, hwrite, h⟩ := Call.bind_eq_ok.mp h
    obtain ⟨bytes, hbytes, hwrite⟩ := Call.bind_eq_ok.mp hwrite
    cases Call.pure_eq_ok.mp hwrite
    rcases ih h with ⟨item', hmem, hfound⟩ | ⟨hnone, hget⟩
    · exact .inl ⟨item', List.mem_cons_of_mem item hmem, hfound⟩
    · by_cases hkey : stateKey item = key
      · refine .inl ⟨item, List.mem_cons_self, hkey, bytes, hbytes, ?_⟩
        rw [hget, hkey, Finmap.lookup_insert]
      · refine .inr ⟨List.forall_mem_cons.mpr ⟨hkey, hnone⟩, ?_⟩
        rw [hget, Finmap.lookup_insert_of_ne _ (Ne.symm hkey)]

theorem writeItems_ok {l : List Item} (h : ∀ item ∈ l, ∃ bytes, item.encode s = .ok bytes)
    (m : Serialized) : ∃ m', l.foldlM (writeItem s) m = .ok m' := by
  induction l generalizing m with
  | nil => exact ⟨m, rfl⟩
  | cons item l ih =>
    rw [List.forall_mem_cons] at h
    obtain ⟨bytes, hbytes⟩ := h.1
    obtain ⟨m', hm'⟩ := ih h.2 (m.insert (stateKey item) bytes)
    refine ⟨m', ?_⟩
    rw [List.foldlM_cons, writeItem, hbytes]
    exact hm'

theorem mem_entriesAt_iff {K V : Type} [DecidableEq K] {m : GoMap K V}
    (order : GoMap.Traversal m.keys) {k : K} {v : V} :
    (k, v) ∈ m.entriesAt order.keys ↔ m.lookup k = some v := by
  rw [GoMap.mem_entriesAt, order.mem_iff, Finmap.mem_keys, and_iff_right_iff_imp]
  intro h
  exact Finmap.mem_iff.mpr ⟨v, h⟩

theorem mem_accountItems {id : ServiceId} {account : ServiceAccount} {item : Item} :
    item ∈ accountItems orders id account ↔ item = .service id account ∨
      (∃ hash value, account.storage.lookup hash = some value ∧ item = .storage id hash value) ∨
      (∃ hash value, account.preimageLookup.lookup hash = some value ∧
        item = .preimage id hash value) ∨
      ∃ key timeslots, account.preimageMeta.lookup key = some timeslots ∧
        item = .request id key timeslots := by
  simp only [accountItems, List.cons_append, List.mem_cons, List.mem_append, List.mem_map,
    Prod.exists, mem_entriesAt_iff, or_assoc, @eq_comm _ item]

theorem mem_items {item : Item} : item ∈ items orders s ↔ Has s item := by
  have hall : ∀ c : Component, c ∈ basicFields ++ [Component.safroleState, .pastJudgements] := by
    intro c
    cases c <;> decide
  rw [items, List.mem_append, List.mem_map, List.mem_flatMap]
  constructor
  · rintro (⟨c, -, rfl⟩ | ⟨⟨id, account⟩, he, hitem⟩)
    · exact trivial
    · have hget := (mem_entriesAt_iff _).mp he
      rcases mem_accountItems.mp hitem with rfl | ⟨hash, value, hvalue, rfl⟩ |
        ⟨hash, value, hvalue, rfl⟩ | ⟨key, timeslots, hvalue, rfl⟩
      · exact hget
      · exact ⟨account, hget, hvalue⟩
      · exact ⟨account, hget, hvalue⟩
      · exact ⟨account, hget, hvalue⟩
  · intro hhas
    cases item with
    | component c => exact .inl ⟨c, hall c, rfl⟩
    | service id account =>
      exact .inr ⟨(id, account), (mem_entriesAt_iff _).mpr hhas, mem_accountItems.mpr (.inl rfl)⟩
    | storage id hash value =>
      obtain ⟨account, hget, hvalue⟩ := hhas
      exact .inr ⟨(id, account), (mem_entriesAt_iff _).mpr hget,
        mem_accountItems.mpr (.inr (.inl ⟨hash, value, hvalue, rfl⟩))⟩
    | preimage id hash value =>
      obtain ⟨account, hget, hvalue⟩ := hhas
      exact .inr ⟨(id, account), (mem_entriesAt_iff _).mpr hget,
        mem_accountItems.mpr (.inr (.inr (.inl ⟨hash, value, hvalue, rfl⟩)))⟩
    | request id key timeslots =>
      obtain ⟨account, hget, hvalue⟩ := hhas
      exact .inr ⟨(id, account), (mem_entriesAt_iff _).mpr hget,
        mem_accountItems.mpr (.inr (.inr (.inr ⟨key, timeslots, hvalue, rfl⟩)))⟩

theorem serializeState_lookup {m : Serialized} (h : serializeState H orders s = .ok m)
    {item : Item} (hitem : Has s item) :
    ∃ item', Has s item' ∧ stateKey item' = stateKey item ∧ ∃ bytes, item'.encode s = .ok bytes ∧
      m.lookup (stateKey item) = some bytes := by
  rw [serializeState_eq] at h
  rcases lookup_writeItems h (stateKey item) with ⟨item', hmem, hkey, hvalue⟩ | ⟨hnone, -⟩
  · exact ⟨item', mem_items.mp hmem, hkey, hvalue⟩
  · exact absurd rfl (hnone item (mem_items.mpr hitem))

end Strawberry.State
