import Strawberry.Block.RoundTrip
import Strawberry.State.Serialization

/-!
# Collisions of state keys

The key of a request is made of the hash alone and not of what `serializeStorageAndPreimage`
combines for it.
-/

namespace Strawberry.State

open Block Jam Service Finmap

variable {s : Strawberry.State}

theorem getElem?_toArray {n : Nat} (bytes : List UInt8) {i : Nat} (hi : i < n) :
    (toArray n bytes)[i]? = some (bytes.getD i 0) := by
  simp [toArray, hi]

variable {id id' : ServiceId} {p : ServiceId × List UInt8} {a b : Item} {octets : List UInt8}
  {account account' : ServiceAccount}

theorem octet_inj (h₀ : octet id 0 = octet id' 0) (h₁ : octet id 1 = octet id' 1)
    (h₂ : octet id 2 = octet id' 2) (h₃ : octet id 3 = octet id' 3) : id = id' := by
  have hbytes (id : ServiceId) :=
    Call.ok_inj.mp ((marshal_uint32 id).symm.trans (marshal_serviceId id))
  have hnat : leNat (toLE 4 id.toNat) = leNat (toLE 4 id'.toNat) := by
    rw [hbytes, hbytes, h₀, h₁, h₂, h₃]
  rw [leNat_toLE, leNat_toLE] at hnat
  have hlt := id.toNat_lt
  have hlt' := id'.toNat_lt
  exact UInt32.toNat_inj.mp (by omega)

theorem lt_of_octet (h₁ : octet id 1 = 0) (h₂ : octet id 2 = 0)
    (h₃ : octet id 3 = 0) : id.toNat < 256 := by
  have hlt := id.toNat_lt
  have hzero : ∀ n, UInt8.ofNat n = 0 → n % 256 = 0 := by
    intro n hn
    rw [← UInt8.toNat_ofNat', hn]
    rfl
  have h₁ := hzero _ h₁
  have h₂ := hzero _ h₂
  have h₃ := hzero _ h₃
  omega

theorem interleave_inj {h h' : Vector UInt8 32} :
    interleave id h = interleave id' h' ↔ id = id' ∧ h.toList.take 28 = h'.toList.take 28 := by
  constructor
  · intro heq
    have hlist := toArray_inj (by simp) (by simp) heq
    obtain ⟨hfirst, hrest⟩ := List.append_inj hlist rfl
    simp only [List.cons.injEq, and_true] at hfirst
    obtain ⟨ho₀, h₀, ho₁, h₁, ho₂, h₂, ho₃, h₃⟩ := hfirst
    constructor
    · exact octet_inj ho₀ ho₁ ho₂ ho₃
    · rw [take_twentyEight, take_twentyEight, h₀, h₁, h₂, h₃, hrest]
  · rintro ⟨rfl, heq⟩
    rw [take_twentyEight, take_twentyEight] at heq
    obtain ⟨hfirst, hrest⟩ := List.append_inj heq rfl
    simp only [List.cons.injEq, and_true] at hfirst
    obtain ⟨h₀, h₁, h₂, h₃⟩ := hfirst
    rw [interleave, interleave, h₀, h₁, h₂, h₃, hrest]

theorem ne_interleave (hid : 256 ≤ id.toNat) (h : Vector UInt8 32) {key : Hash}
    (h₂ : key[2]? = some 0) (h₄ : key[4]? = some 0) (h₆ : key[6]? = some 0) :
    key ≠ interleave id h := by
  rintro rfl
  rw [interleave, getElem?_toArray _ (by decide), Option.some.injEq] at h₂ h₄ h₆
  exact absurd (lt_of_octet h₂ h₄ h₆) (Nat.not_lt.mpr hid)

theorem component_key_inj {c c' : Component} (h : c.key = c'.key) : c = c' := by
  cases c <;> cases c' <;> first | rfl | exact absurd h (by decide)

theorem component_key_ne (c : Component) : c.key ≠ 255 := by
  cases c <;> decide

def storageMark : List UInt8 := [240, 255, 255, 255]

def preimageMark : List UInt8 := [240, 254, 255, 255]

def Item.copied : Item → Option (ServiceId × List UInt8)
  | .component _ => none
  | .service _ _ => none
  | .storage id hash _ => some (id, storageMark ++ hash.toList.take 24)
  | .preimage id hash _ => some (id, preimageMark ++ (hash.toList.drop 1).take 24)
  | .request id key _ => some (id, key.hash.toList.take 28)

theorem take_combine {encoded rest : List UInt8} (hrest : rest.length = 28) :
    (combine encoded rest).toList.take 28 = (toArray 4 encoded).toList ++ rest.take 24 := by
  rw [combine, toList_toArray (by simp [hrest]), List.take_append, List.take_of_length_le (by simp)]
  simp

theorem stateKey_of_copied {item : Item} (h : item.copied = some p) :
    ∃ v : Vector UInt8 32, stateKey item = interleave p.1 v ∧ v.toList.take 28 = p.2 := by
  cases item with
  | component | service => cases h
  | storage | preimage =>
    cases h
    refine ⟨_, rfl, ?_⟩
    rw [take_combine (by simp), List.take_take]
    rfl
  | request id key timeslots =>
    cases h
    exact ⟨_, rfl, rfl⟩

theorem stateKey_eq_iff_copied {q : ServiceId × List UInt8}
    (ha : a.copied = some p) (hb : b.copied = some q) : stateKey a = stateKey b ↔ p = q := by
  obtain ⟨v, hv, hp⟩ := stateKey_of_copied ha
  obtain ⟨w, hw, hq⟩ := stateKey_of_copied hb
  rw [hv, hw, interleave_inj, hp, hq, Prod.ext_iff]

structure CopiedApart (s : Strawberry.State) : Prop where
  storage : ∀ id account, s.services.lookup id = some account →
    ∀ hash ∈ account.storage, ∀ hash' ∈ account.storage,
      hash.toList.take 24 = hash'.toList.take 24 → hash = hash'
  preimages : ∀ id account, s.services.lookup id = some account →
    ∀ hash ∈ account.preimageLookup, ∀ hash' ∈ account.preimageLookup,
      (hash.toList.drop 1).take 24 = (hash'.toList.drop 1).take 24 → hash = hash'

structure RequestsApart (s : Strawberry.State) : Prop where
  requests : ∀ id account, s.services.lookup id = some account →
    ∀ key ∈ account.preimageMeta, ∀ key' ∈ account.preimageMeta,
      key.hash.toList.take 28 = key'.hash.toList.take 28 → key = key'
  storage : ∀ id account, s.services.lookup id = some account →
    ∀ key ∈ account.preimageMeta, ∀ hash ∈ account.storage,
      key.hash.toList.take 28 ≠ storageMark ++ hash.toList.take 24
  preimages : ∀ id account, s.services.lookup id = some account →
    ∀ key ∈ account.preimageMeta, ∀ hash ∈ account.preimageLookup,
      key.hash.toList.take 28 ≠ preimageMark ++ (hash.toList.drop 1).take 24

theorem marks_ne (xs ys : List UInt8) : storageMark ++ xs ≠ preimageMark ++ ys := by
  intro h
  exact absurd (List.append_inj h rfl).1 (by decide)

theorem mem_of_lookup {K V : Type} [DecidableEq K] {m : GoMap K V} {k : K} {v : V}
    (h : m.lookup k = some v) : k ∈ m := mem_iff.mpr ⟨v, h⟩

theorem Has.of_copied (ha : Has s a) (hcopied : a.copied = some (id, octets)) :
    ∃ account, s.services.lookup id = some account ∧
      ((∃ hash value, account.storage.lookup hash = some value ∧ a = .storage id hash value ∧
          octets = storageMark ++ hash.toList.take 24) ∨
        (∃ hash value, account.preimageLookup.lookup hash = some value ∧
          a = .preimage id hash value ∧
          octets = preimageMark ++ (hash.toList.drop 1).take 24) ∨
        ∃ key timeslots, account.preimageMeta.lookup key = some timeslots ∧
          a = .request id key timeslots ∧ octets = key.hash.toList.take 28) := by
  cases a with
  | component | service => cases hcopied
  | storage id hash value =>
    cases hcopied
    obtain ⟨account, hlookup, hvalue⟩ := ha
    exact ⟨account, hlookup, .inl ⟨hash, value, hvalue, rfl, rfl⟩⟩
  | preimage id hash value =>
    cases hcopied
    obtain ⟨account, hlookup, hvalue⟩ := ha
    exact ⟨account, hlookup, .inr (.inl ⟨hash, value, hvalue, rfl, rfl⟩)⟩
  | request id key timeslots =>
    cases hcopied
    obtain ⟨account, hlookup, hvalue⟩ := ha
    exact ⟨account, hlookup, .inr (.inr ⟨key, timeslots, hvalue, rfl, rfl⟩)⟩

theorem copied_inj (hcopied : CopiedApart s) (hrequests : RequestsApart s)
    (ha : Has s a) (hb : Has s b) (hpa : a.copied = some p)
    (hpb : b.copied = some p) : a = b := by
  obtain ⟨id, octets⟩ := p
  obtain ⟨account, hlookup, hcases⟩ := ha.of_copied hpa
  obtain ⟨account', hlookup', hcases'⟩ := hb.of_copied hpb
  cases hlookup.symm.trans hlookup'
  rcases hcases with ⟨hash, value, hvalue, rfl, hoctets⟩ | ⟨hash, value, hvalue, rfl, hoctets⟩ |
      ⟨key, timeslots, hvalue, rfl, hoctets⟩ <;>
    rcases hcases' with ⟨hash', value', hvalue', rfl, hoctets'⟩ |
      ⟨hash', value', hvalue', rfl, hoctets'⟩ | ⟨key', timeslots', hvalue', rfl, hoctets'⟩
  · obtain rfl := hcopied.storage id account hlookup hash (mem_of_lookup hvalue) hash'
      (mem_of_lookup hvalue') (List.append_cancel_left (hoctets.symm.trans hoctets'))
    rw [Option.some.inj (hvalue.symm.trans hvalue')]
  · exact absurd (hoctets.symm.trans hoctets') (marks_ne _ _)
  · exact absurd (hoctets'.symm.trans hoctets) (hrequests.storage id account hlookup key'
      (mem_of_lookup hvalue') hash (mem_of_lookup hvalue))
  · exact absurd (hoctets'.symm.trans hoctets) (marks_ne _ _)
  · obtain rfl := hcopied.preimages id account hlookup hash (mem_of_lookup hvalue) hash'
      (mem_of_lookup hvalue') (List.append_cancel_left (hoctets.symm.trans hoctets'))
    rw [Option.some.inj (hvalue.symm.trans hvalue')]
  · exact absurd (hoctets'.symm.trans hoctets) (hrequests.preimages id account hlookup key'
      (mem_of_lookup hvalue') hash (mem_of_lookup hvalue))
  · exact absurd (hoctets.symm.trans hoctets') (hrequests.storage id account hlookup key
      (mem_of_lookup hvalue) hash' (mem_of_lookup hvalue'))
  · exact absurd (hoctets.symm.trans hoctets') (hrequests.preimages id account hlookup key
      (mem_of_lookup hvalue) hash' (mem_of_lookup hvalue'))
  · obtain rfl := hrequests.requests id account hlookup key (mem_of_lookup hvalue) key'
      (mem_of_lookup hvalue') (hoctets.symm.trans hoctets')
    rw [Option.some.inj (hvalue.symm.trans hvalue')]

theorem Has.id_mem (ha : Has s a) (hcopied : a.copied = some (id, octets)) : id ∈ s.services := by
  obtain ⟨account, hlookup, -⟩ := ha.of_copied hcopied
  exact mem_of_lookup hlookup

theorem first_component (c : Component) : (stateKey (.component c))[0]? = some c.key :=
  getElem?_toArray _ (by decide)

theorem first_service (id : ServiceId) (account : ServiceAccount) :
    (stateKey (.service id account))[0]? = some 255 :=
  getElem?_toArray _ (by decide)

theorem zeros_of_basic (h : a.copied = none) :
    (stateKey a)[2]? = some 0 ∧ (stateKey a)[4]? = some 0 ∧ (stateKey a)[6]? = some 0 := by
  have hget (bytes : List UInt8) (i : Nat) (hi : i < 32) := getElem?_toArray bytes hi
  cases a with
  | component | service => exact ⟨hget _ 2 (by decide), hget _ 4 (by decide), hget _ 6 (by decide)⟩
  | storage | preimage | request => cases h

theorem stateKey_ne_copied (hids : ∀ id ∈ s.services, 256 ≤ id.toNat) (hb : Has s b)
    (hpa : a.copied = none) (hpb : b.copied = some p) :
    stateKey a ≠ stateKey b := by
  obtain ⟨v, hv, -⟩ := stateKey_of_copied hpb
  obtain ⟨h₂, h₄, h₆⟩ := zeros_of_basic hpa
  rw [hv]
  exact ne_interleave (hids p.1 (hb.id_mem hpb)) v h₂ h₄ h₆

theorem service_key_inj
    (h : stateKey (.service id account) = stateKey (.service id' account')) : id = id' := by
  have hlist : [255, octet id 0, 0, octet id 1, 0, octet id 2, 0, octet id 3] =
      [255, octet id' 0, 0, octet id' 1, 0, octet id' 2, 0, octet id' 3] := by
    exact toArray_inj rfl (by simp) h
  simp only [List.cons.injEq, and_true, true_and] at hlist
  obtain ⟨h₀, h₁, h₂, h₃⟩ := hlist
  exact octet_inj h₀ h₁ h₂ h₃

theorem stateKey_inj_basic (ha : Has s a) (hb : Has s b) (hpa : a.copied = none)
    (hpb : b.copied = none) (h : stateKey a = stateKey b) : a = b := by
  have hfirst : (stateKey a)[0]? = (stateKey b)[0]? := by rw [h]
  cases a with
  | component c =>
    rw [first_component] at hfirst
    cases b with
    | component c' =>
      rw [first_component] at hfirst
      rw [component_key_inj (Option.some.inj hfirst)]
    | service id account =>
      rw [first_service] at hfirst
      exact absurd (Option.some.inj hfirst) (component_key_ne c)
    | storage | preimage | request => cases hpb
  | service id account =>
    rw [first_service] at hfirst
    cases b with
    | component c =>
      rw [first_component] at hfirst
      exact absurd (Option.some.inj hfirst).symm (component_key_ne c)
    | service id' account' =>
      obtain rfl := service_key_inj h
      rw [Option.some.inj (Eq.trans (Eq.symm ha) hb)]
    | storage | preimage | request => cases hpb
  | storage | preimage | request => cases hpa

theorem stateKey_inj (hids : ∀ id ∈ s.services, 256 ≤ id.toNat) (hcopied : CopiedApart s)
    (hrequests : RequestsApart s) (ha : Has s a) (hb : Has s b)
    (h : stateKey a = stateKey b) : a = b := by
  cases hpa : a.copied with
  | none =>
    cases hpb : b.copied with
    | none => exact stateKey_inj_basic ha hb hpa hpb h
    | some q => exact absurd h (stateKey_ne_copied hids hb hpa hpb)
  | some p =>
    cases hpb : b.copied with
    | none => exact absurd h.symm (stateKey_ne_copied hids ha hpb hpa)
    | some q =>
      obtain rfl := (stateKey_eq_iff_copied hpa hpb).mp h
      exact copied_inj hcopied hrequests ha hb hpa hpb

theorem requestsApart_of_inj
    (h : ∀ a b, Has s a → Has s b → stateKey a = stateKey b → a = b) : RequestsApart s where
  requests := by
    intro id account hlookup key hkey key' hkey' heq
    obtain ⟨timeslots, hvalue⟩ := mem_iff.mp hkey
    obtain ⟨timeslots', hvalue'⟩ := mem_iff.mp hkey'
    have hitems := h (.request id key timeslots) (.request id key' timeslots')
      ⟨account, hlookup, hvalue⟩ ⟨account, hlookup, hvalue'⟩
      ((stateKey_eq_iff_copied rfl rfl).mpr (by rw [heq]))
    exact (Item.request.inj hitems).2.1
  storage := by
    intro id account hlookup key hkey hash hhash heq
    obtain ⟨timeslots, hvalue⟩ := mem_iff.mp hkey
    obtain ⟨value, hvalue'⟩ := mem_iff.mp hhash
    cases h (.request id key timeslots) (.storage id hash value) ⟨account, hlookup, hvalue⟩
      ⟨account, hlookup, hvalue'⟩ ((stateKey_eq_iff_copied rfl rfl).mpr (by rw [heq]))
  preimages := by
    intro id account hlookup key hkey hash hhash heq
    obtain ⟨timeslots, hvalue⟩ := mem_iff.mp hkey
    obtain ⟨value, hvalue'⟩ := mem_iff.mp hhash
    cases h (.request id key timeslots) (.preimage id hash value) ⟨account, hlookup, hvalue⟩
      ⟨account, hlookup, hvalue'⟩ ((stateKey_eq_iff_copied rfl rfl).mpr (by rw [heq]))

def stateWith (services : ServiceState) : Strawberry.State where
  services := services
  privilegedServices := ⟨0, 0, 0, ∅⟩
  validatorState :=
    { currentValidators := .replicate _ none
      archivedValidators := .replicate _ none
      queuedValidators := .replicate _ none
      safroleState := ⟨.replicate _ none, [], .keys (.replicate _ (.replicate 32 0)),
        .replicate _ 0⟩ }
  entropyPool := .replicate _ (.replicate 32 0)
  coreAuthorizersPool := .replicate _ []
  pendingAuthorizersQueues := .replicate _ (.replicate _ (.replicate 32 0))
  coreAssignments := .replicate _ none
  recentBlocks := []
  timeslotIndex := 0
  pastJudgements := ⟨[], [], [], []⟩
  validatorStatistics := ⟨.replicate _ .zero, .replicate _ .zero⟩
  accumulationQueue := .replicate _ []
  accumulationHistory := .replicate _ ∅

theorem stateWith_encodes (services : ServiceState) (c : Component) :
    ∃ bytes, c.marshal (stateWith services) = .ok bytes := by
  have hwritten : ∀ {α : Type} (w : Wire α) {a : α}, w.Fits a → ∃ bytes, w.marshal a = .ok bytes :=
    fun w _ ha => (Wire.written ha).imp fun _ h => h.1
  have hvalidators : ∀ v : ValidatorsData, v = .replicate _ none →
      ∃ bytes, validatorsDataWire.marshal v = .ok bytes := by
    rintro _ rfl
    exact hwritten validatorsDataWire (by simp [validatorsDataWire, ValidatorKey.wire])
  cases c with
  | coreAuthorizersPool =>
    exact hwritten coreAuthorizersPoolWire (by simp [coreAuthorizersPoolWire, stateWith])
  | pendingAuthorizersQueues =>
    exact hwritten pendingAuthorizersQueuesWire (by simp [pendingAuthorizersQueuesWire, hashWire])
  | recentBlocks => exact hwritten BlockState.wire.slice (by simp [stateWith])
  | safroleState =>
    have hkeys : SealingKeys.wire.Fits (.keys (.replicate _ (.replicate 32 0))) :=
      ⟨by rintro ⟨⟩, fun _ _ _ _ => trivial⟩
    exact hwritten SafroleState.wire
      (by simp [SafroleState.wire, stateWith, validatorsDataWire, ValidatorKey.wire, hkeys])
  | pastJudgements =>
    simp only [Component.marshal, Judgements.marshal, stateWith, sortByteSlicesCopy,
      List.mergeSort_nil]
    exact ⟨_, rfl⟩
  | entropyPool => exact hwritten entropyPoolWire (by simp [entropyPoolWire, hashWire])
  | queuedValidators | currentValidators | archivedValidators => exact hvalidators _ rfl
  | coreAssignments =>
    exact hwritten coreAssignmentsWire (by simp [coreAssignmentsWire, Assignment.wire, stateWith])
  | timeslotIndex => exact ⟨_, rfl⟩
  | privilegedServices =>
    exact hwritten PrivilegedServices.wire (by simp [PrivilegedServices.wire, stateWith, GoMap.len])
  | validatorStatistics =>
    exact hwritten ValidatorStatisticsState.wire
      (by simp [ValidatorStatisticsState.wire, ValidatorStatistics.wire])
  | accumulationQueue =>
    exact hwritten accumulationQueueWire (by simp [accumulationQueueWire, stateWith])
  | accumulationHistory =>
    exact hwritten accumulationHistoryWire (by simp [accumulationHistoryWire, stateWith])

theorem marshalRecord_ok (account : ServiceAccount) :
    ∃ bytes, marshalRecord account = .ok bytes := by
  rw [marshalRecord, hashWire, marshal_byteArray]
  exact ⟨_, rfl⟩

theorem Item.encode_ok (h : ∀ c : Component, ∃ bytes, c.marshal s = .ok bytes) (item : Item) :
    ∃ bytes, item.encode s = .ok bytes := by
  cases item with
  | component c => exact h c
  | service id account => exact marshalRecord_ok account
  | storage | preimage => exact ⟨_, rfl⟩
  | request id key timeslots => exact ⟨_, marshal_slice fun x _ => marshal_uint32 x⟩

theorem stateWith_serializes (H : HashData) (orders : Orders) (services : ServiceState) :
    ∃ m, serializeState H orders (stateWith services) = .ok m := by
  rw [serializeState_eq]
  exact writeItems_ok (fun item _ => item.encode_ok (stateWith_encodes services)) ∅

def oneService (account : ServiceAccount) : Strawberry.State :=
  stateWith (Finmap.singleton 256 account)

theorem lookup_oneService (h : (oneService account).services.lookup id = some account') :
    id = 256 ∧ account' = account := by
  have hid : id = 256 := (mem_singleton _ _ _).mp (mem_of_lookup h)
  subst hid
  exact ⟨rfl, (Option.some.inj ((lookup_singleton_eq).symm.trans h)).symm⟩

theorem ids_oneService (account : ServiceAccount) :
    ∀ id ∈ (oneService account).services, 256 ≤ id.toNat := by
  intro id hid
  rw [(mem_singleton _ _ _).mp hid]
  decide

variable {H : HashData}

theorem root_of_merklizeState {orders : Orders}
    {order : (keys : Finset Hash) → GoMap.Traversal keys} {fuel : Nat} (hfuel : 256 < fuel)
    {store store' : Trie.DB} {hash : Hash}
    (h : merklizeState H orders order fuel s store = .ret (store', .ok hash)) :
    ∃ m, serializeState H orders s = .ok m ∧
      Trie.root H (Trie.trieOf 256 0 (Trie.toKeyValues m (order m.keys))) = hash := by
  unfold merklizeState at h
  split at h
  · cases h
  · cases h
  · cases h
  · next m hserialized =>
    obtain ⟨db, hcommit, -⟩ : ∃ db, store.merklizeAndCommit H fuel
        (Trie.toKeyValues m (order m.keys)) = .ret (db, .ok (Trie.root H
          (Trie.trieOf 256 0 (Trie.toKeyValues m (order m.keys))))) ∧ _ :=
      Trie.merklizeAndCommit_eq m (order m.keys) (order m.keys) hfuel store
    simp only [hcommit, ret_bind] at h
    cases h
    exact ⟨m, hserialized, rfl⟩

/-- When no two items of the state share a key. -/
theorem state_keys_apart_iff (hids : ∀ id ∈ s.services, 256 ≤ id.toNat) (hcopied : CopiedApart s) :
    ((∀ a b, Has s a → Has s b → a ≠ b → stateKey a ≠ stateKey b) ↔ RequestsApart s) ∧
    (RequestsApart s → ∀ orders m, serializeState H orders s = .ok m →
      ∀ item, Has s item → ∃ bytes, item.encode s = .ok bytes ∧
        m.lookup (stateKey item) = some bytes) ∧
    (RequestsApart s → ∀ orders order fuel store store' hash, 256 < fuel →
      merklizeState H orders order fuel s store = .ret (store', .ok hash) →
      ∃ t : BitTrie Trie.KeyValue, Trie.root H t = hash ∧
        ∀ item, Has s item → ∃ bytes, item.encode s = .ok bytes ∧
          ((stateKey item).toList, bytes) ∈ t.items) := by
  have hlookup : RequestsApart s → ∀ orders m, serializeState H orders s = .ok m →
      ∀ item, Has s item → ∃ bytes, item.encode s = .ok bytes ∧
        m.lookup (stateKey item) = some bytes := by
    intro hrequests orders m hm item hitem
    obtain ⟨item', hitem', hkey, hvalue⟩ := serializeState_lookup hm hitem
    obtain rfl := stateKey_inj hids hcopied hrequests hitem' hitem hkey
    exact hvalue
  refine ⟨⟨?_, ?_⟩, hlookup, ?_⟩
  · intro hdiffer
    refine requestsApart_of_inj ?_
    intro a b ha hb heq
    by_contra hne
    exact hdiffer a b ha hb hne heq
  · intro hrequests a b ha hb hne heq
    exact hne (stateKey_inj hids hcopied hrequests ha hb heq)
  · intro hrequests orders order fuel store store' hash hfuel hrun
    obtain ⟨m, hm, hroot⟩ := root_of_merklizeState hfuel hrun
    refine ⟨_, hroot, ?_⟩
    intro item hitem
    obtain ⟨bytes, hbytes, hfound⟩ := hlookup hrequests orders m hm item hitem
    exact ⟨bytes, hbytes, (Trie.mem_items_trieOf _).mpr ⟨_, rfl, hfound⟩⟩

def oneOfEach : ServiceAccount :=
  { ServiceAccount.zero with
    storage := Finmap.singleton (.replicate 32 0) [1]
    preimageLookup := Finmap.singleton (.replicate 32 0) [2]
    preimageMeta := Finmap.singleton ⟨.replicate 32 0, 1⟩ [3] }

noncomputable def listedOrders : Orders :=
  ⟨GoMap.Traversal.listed, fun _ => GoMap.Traversal.listed, fun _ => GoMap.Traversal.listed,
    fun _ => GoMap.Traversal.listed⟩

theorem state_keys_apart_oneOfEach :
    (∀ a b, Has (oneService oneOfEach) a → Has (oneService oneOfEach) b → a ≠ b →
      stateKey a ≠ stateKey b) ∧
    ∃ m, serializeState hashOf listedOrders (oneService oneOfEach) = .ok m ∧
      ∀ item, Has (oneService oneOfEach) item → ∃ bytes,
        item.encode (oneService oneOfEach) = .ok bytes ∧ m.lookup (stateKey item) = some bytes := by
  have hcopied : CopiedApart (oneService oneOfEach) := by
    constructor
    all_goals
      intro id account hlookup hash hhash hash' hhash' _
      obtain ⟨rfl, rfl⟩ := lookup_oneService hlookup
      rw [(mem_singleton _ _ _).mp hhash, (mem_singleton _ _ _).mp hhash']
  have hrequests : RequestsApart (oneService oneOfEach) := by
    constructor
    all_goals
      intro id account hlookup key hkey other hother
      obtain ⟨rfl, rfl⟩ := lookup_oneService hlookup
      rw [(mem_singleton _ _ _).mp hkey, (mem_singleton _ _ _).mp hother]
    · exact fun _ => rfl
    · decide
    · decide
  obtain ⟨m, hm⟩ := stateWith_serializes hashOf listedOrders (Finmap.singleton 256 oneOfEach)
  obtain ⟨hiff, hvalues, -⟩ :=
    @state_keys_apart_iff _ hashOf (ids_oneService oneOfEach) hcopied
  exact ⟨hiff.mpr hrequests, m, hm, hvalues hrequests listedOrders m hm⟩

def twoRequests : ServiceAccount :=
  { ServiceAccount.zero with
    preimageMeta := .assign ∅ [(⟨.replicate 32 0, 1⟩, [1]), (⟨.replicate 32 0, 2⟩, [2])] }

theorem request_is_lost : (∀ id ∈ (oneService twoRequests).services, 256 ≤ id.toNat) ∧
    CopiedApart (oneService twoRequests) ∧
    ∃ a b : Item, Has (oneService twoRequests) a ∧ Has (oneService twoRequests) b ∧ a ≠ b ∧
      stateKey a = stateKey b ∧
      ∀ H orders, ∃ m, serializeState H orders (oneService twoRequests) = .ok m ∧
        ∃ item bytes, (item = a ∨ item = b) ∧ item.encode (oneService twoRequests) = .ok bytes ∧
          m.lookup (stateKey item) ≠ some bytes := by
  refine ⟨ids_oneService twoRequests, ?_, .request 256 ⟨.replicate 32 0, 1⟩ [1],
    .request 256 ⟨.replicate 32 0, 2⟩ [2], ?_, ?_, by decide, rfl, ?_⟩
  · constructor
    all_goals
      intro id account hlookup hash hhash
      obtain ⟨rfl, rfl⟩ := lookup_oneService hlookup
      exact absurd hhash notMem_empty
  · exact ⟨twoRequests, lookup_singleton_eq, by decide⟩
  · exact ⟨twoRequests, lookup_singleton_eq, by decide⟩
  · intro H orders
    obtain ⟨m, hm⟩ := stateWith_serializes H orders (Finmap.singleton 256 twoRequests)
    refine ⟨m, hm, ?_⟩
    by_cases hfirst : m.lookup (stateKey (.request 256 ⟨.replicate 32 0, 1⟩ [1])) =
        some [1, 1, 0, 0, 0]
    · refine ⟨_, [1, 2, 0, 0, 0], .inr rfl, by decide +kernel, ?_⟩
      intro hsecond
      cases (hfirst.symm.trans hsecond)
    · exact ⟨_, _, .inl rfl, by decide +kernel, hfirst⟩

end Strawberry.State
