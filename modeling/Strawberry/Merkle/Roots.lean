import Strawberry.Common
import Strawberry.Lib.Checks
import Strawberry.Lib.Entries
import Strawberry.Lib.HashTree

/-!
# State roots

`Merklize` computes the root of a binary trie, whatever the order the map is listed in.
-/

namespace Strawberry.Trie

abbrev Node := Vector UInt8 64

abbrev StateKey := Vector UInt8 32

def leafNodeFlag : UInt8 := 0b10000000

def notEmbeddedLeafFlag : UInt8 := 0b01000000

def valueSizeMask : UInt8 := 0b00111111

def embeddedValueMaxSize : Nat := 32

def isLeaf (n : Node) : Bool := n.get 0 &&& leafNodeFlag ≠ 0

def isBranch (n : Node) : Bool := n.get 0 &&& leafNodeFlag = 0

def isEmbeddedLeaf (n : Node) : Bool := isLeaf n && n.get 0 &&& notEmbeddedLeafFlag = 0

inductive NodeError where
  | notLeafNode
  | notBranchNode
  | notEmbeddedLeaf
  | embeddedLeafInsteadOfRegular
  deriving DecidableEq

def getEmbeddedValueSize (n : Node) : Except NodeError Nat := do
  check (isEmbeddedLeaf n) .notEmbeddedLeaf
  return (n.get 0 &&& valueSizeMask).toNat

def getBranchHashes (n : Node) : Except NodeError (Hash × Hash) := do
  check (isBranch n) .notBranchNode
  return (toArray 32 ((n.toList.drop 1).take 31), toArray 32 (n.toList.drop 32))

def getLeafKey (n : Node) : Except NodeError StateKey := do
  check (isLeaf n) .notLeafNode
  return toArray 32 ((n.toList.drop 1).take 31)

def getLeafValue (n : Node) : Call NodeError (List UInt8) := do
  let size ← getEmbeddedValueSize n
  sliceOf n.toList 32 (32 + size)

def getLeafValueHash (n : Node) : Except NodeError Hash := do
  check (isLeaf n) .notLeafNode
  check (!isEmbeddedLeaf n) .embeddedLeafInsteadOfRegular
  return toArray 32 (n.toList.drop 32)

variable (H : HashData)

def encodeBranchNode (left right : Hash) : Node :=
  toArray 64 ((left.get 0 &&& 0b01111111) :: left.toList.drop 1 ++ right.toList)

def cleared (hash : Hash) : List UInt8 := (hash.get 0 &&& 0b01111111) :: hash.toList.drop 1

def encodeLeafNode (key : StateKey) (value : List UInt8) : Node :=
  if value.length ≤ embeddedValueMaxSize then
    toArray 64 ((leafNodeFlag ||| UInt8.ofNat value.length) :: key.toList.take 31 ++ value)
  else
    toArray 64 ((leafNodeFlag ||| notEmbeddedLeafFlag) :: key.toList.take 31 ++ (H value).toList)

abbrev KeyValue := List UInt8 × List UInt8

def bit (k : List UInt8) (i : Nat) : Outcome Bool :=
  match k[i / 8]? with
  | none => .crash .indexOutOfRange
  | some octet => .ret (octet &&& (1 <<< UInt8.ofNat (7 - i % 8)) ≠ 0)

def splitAt (keyValues : List KeyValue) (i : Nat) : Outcome (List KeyValue × List KeyValue) :=
  keyValues.foldlM (fun (leftKVs, rightKVs) kv => do
    if ← bit kv.1 i then return (leftKVs, rightKVs ++ [kv]) else return (leftKVs ++ [kv], rightKVs))
    ([], [])

abbrev StoreNode (σ ε : Type) := Hash → Node → σ → σ × Option ε

variable {σ ε : Type}

def storeAt (storeNode : Option (StoreNode σ ε)) (hash : Hash) (node : Node) (s : σ) :
    σ × Except ε Hash :=
  match storeNode with
  | none => (s, .ok hash)
  | some store =>
    match store hash node s with
    | (s', none) => (s', .ok hash)
    | (s', some e) => (s', .error e)

def merklize (storeNode : Option (StoreNode σ ε)) :
    (fuel : Nat) → List KeyValue → (i : Nat) → σ → Outcome (σ × Except ε Hash)
  | 0, _, _, _ => .hang
  | _ + 1, [], _, s => .ret (s, .ok (.replicate 32 0))
  | _ + 1, [(key, value)], _, s =>
    let leafNode := encodeLeafNode H (toArray 32 key) value
    .ret (storeAt storeNode (H leafNode.toList) leafNode s)
  | fuel + 1, kv₁ :: kv₂ :: keyValues, i, s => do
    let (leftKVs, rightKVs) ← splitAt (kv₁ :: kv₂ :: keyValues) i
    match ← merklize storeNode fuel leftKVs (i + 1) s with
    | (s, .error e) => return (s, .error e)
    | (s, .ok leftHash) =>
      match ← merklize storeNode fuel rightKVs (i + 1) s with
      | (s, .error e) => return (s, .error e)
      | (s, .ok rightHash) =>
        let branchNode := encodeBranchNode leftHash rightHash
        return storeAt storeNode (H branchNode.toList) branchNode s

inductive BatchError where
  | batchDone
  deriving DecidableEq

structure Batch where
  entries : List (List UInt8 × List UInt8)
  done : Bool

def Batch.new : Batch := ⟨[], false⟩

def Batch.put (key value : List UInt8) (b : Batch) : Batch × Option BatchError :=
  if b.done then (b, some .batchDone) else ({ b with entries := b.entries ++ [(key, value)] }, none)

structure DB where
  store : GoMap (List UInt8) (List UInt8)
  root : Hash

def DB.commit (db : DB) (b : Batch) : Except BatchError DB :=
  if b.done then .error .batchDone else .ok { db with store := db.store.assign b.entries }

def putNode : StoreNode Batch BatchError := fun hash node => Batch.put hash.toList node.toList

def DB.merklizeAndCommit (db : DB) (fuel : Nat) (pairs : List KeyValue) :
    Outcome (DB × Except BatchError Hash) := do
  match ← merklize H (some putNode) fuel pairs 0 Batch.new with
  | (_, .error e) => return (db, .error e)
  | (batch, .ok root) =>
    match db.commit batch with
    | .error e => return (db, .error e)
    | .ok db' => return ({ db' with root := root }, .ok root)

def toKeyValues (m : GoMap StateKey (List UInt8)) (order : GoMap.Traversal m.keys) :
    List KeyValue :=
  (m.entriesAt order.keys).map fun (key, value) => (key.toList, value)

end Strawberry.Trie

namespace Strawberry.Trie

open List

variable {H : HashData} {σ ε : Type} {storeNode : Option (StoreNode σ ε)}
  {keyValues : List KeyValue} {depth fuel i : Nat}

def octetBit (octet : UInt8) (j : Nat) : Bool := octet &&& (1 <<< UInt8.ofNat (7 - j)) ≠ 0

def bitAt (k : List UInt8) (i : Nat) : Bool := octetBit (k.getD (i / 8) 0) (i % 8)

theorem bit_eq {k : List UInt8} (h : i / 8 < k.length) : bit k i = .ret (bitAt k i) := by
  rw [bit, List.getElem?_eq_getElem h, bitAt, getD_eq_getElem?_getD, List.getElem?_eq_getElem h]
  rfl

theorem octet_ext {a b : UInt8} (h : ∀ j < 8, octetBit a j = octetBit b j) : a = b := by
  have hsum : ∀ n : Fin 256, UInt8.ofNat n.val = ((List.range 8).map fun j =>
      if octetBit (UInt8.ofNat n.val) j then 1 <<< UInt8.ofNat (7 - j) else 0).sum := by
    decide +kernel
  have ha := hsum ⟨a.toNat, a.toNat_lt⟩
  have hb := hsum ⟨b.toNat, b.toNat_lt⟩
  simp only [UInt8.ofNat_toNat] at ha hb
  rw [ha, hb]
  congr 1
  refine map_congr_left ?_
  intro j hj
  rw [h j (mem_range.mp hj)]

theorem exists_bit_ne {k k' : StateKey} (h : k ≠ k') :
    ∃ j, j < 256 ∧ bitAt k.toList j ≠ bitAt k'.toList j := by
  by_contra hall
  simp only [not_exists, not_and, not_not] at hall
  refine h (Vector.ext ?_)
  intro n hn
  refine octet_ext ?_
  intro j hj
  have hbit := hall (8 * n + j) (by omega)
  have hdiv : (8 * n + j) / 8 = n := by omega
  have hmod : (8 * n + j) % 8 = j := by omega
  simpa [bitAt, hdiv, hmod, hn] using hbit

theorem splitAt_eq (h : ∀ kv ∈ keyValues, i / 8 < kv.1.length) :
    splitAt keyValues i = .ret (keyValues.filter (fun kv => !bitAt kv.1 i),
      keyValues.filter fun kv => bitAt kv.1 i) := by
  have hloop : ∀ (kvs leftKVs rightKVs : List KeyValue), (∀ kv ∈ kvs, i / 8 < kv.1.length) →
      kvs.foldlM (fun sides kv => do
        if ← bit kv.1 i then return (sides.1, sides.2 ++ [kv])
        else return (sides.1 ++ [kv], sides.2)) (leftKVs, rightKVs) =
      Outcome.ret (leftKVs ++ kvs.filter (fun kv => !bitAt kv.1 i),
        rightKVs ++ kvs.filter fun kv => bitAt kv.1 i) := by
    intro kvs
    induction kvs with
    | nil => simp
    | cons kv kvs ih =>
      intro leftKVs rightKVs hkvs
      rw [forall_mem_cons] at hkvs
      rw [foldlM_cons]
      simp only [bit_eq hkvs.1, ret_bind]
      cases hbit : bitAt kv.1 i with
      | false | true =>
        refine (ih _ _ hkvs.2).trans ?_
        simp [hbit]
  exact hloop keyValues [] [] h

variable (H) in
def root : BitTrie KeyValue → Hash
  | .empty => .replicate 32 0
  | .leaf (key, value) => H (encodeLeafNode H (toArray 32 key) value).toList
  | .node left right => H (encodeBranchNode (root left) (root right)).toList

def trieOf (depth i : Nat) (keyValues : List KeyValue) : BitTrie KeyValue :=
  .build (fun kv => bitAt kv.1) depth i keyValues

def Stores (storeNode : Option (StoreNode σ ε)) (P : σ → Prop) (root : Hash)
    (result : Except ε Hash) : Prop :=
  result = .ok root ∨ ∃ store hash node s e, storeNode = some store ∧ P s ∧
    (store hash node s).2 = some e ∧ result = .error e

def Keeps (storeNode : Option (StoreNode σ ε)) (P : σ → Prop) : Prop :=
  ∀ store, storeNode = some store → ∀ hash node s, P s → P (store hash node s).1

variable {P : σ → Prop} (hkeeps : Keeps storeNode P)
include hkeeps

theorem storeAt_stores (hash : Hash) (node : Node) {s : σ} (hs : P s) :
    P (storeAt storeNode hash node s).1 ∧
      Stores storeNode P hash (storeAt storeNode hash node s).2 := by
  cases storeNode with
  | none => exact ⟨hs, .inl rfl⟩
  | some store =>
    have hP := hkeeps store rfl hash node s hs
    rw [storeAt]
    cases hstore : store hash node s with
    | mk s' err =>
      rw [hstore] at hP
      cases err with
      | none => exact ⟨hP, .inl rfl⟩
      | some e => exact ⟨hP, .inr ⟨store, hash, node, s, e, rfl, hs, by rw [hstore], rfl⟩⟩

theorem merklize_trieOf (hlen : ∀ kv ∈ keyValues, kv.1.length = 32)
    (hseparated : BitTrie.Separated (fun kv => bitAt kv.1) depth i keyValues)
    (hdepth : i + depth ≤ 256) (hfuel : depth < fuel) {s : σ} (hs : P s) :
    ∃ s' result, merklize H storeNode fuel keyValues i s = .ret (s', result) ∧ P s' ∧
      Stores storeNode P (root H (trieOf depth i keyValues)) result := by
  induction depth generalizing fuel i keyValues s with
  | zero =>
    obtain ⟨fuel, rfl⟩ : ∃ n, fuel = n + 1 := ⟨fuel - 1, by omega⟩
    match keyValues, hseparated.length_le_one with
    | [], _ => exact ⟨s, _, rfl, hs, .inl rfl⟩
    | [(key, value)], _ => exact ⟨_, _, rfl, storeAt_stores hkeeps _ _ hs⟩
  | succ depth ih =>
    obtain ⟨fuel, rfl⟩ : ∃ n, fuel = n + 1 := ⟨fuel - 1, by omega⟩
    match keyValues, hlen, hseparated with
    | [], _, _ => exact ⟨s, _, rfl, hs, .inl rfl⟩
    | [(key, value)], _, _ => exact ⟨_, _, rfl, storeAt_stores hkeeps _ _ hs⟩
    | kv₁ :: kv₂ :: rest, hlen, hseparated =>
      have hsplit : splitAt (kv₁ :: kv₂ :: rest) i = _ := splitAt_eq fun kv hkv => by
        rw [hlen kv hkv]
        omega
      have hpart : ∀ p, ∀ kv ∈ (kv₁ :: kv₂ :: rest).filter p, kv.1.length = 32 :=
        fun p kv hkv => hlen kv (mem_of_mem_filter hkv)
      rw [merklize, hsplit]
      obtain ⟨s₁, left, hleft, hs₁, hstores⟩ :=
        ih (hpart _) hseparated.left (by omega) (by omega : depth < fuel) hs
      simp only [ret_bind, hleft]
      rcases hstores with rfl | ⟨store, hash, node, t, e, hstore, ht, he, rfl⟩
      · obtain ⟨s₂, right, hright, hs₂, hstores⟩ :=
          ih (hpart _) hseparated.right (by omega) (by omega : depth < fuel) hs₁
        simp only [hright, ret_bind]
        rcases hstores with rfl | ⟨store, hash, node, t, e, hstore, ht, he, rfl⟩
        · exact ⟨_, _, rfl, storeAt_stores hkeeps _ _ hs₂⟩
        · exact ⟨_, _, rfl, hs₂, .inr ⟨store, hash, node, t, e, hstore, ht, he, rfl⟩⟩
      · exact ⟨_, _, rfl, hs₁, .inr ⟨store, hash, node, t, e, hstore, ht, he, rfl⟩⟩

omit hkeeps

section

variable (m : GoMap StateKey (List UInt8)) (order order' : GoMap.Traversal m.keys)

theorem toKeyValues_perm : (toKeyValues m order).Perm (toKeyValues m order') := by
  have hkeys : order.keys.Perm order'.keys := by
    rw [perm_ext_iff_of_nodup order.nodup order'.nodup]
    intro key
    rw [order.mem_iff, order'.mem_iff]
  exact (hkeys.filterMap _).map _

theorem mem_toKeyValues {key value : List UInt8} : (key, value) ∈ toKeyValues m order ↔
      ∃ k : StateKey, k.toList = key ∧ m.lookup k = some value := by
  unfold toKeyValues
  rw [mem_map]
  constructor
  · rintro ⟨⟨k, v⟩, hmem, heq⟩
    cases heq
    exact ⟨k, rfl, (GoMap.mem_entriesAt.mp hmem).2⟩
  · rintro ⟨k, rfl, hget⟩
    refine ⟨(k, value), GoMap.mem_entriesAt.mpr ⟨?_, hget⟩, rfl⟩
    rw [order.mem_iff, Finmap.mem_keys, Finmap.mem_iff]
    exact ⟨value, hget⟩

theorem toKeyValues_length : ∀ kv ∈ toKeyValues m order, kv.1.length = 32 := by
  rintro ⟨key, value⟩ hkv
  obtain ⟨k, rfl, -⟩ := (mem_toKeyValues m order).mp hkv
  exact k.length_toList

theorem toKeyValues_separated :
    BitTrie.Separated (fun kv => bitAt kv.1) 256 0 (toKeyValues m order) := by
  unfold BitTrie.Separated toKeyValues
  rw [pairwise_map]
  refine (pairwise_map.mp (GoMap.nodup_entriesAt order)).imp ?_
  intro a b hne
  obtain ⟨j, hj, hbit⟩ := exists_bit_ne hne
  exact ⟨j, Nat.zero_le j, by omega, hbit⟩

variable {m} in
theorem mem_items_trieOf (order : GoMap.Traversal m.keys) {key value : List UInt8} :
    (key, value) ∈ (trieOf 256 0 (toKeyValues m order)).items ↔
      ∃ k : StateKey, k.toList = key ∧ m.lookup k = some value := by
  rw [trieOf, (BitTrie.items_build (toKeyValues_separated m order)).mem_iff, mem_toKeyValues]

end

theorem merklize_toKeyValues (m : GoMap StateKey (List UInt8)) (order order' : GoMap.Traversal m.keys)
    (hkeeps : Keeps storeNode P) (hfuel : 256 < fuel) {s : σ} (hs : P s) :
    ∃ s' result, merklize H storeNode fuel (toKeyValues m order) 0 s = .ret (s', result) ∧
      P s' ∧ Stores storeNode P (root H (trieOf 256 0 (toKeyValues m order'))) result := by
  have hsame : trieOf 256 0 (toKeyValues m order') = trieOf 256 0 (toKeyValues m order) :=
    BitTrie.build_perm (toKeyValues_perm m order' order)
  rw [hsame]
  exact merklize_trieOf hkeeps (toKeyValues_length m order) (toKeyValues_separated m order)
    (Nat.le_refl 256) hfuel hs

theorem merklize_none (m : GoMap StateKey (List UInt8)) (order order' : GoMap.Traversal m.keys)
    (hfuel : 256 < fuel) (s : σ) :
    merklize H (none : Option (StoreNode σ ε)) fuel (toKeyValues m order) 0 s =
      .ret (s, .ok (root H (trieOf 256 0 (toKeyValues m order')))) := by
  have hkeeps : Keeps (none : Option (StoreNode σ ε)) (· = s) := nofun
  obtain ⟨s', result, hrun, rfl, hstores⟩ := merklize_toKeyValues m order order' hkeeps hfuel rfl
  rcases hstores with rfl | ⟨store, hash, node, t, e, hstore, -⟩
  · exact hrun
  · cases hstore

theorem putNode_eq {b : Batch} (hopen : b.done = false) (hash : Hash) (node : Node) :
    putNode hash node b = ({ b with entries := b.entries ++ [(hash.toList, node.toList)] }, none) := by
  rw [putNode, Batch.put, hopen]
  rfl

theorem merklizeAndCommit_eq (m : GoMap StateKey (List UInt8))
    (order order' : GoMap.Traversal m.keys) (hfuel : 256 < fuel) (db : DB) :
    ∃ db', db.merklizeAndCommit H fuel (toKeyValues m order) =
        .ret (db', .ok (root H (trieOf 256 0 (toKeyValues m order')))) ∧
      db'.root = root H (trieOf 256 0 (toKeyValues m order')) := by
  have hkeeps : Keeps (some putNode) (fun b => b.done = false) := by
    rintro _ ⟨rfl⟩ hash node b hopen
    rw [putNode_eq hopen]
    exact hopen
  obtain ⟨batch, result, hrun, hopen, hstores⟩ :=
    merklize_toKeyValues m order order' hkeeps hfuel (s := Batch.new) rfl
  unfold DB.merklizeAndCommit
  rw [hrun, ret_bind]
  rcases hstores with rfl | ⟨store, hash, node, b, e, hstore, hb, he, -⟩
  · simp only [DB.commit, hopen]
    exact ⟨_, rfl, rfl⟩
  · cases hstore
    rw [putNode_eq hb] at he
    cases he

/-- The root does not depend on the order of the entries. -/
theorem merklize_well_defined (H : HashData) (m : GoMap StateKey (List UInt8)) :
    ∃ root : Hash, ∀ (order : GoMap.Traversal m.keys) (fuel : Nat), 256 < fuel →
      (∀ (σ ε : Type) (s : σ), merklize H (none : Option (StoreNode σ ε)) fuel
        (toKeyValues m order) 0 s = .ret (s, .ok root)) ∧
      (∀ (σ ε : Type) (storeNode : StoreNode σ ε) (s : σ), ∃ s' result,
        merklize H (some storeNode) fuel (toKeyValues m order) 0 s = .ret (s', result) ∧
        Stores (some storeNode) (fun _ => True) root result) ∧
      ∀ db : DB, ∃ db', db.merklizeAndCommit H fuel (toKeyValues m order) =
        .ret (db', .ok root) ∧ db'.root = root := by
  let order' := GoMap.Traversal.listed m.keys
  refine ⟨root H (trieOf 256 0 (toKeyValues m order')), ?_⟩
  intro order fuel hfuel
  refine ⟨fun σ ε s => merklize_none m order order' hfuel s, ?_,
    merklizeAndCommit_eq m order order' hfuel⟩
  intro σ ε storeNode s
  have hkeeps : Keeps (some storeNode) (fun _ => True) := fun _ _ _ _ _ _ => trivial
  obtain ⟨s', result, hrun, -, hstores⟩ :=
    merklize_toKeyValues m order order' hkeeps hfuel (s := s) trivial
  exact ⟨s', result, hrun, hstores⟩

end Strawberry.Trie
