import Mathlib.Data.Set.Function
import Strawberry.Merkle.Roots

/-!
# The root is binding

Equal roots come from equal tries, up to the last octet of the keys, which no node holds.
-/

namespace Strawberry.Trie

open List

variable {H : HashData}

theorem toArray_get_zero (octet : UInt8) (rest : List UInt8) :
    (toArray 64 (octet :: rest)).get 0 = octet := by
  change (toArray 64 (octet :: rest))[0] = octet
  simp [toArray]

theorem encodeBranchNode_inj {left right left' right' : Hash}
    (h : encodeBranchNode left right = encodeBranchNode left' right') :
    cleared left = cleared left' ∧ right = right' := by
  have hb := toArray_inj (by simp) (by simp) h
  obtain ⟨hleft, hright⟩ := append_inj hb (by simp)
  exact ⟨hleft, Vector.toList_inj.mp hright⟩

theorem isLeaf_encodeBranchNode (left right : Hash) :
    isLeaf (encodeBranchNode left right) = false := by
  have hall : ∀ n : Fin 256, (UInt8.ofNat n.val &&& 0b01111111) &&& leafNodeFlag = 0 := by
    decide +kernel
  have hbit := hall ⟨(left.get 0).toNat, UInt8.toNat_lt _⟩
  rw [UInt8.ofNat_toNat] at hbit
  rw [isLeaf, encodeBranchNode, cons_append, toArray_get_zero, hbit]
  rfl

theorem encodeLeafNode_eq (H : HashData) (key : StateKey) (value : List UInt8) :
    ∃ octet rest, encodeLeafNode H key value =
        toArray 64 (octet :: (key.toList.take 31 ++ rest)) ∧ rest.length ≤ 32 ∧
      ((value.length ≤ 32 ∧ octet = leafNodeFlag ||| UInt8.ofNat value.length ∧ rest = value) ∨
        (32 < value.length ∧ octet = leafNodeFlag ||| notEmbeddedLeafFlag ∧
          rest = (H value).toList)) := by
  unfold encodeLeafNode
  by_cases h : value.length ≤ embeddedValueMaxSize
  · rw [if_pos h]
    exact ⟨_, _, rfl, h, .inl ⟨h, rfl, rfl⟩⟩
  · rw [if_neg h]
    exact ⟨_, _, rfl, by simp, .inr ⟨Nat.not_le.mp h, rfl, rfl⟩⟩

theorem leafFlag_inj : ∀ m n : Fin 33,
    leafNodeFlag ||| UInt8.ofNat m.val = leafNodeFlag ||| UInt8.ofNat n.val → m = n := by
  decide +kernel

theorem leafFlag_ne : ∀ n : Fin 33,
    leafNodeFlag ||| UInt8.ofNat n.val ≠ leafNodeFlag ||| notEmbeddedLeafFlag := by
  decide +kernel

theorem isLeaf_encodeLeafNode (H : HashData) (key : StateKey) (value : List UInt8) :
    isLeaf (encodeLeafNode H key value) = true := by
  obtain ⟨octet, rest, hnode, -, hcases⟩ := encodeLeafNode_eq H key value
  rw [isLeaf, hnode, toArray_get_zero]
  rcases hcases with ⟨hle, rfl, -⟩ | ⟨-, rfl, -⟩
  · have hall : ∀ n : Fin 33, (leafNodeFlag ||| UInt8.ofNat n.val) &&& leafNodeFlag ≠ 0 := by
      decide +kernel
    exact decide_eq_true (hall ⟨value.length, by omega⟩)
  · decide

theorem encodeLeafNode_inj {key key' : StateKey} {value value' : List UInt8}
    (h : encodeLeafNode H key value = encodeLeafNode H key' value') :
    key.toList.take 31 = key'.toList.take 31 ∧
      (value = value' ∨ (32 < value.length ∧ 32 < value'.length ∧ H value = H value')) := by
  obtain ⟨octet, rest, hnode, hrest, hcases⟩ := encodeLeafNode_eq H key value
  obtain ⟨octet', rest', hnode', -, hcases'⟩ :=
    encodeLeafNode_eq H key' value'
  rw [hnode, hnode'] at h
  have hoctet : octet = octet' := by
    have hget := congrArg (fun n => n.get 0) h
    simpa only [toArray_get_zero] using hget
  have hkind : rest.length = rest'.length ∧ (rest = rest' → value = value' ∨
      (32 < value.length ∧ 32 < value'.length ∧ H value = H value')) := by
    rcases hcases with ⟨hle, hfirst, rfl⟩ | ⟨hlt, hfirst, rfl⟩ <;>
      rcases hcases' with ⟨hle', hfirst', rfl⟩ | ⟨hlt', hfirst', rfl⟩
    · have hlen := leafFlag_inj ⟨rest.length, by omega⟩ ⟨rest'.length, by omega⟩
        (hfirst.symm.trans (hoctet.trans hfirst'))
      exact ⟨Fin.mk.inj hlen, .inl⟩
    · exact absurd (hfirst.symm.trans (hoctet.trans hfirst')) (leafFlag_ne ⟨rest.length, by omega⟩)
    · exact absurd (hfirst'.symm.trans (hoctet.symm.trans hfirst))
        (leafFlag_ne ⟨rest'.length, by omega⟩)
    · exact ⟨by simp, fun heq => .inr ⟨hlt, hlt', Vector.toList_inj.mp heq⟩⟩
  have hb := toArray_inj (by simp [hkind.1]) (by simp; omega) h
  obtain ⟨hkey, hvalue⟩ := append_inj (List.cons.inj hb).2 (by simp)
  exact ⟨hkey, hkind.2 hvalue⟩

variable (H) in
def inputs : BitTrie KeyValue → List (List UInt8)
  | .empty => []
  | .leaf (key, value) =>
    (if value.length ≤ embeddedValueMaxSize then [] else [value]) ++
      [(encodeLeafNode H (toArray 32 key) value).toList]
  | .node left right =>
    inputs left ++ inputs right ++ [(encodeBranchNode (root H left) (root H right)).toList]

structure CollisionFree (H : HashData) (used : Set (List UInt8)) : Prop where
  injective : Set.InjOn H used
  injective_cleared : Set.InjOn (fun data => cleared (H data)) used
  ne_zero : ∀ data ∈ used, H data ≠ .replicate 32 0
  cleared_ne_zero : ∀ data ∈ used, cleared (H data) ≠ List.replicate 32 0

def short (kv : KeyValue) : KeyValue := (kv.1.take 31, kv.2)

theorem root_cases (H : HashData) (t : BitTrie KeyValue) :
    t = .empty ∨ ∃ data ∈ inputs H t, root H t = H data := by
  cases t with
  | empty => exact .inl rfl
  | leaf | node => exact .inr ⟨_, mem_append_right _ mem_cons_self, rfl⟩

theorem cleared_zero : cleared (.replicate 32 0) = List.replicate 32 0 := by decide

section

variable {used : Set (List UInt8)} (hfree : CollisionFree H used)
include hfree

theorem root_ne_zero {t : BitTrie KeyValue} (hused : ∀ data ∈ inputs H t, data ∈ used)
    (h : t ≠ .empty) :
    root H t ≠ .replicate 32 0 ∧ cleared (root H t) ≠ List.replicate 32 0 := by
  rcases root_cases H t with heq | ⟨data, hdata, hroot⟩
  · exact absurd heq h
  · rw [hroot]
    exact ⟨hfree.ne_zero data (hused data hdata), hfree.cleared_ne_zero data (hused data hdata)⟩

theorem root_of_cleared {t t' : BitTrie KeyValue} (hused : ∀ data ∈ inputs H t, data ∈ used)
    (hused' : ∀ data ∈ inputs H t', data ∈ used)
    (h : cleared (root H t) = cleared (root H t')) :
    root H t = root H t' := by
  rcases root_cases H t with rfl | ⟨data, hdata, hroot⟩
  · rcases root_cases H t' with rfl | ⟨data', hdata', hroot'⟩
    · rfl
    · rw [hroot', root, cleared_zero] at h
      exact absurd h.symm (hfree.cleared_ne_zero data' (hused' data' hdata'))
  · rcases root_cases H t' with rfl | ⟨data', hdata', hroot'⟩
    · rw [hroot, root, cleared_zero] at h
      exact absurd h (hfree.cleared_ne_zero data (hused data hdata))
    · rw [hroot, hroot'] at h ⊢
      rw [hfree.injective_cleared (hused data hdata) (hused' data' hdata') h]

theorem leaf_binding {kv kv' : KeyValue} (hlen : kv.1.length = 32) (hlen' : kv'.1.length = 32)
    (hused : ∀ data ∈ inputs H (.leaf kv), data ∈ used)
    (hused' : ∀ data ∈ inputs H (.leaf kv'), data ∈ used)
    (h : root H (.leaf kv) = root H (.leaf kv')) : short kv = short kv' := by
  obtain ⟨key, value⟩ := kv
  obtain ⟨key', value'⟩ := kv'
  have hnode := hfree.injective (hused _ (mem_append_right _ mem_cons_self))
    (hused' _ (mem_append_right _ mem_cons_self)) h
  obtain ⟨hkey, hvalue⟩ := encodeLeafNode_inj (Vector.toList_inj.mp hnode)
  rw [toList_toArray hlen, toList_toArray hlen'] at hkey
  refine Prod.ext hkey ?_
  rcases hvalue with heq | ⟨hlt, hlt', hhash⟩
  · exact heq
  · refine hfree.injective (hused value ?_) (hused' value' ?_) hhash
    · rw [inputs, embeddedValueMaxSize, if_neg (Nat.not_le.mpr hlt)]
      exact mem_cons_self
    · rw [inputs, embeddedValueMaxSize, if_neg (Nat.not_le.mpr hlt')]
      exact mem_cons_self

theorem trie_binding {t t' : BitTrie KeyValue} (hlen : ∀ kv ∈ t.items, kv.1.length = 32)
    (hlen' : ∀ kv ∈ t'.items, kv.1.length = 32)
    (hused : ∀ data ∈ inputs H t, data ∈ used)
    (hused' : ∀ data ∈ inputs H t', data ∈ used)
    (h : root H t = root H t') : t.map short = t'.map short := by
  induction t generalizing t' with
  | empty =>
    cases t' with
    | empty => rfl
    | leaf | node => exact absurd h.symm (root_ne_zero hfree hused' nofun).1
  | leaf kv =>
    cases t' with
    | empty => exact absurd h (root_ne_zero hfree hused nofun).1
    | leaf kv' =>
      have hshort := leaf_binding hfree (hlen kv (by simp [BitTrie.items]))
        (hlen' kv' (by simp [BitTrie.items])) hused hused' h
      rw [BitTrie.map, BitTrie.map, hshort]
    | node left right =>
      have hnode := Vector.toList_inj.mp (hfree.injective
        (hused _ (mem_append_right _ mem_cons_self))
        (hused' _ (mem_append_right _ mem_cons_self)) h)
      have hleaf := isLeaf_encodeLeafNode H (toArray 32 kv.1) kv.2
      rw [hnode, isLeaf_encodeBranchNode] at hleaf
      cases hleaf
  | node left right ihl ihr =>
    cases t' with
    | empty => exact absurd h (root_ne_zero hfree hused nofun).1
    | leaf kv =>
      have hnode := Vector.toList_inj.mp (hfree.injective
        (hused _ (mem_append_right _ mem_cons_self))
        (hused' _ (mem_append_right _ mem_cons_self)) h)
      have hleaf := isLeaf_encodeLeafNode H (toArray 32 kv.1) kv.2
      rw [← hnode, isLeaf_encodeBranchNode] at hleaf
      cases hleaf
    | node left' right' =>
      have hnode := Vector.toList_inj.mp (hfree.injective
        (hused _ (mem_append_right _ mem_cons_self))
        (hused' _ (mem_append_right _ mem_cons_self)) h)
      obtain ⟨hleft, hright⟩ := encodeBranchNode_inj hnode
      simp only [BitTrie.items, mem_append] at hlen hlen'
      simp only [inputs, mem_append] at hused hused'
      have hused_left := fun data hdata => hused data (.inl (.inl hdata))
      have hused_left' := fun data hdata => hused' data (.inl (.inl hdata))
      have hroot := root_of_cleared hfree hused_left hused_left' hleft
      rw [BitTrie.map, BitTrie.map,
        ihl (fun kv hkv => hlen kv (.inl hkv)) (fun kv hkv => hlen' kv (.inl hkv))
          hused_left hused_left' hroot,
        ihr (fun kv hkv => hlen kv (.inr hkv)) (fun kv hkv => hlen' kv (.inr hkv))
          (fun data hdata => hused data (.inl (.inr hdata)))
          (fun data hdata => hused' data (.inl (.inr hdata))) hright]

end

variable {m m' : GoMap StateKey (List UInt8)}

def shortPairs (m : GoMap StateKey (List UInt8)) : Set KeyValue :=
  {kv | ∃ k : StateKey, k.toList.take 31 = kv.1 ∧ m.lookup k = some kv.2}

theorem mem_map_short (order : GoMap.Traversal m.keys) (kv : KeyValue) :
    kv ∈ ((trieOf 256 0 (toKeyValues m order)).map short).items ↔ kv ∈ shortPairs m := by
  rw [BitTrie.items_map, mem_map]
  constructor
  · rintro ⟨⟨key, value⟩, hmem, rfl⟩
    obtain ⟨k, rfl, hlookup⟩ := (mem_items_trieOf order).mp hmem
    exact ⟨k, rfl, hlookup⟩
  · rintro ⟨k, hk, hlookup⟩
    exact ⟨(k.toList, kv.2), (mem_items_trieOf order).mpr ⟨k, rfl, hlookup⟩, Prod.ext hk rfl⟩

theorem length_of_mem_items (order : GoMap.Traversal m.keys) :
    ∀ kv ∈ (trieOf 256 0 (toKeyValues m order)).items, kv.1.length = 32 := by
  intro kv hkv
  obtain ⟨k, hk, -⟩ := (mem_items_trieOf order).mp hkv
  rw [← hk]
  exact k.length_toList

theorem root_of_merklize {order : GoMap.Traversal m.keys} {σ ε : Type}
    {storeNode : Option (StoreNode σ ε)} {fuel : Nat} (hfuel : 256 < fuel) {s s' : σ} {hash : Hash}
    (hrun : merklize H storeNode fuel (toKeyValues m order) 0 s = .ret (s', .ok hash)) :
    root H (trieOf 256 0 (toKeyValues m order)) = hash := by
  have hkeeps : Keeps storeNode (fun _ => True) := fun _ _ _ _ _ _ => trivial
  obtain ⟨s₁, result, hrun₁, -, hstores⟩ := merklize_toKeyValues m order order hkeeps hfuel trivial
  cases hrun₁.symm.trans hrun
  rcases hstores with heq | ⟨store, hash', node, t, e, -, -, -, heq⟩
  · exact (Except.ok.inj heq).symm
  · cases heq

/-- Equal roots come from equal maps. -/
theorem root_is_binding {order : GoMap.Traversal m.keys} {order' : GoMap.Traversal m'.keys}
    (hfree : CollisionFree H {data | data ∈ inputs H (trieOf 256 0 (toKeyValues m order)) ∨
        data ∈ inputs H (trieOf 256 0 (toKeyValues m' order'))})
    {σ ε : Type} {storeNode storeNode' : Option (StoreNode σ ε)} {fuel fuel' : Nat}
    (hfuel : 256 < fuel) (hfuel' : 256 < fuel') {s s' t t' : σ} {hash : Hash}
    (hrun : merklize H storeNode fuel (toKeyValues m order) 0 s = .ret (s', .ok hash))
    (hrun' : merklize H storeNode' fuel' (toKeyValues m' order') 0 t = .ret (t', .ok hash)) :
    shortPairs m = shortPairs m' := by
  have hroot := root_of_merklize hfuel hrun
  have hroot' := root_of_merklize hfuel' hrun'
  have htries := trie_binding hfree (length_of_mem_items order) (length_of_mem_items order')
    (fun _ => .inl) (fun _ => .inr) (hroot.trans hroot'.symm)
  ext kv
  rw [← mem_map_short order, ← mem_map_short order', htries]

def keyOf (first last : UInt8) : StateKey := toArray 32 (first :: List.replicate 30 0 ++ [last])

def twoEntries (last : UInt8) : GoMap StateKey (List UInt8) :=
  .assign ∅ [(keyOf 0 last, [7]), (keyOf 128 last, [8])]

theorem twoEntries_nodup (last : UInt8) : [keyOf 0 last, keyOf 128 last].Nodup := by
  have hne : keyOf 0 last ≠ keyOf 128 last := by
    intro h
    cases (List.cons.inj (toArray_inj (by simp) (by simp) h)).1
  simpa using hne

def twoOrder (last : UInt8) : GoMap.Traversal (twoEntries last).keys where
  keys := [keyOf 0 last, keyOf 128 last]
  nodup := twoEntries_nodup last
  mem_iff k := by
    rw [twoEntries, GoMap.keys_assign_empty]
    simp

theorem trieOf_twoEntries (last : UInt8) :
    trieOf 256 0 (toKeyValues (twoEntries last) (twoOrder last)) =
      .node (.leaf ((keyOf 0 last).toList, [7])) (.leaf ((keyOf 128 last).toList, [8])) := by
  have hpairs : (twoEntries last).entriesAt (twoOrder last).keys =
      [(keyOf 0 last, [7]), (keyOf 128 last, [8])] :=
    GoMap.entriesAt_assign (twoEntries_nodup last)
  have hbit : ∀ first, bitAt (keyOf first last).toList 0 = octetBit first 0 := by
    simp [bitAt, keyOf, toArray]
  have hleft : bitAt (keyOf 0 last).toList 0 = false := (hbit 0).trans (by decide)
  have hright : bitAt (keyOf 128 last).toList 0 = true := (hbit 128).trans (by decide)
  rw [toKeyValues, hpairs, trieOf]
  simp [BitTrie.build, hleft, hright]

def firstOctets : HashData := fun data => hashOf (1 :: data.take 31)

theorem encodeLeafNode_keyOf (first last : UInt8) (value : List UInt8) :
    encodeLeafNode firstOctets (toArray 32 (keyOf first last).toList) value =
      encodeLeafNode firstOctets (keyOf first 0) value := by
  have htake : ∀ last, (keyOf first last).toList.take 31 = first :: List.replicate 30 0 := by
    intro last
    rw [keyOf, toList_toArray (by simp)]
    exact take_left' (by simp)
  rw [toArray_toList]
  unfold encodeLeafNode
  rw [htake last, htake 0]

def leftLeaf : List UInt8 := (encodeLeafNode firstOctets (keyOf 0 0) [7]).toList

def rightLeaf : List UInt8 := (encodeLeafNode firstOctets (keyOf 128 0) [8]).toList

def twoBranch : List UInt8 :=
  (encodeBranchNode (firstOctets leftLeaf) (firstOctets rightLeaf)).toList

theorem root_twoEntries (last : UInt8) :
    root firstOctets (trieOf 256 0 (toKeyValues (twoEntries last) (twoOrder last))) =
      firstOctets twoBranch := by
  rw [trieOf_twoEntries]
  simp only [root, encodeLeafNode_keyOf]
  rfl

theorem inputs_twoEntries (last : UInt8) :
    inputs firstOctets (trieOf 256 0 (toKeyValues (twoEntries last) (twoOrder last))) =
      [leftLeaf, rightLeaf, twoBranch] := by
  rw [trieOf_twoEntries]
  simp only [inputs, root, encodeLeafNode_keyOf]
  rfl

theorem firstOctets_free :
    CollisionFree firstOctets {data | data ∈ [leftLeaf, rightLeaf, twoBranch]} where
  injective := by
    refine inj_on_of_nodup_map ?_
    decide +kernel
  injective_cleared := by
    refine inj_on_of_nodup_map ?_
    decide +kernel
  ne_zero := by
    refine forall_iff_forall_mem.mp ?_
    decide +kernel
  cleared_ne_zero := by
    refine forall_iff_forall_mem.mp ?_
    decide +kernel

theorem twoEntries_binding : shortPairs (twoEntries 0) = shortPairs (twoEntries 1) := by
  have hrun : ∀ last, merklize firstOctets (none : Option (StoreNode Unit Empty)) 257
      (toKeyValues (twoEntries last) (twoOrder last)) 0 () = .ret ((), .ok (firstOctets twoBranch)) := by
    intro last
    rw [merklize_none (twoEntries last) (twoOrder last) (twoOrder last) (by decide) (),
      root_twoEntries]
  refine root_is_binding ?_ (by decide) (by decide) (hrun 0) (hrun 1)
  rw [inputs_twoEntries, inputs_twoEntries]
  simpa only [or_self] using firstOctets_free

theorem toList_toArray_of_le {n : Nat} {bytes : List UInt8} (h : bytes.length ≤ n) :
    (toArray n bytes).toList = bytes ++ .replicate (n - bytes.length) 0 := by
  have hb : toArray n bytes = toArray n (bytes ++ .replicate (n - bytes.length) 0) := by
    apply Vector.ext
    intro i hi
    by_cases hlt : i < bytes.length
    · simp [toArray, List.getElem?_append, hlt]
    · have hroom : i - bytes.length < n - bytes.length := by omega
      simp [toArray, List.getElem?_append, hlt, hroom]
  rw [hb, toList_toArray]
  rw [length_append, length_replicate]
  omega

theorem append_singleton_eq_cons {α : Type} {a c : α} {l : List α} :
    l ++ [a] = c :: l ↔ c = a ∧ ∀ b ∈ l, b = a := by
  induction l generalizing c with
  | nil => simp [eq_comm]
  | cons b l ih =>
    rw [cons_append, List.cons.injEq, ih, forall_mem_cons]
    constructor
    · rintro ⟨rfl, rfl, hl⟩
      exact ⟨rfl, rfl, hl⟩
    · rintro ⟨rfl, rfl, hl⟩
      exact ⟨rfl, rfl, hl⟩

theorem isBranch_eq (n : Node) : isBranch n = !isLeaf n := by
  simp [isBranch, isLeaf]

section

variable (left right : Hash)

theorem getBranchHashes_encode : getBranchHashes (encodeBranchNode left right) =
    .ok (toArray 32 (left.toList.drop 1), right) := by
  have hnode : (encodeBranchNode left right).toList = cleared left ++ right.toList :=
    toList_toArray (by simp)
  have hleft : (((cleared left) ++ right.toList).drop 1).take 31 = left.toList.drop 1 := by
    rw [cleared, cons_append, drop_one, tail_cons, take_left' (by simp)]
  have hright : ((cleared left) ++ right.toList).drop 32 = right.toList :=
    drop_left' (by simp [cleared])
  rw [getBranchHashes, isBranch_eq, isLeaf_encodeBranchNode, hnode, hleft, hright, toArray_toList]
  rfl

theorem getBranchHashes_encode_iff : getBranchHashes (encodeBranchNode left right) =
    .ok (toArray 32 (cleared left), right) ↔ ∀ octet ∈ cleared left, octet = 0 := by
  have hmoved : (toArray 32 (left.toList.drop 1)).toList = left.toList.drop 1 ++ [0] := by
    rw [toList_toArray_of_le (by simp)]
    simp
  rw [getBranchHashes_encode, Except.ok.injEq, Prod.mk.injEq, and_iff_left rfl, ← Vector.toList_inj,
    hmoved, toList_toArray (by simp [cleared]), cleared, append_singleton_eq_cons,
    forall_mem_cons]

end

theorem embedded_octet : ∀ n : Fin 33,
    (leafNodeFlag ||| UInt8.ofNat n.val) &&& notEmbeddedLeafFlag = 0 ∧
      ((leafNodeFlag ||| UInt8.ofNat n.val) &&& valueSizeMask).toNat = n := by
  decide +kernel

structure LeafParts (n : Node) (octet : UInt8) (key : StateKey) (rest : List UInt8) : Prop where
  isLeaf : isLeaf n = true
  octet : n.get 0 = octet
  key : (n.toList.drop 1).take 31 = key.toList.take 31
  rest : n.toList.drop 32 = rest ++ .replicate (32 - rest.length) 0

section

variable (H : HashData) (key : StateKey) (value : List UInt8)

theorem leafParts_encode : ∃ octet rest, LeafParts (encodeLeafNode H key value) octet key rest ∧
    ((value.length ≤ 32 ∧ octet = leafNodeFlag ||| UInt8.ofNat value.length ∧ rest = value) ∨
      (32 < value.length ∧ octet = leafNodeFlag ||| notEmbeddedLeafFlag ∧
        rest = (H value).toList)) := by
  obtain ⟨octet, rest, hnode, hrest, hcases⟩ := encodeLeafNode_eq H key value
  have htake : (key.toList.take 31).length = 31 := by simp
  have hlist : (toArray 64 (octet :: (key.toList.take 31 ++ rest))).toList = _ :=
    toList_toArray_of_le (by simp; omega)
  rw [← hnode, cons_append, append_assoc, length_cons, length_append, htake] at hlist
  refine ⟨octet, rest, ⟨isLeaf_encodeLeafNode H key value, ?_, ?_, ?_⟩, hcases⟩
  · rw [hnode, toArray_get_zero]
  · rw [hlist, drop_succ_cons, drop_zero, take_left' htake]
  · rw [hlist, drop_succ_cons, drop_left' htake]
    congr 2
    omega

theorem getLeafKey_encode :
    getLeafKey (encodeLeafNode H key value) = .ok (toArray 32 (key.toList.take 31)) := by
  obtain ⟨octet, rest, hparts, -⟩ := leafParts_encode H key value
  rw [getLeafKey, hparts.isLeaf, hparts.key]
  rfl

theorem getLeafValue_encode (h : value.length ≤ 32) :
    getLeafValue (encodeLeafNode H key value) = .ok value := by
  obtain ⟨octet, rest, hparts, ⟨-, rfl, rfl⟩ | ⟨hlong, -⟩⟩ := leafParts_encode H key value
  · obtain ⟨hflag, hsize⟩ := embedded_octet ⟨rest.length, by omega⟩
    have hembedded : isEmbeddedLeaf (encodeLeafNode H key rest) = true := by
      rw [isEmbeddedLeaf, hparts.isLeaf, hparts.octet, hflag]
      rfl
    have hvalue : sliceOf (encodeLeafNode H key rest).toList 32 (32 + rest.length) =
        .ret rest := by
      rw [sliceOf_of_le (by omega) (by simp; omega), hparts.rest, Nat.add_sub_cancel_left,
        take_left]
    rw [getLeafValue, getEmbeddedValueSize, hembedded, hparts.octet, hsize]
    exact Call.lift_outcome_eq_ok.mpr hvalue
  · omega

theorem getLeafValueHash_encode (h : 32 < value.length) :
    getLeafValueHash (encodeLeafNode H key value) = .ok (H value) := by
  obtain ⟨octet, rest, hparts, ⟨hshort, -⟩ | ⟨-, rfl, rfl⟩⟩ := leafParts_encode H key value
  · omega
  · have hembedded : isEmbeddedLeaf (encodeLeafNode H key value) = false := by
      rw [isEmbeddedLeaf, hparts.isLeaf, hparts.octet]
      decide
    have hhash : (encodeLeafNode H key value).toList.drop 32 = (H value).toList := by
      rw [hparts.rest]
      simp
    rw [getLeafValueHash, hparts.isLeaf, hembedded, hhash, toArray_toList]
    rfl

end

section

variable {n : Node}

theorem isLeaf_of_getLeafKey {key : StateKey} (h : getLeafKey n = .ok key) : isLeaf n = true :=
  check_eq_ok.mp (bind_unit_eq_ok.mp h).1

theorem isEmbeddedLeaf_of_getLeafValue {value : List UInt8} (h : getLeafValue n = .ok value) :
    isEmbeddedLeaf n = true := by
  obtain ⟨size, hsize, -⟩ := Call.bind_eq_ok.mp h
  exact check_eq_ok.mp (bind_unit_eq_ok.mp (Call.lift_except_eq_ok.mp hsize)).1

theorem isLeaf_of_getLeafValueHash {hash : Hash} (h : getLeafValueHash n = .ok hash) :
    isLeaf n = true ∧ isEmbeddedLeaf n = false := by
  obtain ⟨hleaf, h⟩ := bind_unit_eq_ok.mp h
  have hregular := check_eq_ok.mp (bind_unit_eq_ok.mp h).1
  exact ⟨check_eq_ok.mp hleaf, by simpa using hregular⟩

end

/-- When the accessors invert the encoders. -/
theorem node_accessors_iff (H : HashData) :
    (∀ left right, getBranchHashes (encodeBranchNode left right) =
      .ok (toArray 32 (cleared left), right) ↔ ∀ octet ∈ cleared left, octet = 0) ∧
    (∀ key value, getLeafKey (encodeLeafNode H key value) = .ok (toArray 32 (key.toList.take 31)) ∧
      (value.length ≤ 32 → getLeafValue (encodeLeafNode H key value) = .ok value) ∧
      (32 < value.length → getLeafValueHash (encodeLeafNode H key value) = .ok (H value))) ∧
    (∀ n hashes, getBranchHashes n = .ok hashes → (∀ key, getLeafKey n ≠ .ok key) ∧
      (∀ value, getLeafValue n ≠ .ok value) ∧ ∀ hash, getLeafValueHash n ≠ .ok hash) ∧
    (∀ n value hash, getLeafValue n = .ok value → getLeafValueHash n ≠ .ok hash) := by
  refine ⟨getBranchHashes_encode_iff, fun key value => ⟨getLeafKey_encode H key value,
    getLeafValue_encode H key value, getLeafValueHash_encode H key value⟩, ?_, ?_⟩
  · intro n hashes h
    have hbranch := check_eq_ok.mp (bind_unit_eq_ok.mp h).1
    rw [isBranch_eq, Bool.not_eq_true'] at hbranch
    refine ⟨fun key hkey => ?_, fun value hvalue => ?_, fun hash hhash => ?_⟩
    · rw [isLeaf_of_getLeafKey hkey] at hbranch
      cases hbranch
    · have hembedded := isEmbeddedLeaf_of_getLeafValue hvalue
      rw [isEmbeddedLeaf, hbranch] at hembedded
      cases hembedded
    · rw [(isLeaf_of_getLeafValueHash hhash).1] at hbranch
      cases hbranch
  · intro n value hash hvalue hhash
    have hregular := (isLeaf_of_getLeafValueHash hhash).2
    rw [isEmbeddedLeaf_of_getLeafValue hvalue] at hregular
    cases hregular

theorem left_hash_moved : getBranchHashes (encodeBranchNode (toArray 32 [0, 1]) (.replicate 32 0)) ≠
      .ok (toArray 32 (cleared (toArray 32 [0, 1])), .replicate 32 0) := by
  intro h
  have hzero := (getBranchHashes_encode_iff _ _).mp h 1 (by decide)
  cases hzero

end Strawberry.Trie
