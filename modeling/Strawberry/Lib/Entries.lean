import Strawberry.Lib.Maps

/-!
# Maps as lists of entries

Writing a map out and filling it again are inverse to each other.
-/

namespace Strawberry.GoMap

open List Finmap

variable {K V : Type} [DecidableEq K]

def entriesAt (m : GoMap K V) (keys : List K) : List (K × V) :=
  keys.filterMap fun k => (m.lookup k).map (k, ·)

def assign (m : GoMap K V) (entries : List (K × V)) : GoMap K V :=
  entries.foldl (fun m e => m.insert e.1 e.2) m

variable {m : GoMap K V} {keys : List K} {entries : List (K × V)} {k : K} {v : V}

theorem mem_entriesAt : (k, v) ∈ m.entriesAt keys ↔ k ∈ keys ∧ m.lookup k = some v := by
  unfold entriesAt
  rw [mem_filterMap]
  constructor
  · rintro ⟨k', hk', h⟩
    rw [Option.map_eq_some_iff] at h
    obtain ⟨v', hv', heq⟩ := h
    cases heq
    exact ⟨hk', hv'⟩
  · rintro ⟨hk, hv⟩
    exact ⟨k, hk, by rw [hv, Option.map_some]⟩

theorem map_fst_entriesAt (h : ∀ k ∈ keys, k ∈ m) : (m.entriesAt keys).map Prod.fst = keys := by
  induction keys with
  | nil => rfl
  | cons k keys ih =>
    rw [forall_mem_cons] at h
    obtain ⟨v, hv⟩ := mem_iff.mp h.1
    have hcons : m.entriesAt (k :: keys) = (k, v) :: m.entriesAt keys := by
      rw [entriesAt, filterMap_cons, hv]
      rfl
    rw [hcons, map_cons, ih h.2]

omit [DecidableEq K] in
theorem Traversal.mem (order : Traversal m.keys) (k : K) (hk : k ∈ order.keys) : k ∈ m :=
  Finmap.mem_keys.mp ((order.mem_iff k).mp hk)

theorem lookup_assign_of_notMem (h : k ∉ entries.map Prod.fst) :
    (m.assign entries).lookup k = m.lookup k := by
  induction entries generalizing m with
  | nil => rfl
  | cons e entries ih =>
    rw [map_cons, mem_cons, not_or] at h
    rw [assign, foldl_cons]
    exact (ih h.2).trans (lookup_insert_of_ne _ h.1)

theorem lookup_assign :
    (m.assign entries).lookup k = (entries.reverse.lookup k).or (m.lookup k) := by
  induction entries generalizing m with
  | nil => rfl
  | cons e entries ih =>
    have hfirst : (m.insert e.1 e.2).lookup k = ([e].lookup k).or (m.lookup k) := by
      rw [lookup_cons, lookup_nil]
      by_cases hk : k = e.1
      · rw [hk, lookup_insert, beq_self_eq_true]
        rfl
      · rw [lookup_insert_of_ne _ hk, beq_false_of_ne hk]
        rfl
    rw [reverse_cons, lookup_append, Option.or_assoc, ← hfirst]
    exact ih

theorem assign_eq_self_iff :
    m.assign entries = m ↔ ∀ k v, entries.reverse.lookup k = some v → m.lookup k = some v := by
  constructor
  · intro h k v hv
    rw [← h, lookup_assign, hv]
    rfl
  · intro h
    apply Finmap.ext_lookup
    intro k
    rw [lookup_assign]
    cases hv : entries.reverse.lookup k with
    | none => rfl
    | some v => exact (h k v hv).symm

theorem assign_eq_assign_empty_iff :
    m.assign entries = assign ∅ entries ↔ ∀ k ∈ m, k ∈ entries.map Prod.fst := by
  constructor
  · intro h k hk
    by_contra hnot
    have hget := congrArg (Finmap.lookup k) h
    rw [lookup_assign_of_notMem hnot, lookup_assign_of_notMem hnot, lookup_empty,
      lookup_eq_none] at hget
    exact hget hk
  · intro h
    apply Finmap.ext_lookup
    intro k
    rw [lookup_assign, lookup_assign]
    cases hv : entries.reverse.lookup k with
    | some v => rfl
    | none =>
      have hk : k ∉ m := by
        intro hk
        obtain ⟨e, he, rfl⟩ := mem_map.mp (h k hk)
        exact bne_iff_ne.mp (lookup_eq_none_iff.mp hv e (mem_reverse.mpr he)) rfl
      rw [lookup_eq_none.mpr hk, lookup_empty]

theorem lookup_assign_of_mem (hnodup : (entries.map Prod.fst).Nodup) (h : (k, v) ∈ entries) :
    (m.assign entries).lookup k = some v := by
  induction entries generalizing m with
  | nil => cases h
  | cons e entries ih =>
    rw [map_cons, nodup_cons] at hnodup
    rw [assign, foldl_cons]
    rcases mem_cons.mp h with rfl | h
    · exact (lookup_assign_of_notMem hnodup.1).trans (lookup_insert _)
    · exact ih hnodup.2 h

theorem lookup_assign_empty (hnodup : (entries.map Prod.fst).Nodup) :
    (assign ∅ entries).lookup k = some v ↔ (k, v) ∈ entries := by
  constructor
  · intro h
    rcases lookup_foldl_insert h with h | ⟨e, he, rfl, rfl⟩
    · cases h
    · exact he
  · exact lookup_assign_of_mem hnodup

theorem keys_assign_empty : (assign ∅ entries : GoMap K V).keys = (entries.map Prod.fst).toFinset := by
  ext k
  rw [Finmap.mem_keys, mem_toFinset]
  constructor
  · intro h
    by_contra hk
    rw [← lookup_isSome, lookup_assign_of_notMem hk] at h
    cases h
  · intro h
    induction entries using List.reverseRecOn with
    | nil => cases h
    | append_singleton entries e ih =>
      rw [assign, foldl_append, foldl_cons, foldl_nil, mem_insert]
      rw [map_append, mem_append] at h
      rcases h with h | h
      · exact .inr (ih h)
      · exact .inl (by simpa using h)

theorem len_assign_empty_le : (assign ∅ entries : GoMap K V).len ≤ entries.length := by
  rw [len, keys_assign_empty, ← length_map Prod.fst]
  exact toFinset_card_le _

theorem nodup_entriesAt (order : Traversal m.keys) :
    ((m.entriesAt order.keys).map Prod.fst).Nodup := by
  rw [map_fst_entriesAt order.mem]
  exact order.nodup

theorem assign_entriesAt (order : Traversal m.keys) : assign ∅ (m.entriesAt order.keys) = m := by
  apply Finmap.ext_lookup
  intro k
  ext v
  rw [lookup_assign_empty (nodup_entriesAt order), mem_entriesAt, order.mem_iff, Finmap.mem_keys]
  constructor
  · exact And.right
  · intro h
    exact ⟨mem_iff.mpr ⟨v, h⟩, h⟩

theorem entriesAt_assign (hnodup : (entries.map Prod.fst).Nodup) :
    (assign ∅ entries).entriesAt (entries.map Prod.fst) = entries := by
  have hget : ∀ e ∈ entries, (assign ∅ entries).lookup e.1 = some e.2 := by
    intro e he
    exact lookup_assign_of_mem hnodup he
  generalize assign ∅ entries = m at hget
  clear hnodup
  induction entries with
  | nil => rfl
  | cons e entries ih =>
    rw [forall_mem_cons] at hget
    rw [map_cons, entriesAt, filterMap_cons, hget.1]
    exact congrArg (e :: ·) (ih hget.2)

theorem length_entriesAt (order : Traversal m.keys) : (m.entriesAt order.keys).length = m.len := by
  have hkeys : order.keys.toFinset = m.keys := by
    ext k
    rw [mem_toFinset, order.mem_iff]
  rw [← length_map Prod.fst, map_fst_entriesAt order.mem, ← toFinset_card_of_nodup order.nodup,
    hkeys, len]

omit [DecidableEq K] in
def ofSet (s : Finset K) : GoMap K Unit where
  entries := s.val.map fun k => ⟨k, ()⟩
  nodupKeys := by
    rw [← Multiset.nodup_keys, Multiset.keys, Multiset.map_map]
    simpa using s.nodup

def setEquiv : Finset K ≃ GoMap K Unit where
  toFun := ofSet
  invFun := Finmap.keys
  left_inv s := by
    ext k
    simp [Finmap.mem_keys, Finmap.mem_def, ofSet, Multiset.keys]
  right_inv m := by
    apply Finmap.ext_lookup
    intro k
    ext u
    rw [← Option.mem_def, ← Option.mem_def, mem_lookup_iff, mem_lookup_iff]
    simp [ofSet, Finmap.keys, Multiset.keys]

section

variable {rank : K → Nat} {unrank : Nat → K} (hrank : Function.LeftInverse unrank rank)
include hrank

theorem Traversal.sorted_toFinset {l : List K} (h : l.Pairwise fun a b => rank a < rank b) :
    (Traversal.sorted rank unrank hrank l.toFinset).keys = l := by
  have himage : l.toFinset.image rank = (l.map rank).toFinset := by
    ext n
    simp
  have hincreasing : (l.map rank).Pairwise (· < ·) := pairwise_map.mpr h
  have hsort : (l.map rank).toFinset.sort = l.map rank :=
    (toFinset_sort _ (hincreasing.imp Nat.ne_of_lt)).mpr (hincreasing.imp Nat.le_of_lt)
  change ((l.toFinset.image rank).sort).map unrank = l
  rw [himage, hsort, map_map, hrank.comp_eq_id, map_id]

omit [DecidableEq K] in
theorem Traversal.sorted_increasing (s : Finset K) :
    (Traversal.sorted rank unrank hrank s).keys.Pairwise fun a b => rank a < rank b := by
  change ((s.image rank).sort.map unrank).Pairwise _
  rw [pairwise_map]
  refine List.Pairwise.imp_of_mem ?_ (Finset.sortedLT_sort (s.image rank)).pairwise
  intro a b ha hb hab
  simp only [Finset.mem_sort, Finset.mem_image] at ha hb
  obtain ⟨a, -, rfl⟩ := ha
  obtain ⟨b, -, rfl⟩ := hb
  rwa [hrank a, hrank b]

end

end Strawberry.GoMap
