import Strawberry.ErasureCoding

/-!
# The coder of one chunk

`Chunk`, `Encode` and `Decode` on shards of one size, given what the library restores.
-/

namespace Strawberry.ErasureCoding

open List

def erased (keep : Nat → Bool) (shards : List Shard) : List Shard :=
  shards.zipIdx.map fun p => if keep p.2 then p.1 else []

def indexed (keep : Nat → Bool) (shards : List Shard) : List (Nat × Shard) :=
  (shards.zipIdx.filter fun p => keep p.2).map Prod.swap

def ReedSolomonSimd.Recovers (simd : ReedSolomonSimd) (recoveryCount size : Nat)
    (original : List Shard) : Prop :=
  ∃ recovery, simd.encode original.length recoveryCount original = some recovery ∧
    recovery.length = recoveryCount ∧ (∀ shard ∈ recovery, shard.length = size) ∧
    ∀ keep : Nat → Bool,
      original.length ≤ (List.range (original.length + recoveryCount)).countP keep →
      ∃ restored, simd.decode original.length recoveryCount (indexed keep original)
          (indexed (fun i => keep (original.length + i)) recovery) = some restored ∧
        restored.Perm (indexed (fun i => !keep i) original)

variable {keep : Nat → Bool} {shards : List Shard} {size : Nat}

@[simp] theorem length_erased : (erased keep shards).length = shards.length := by
  simp [erased]

theorem getElem?_erased (i : Nat) :
    (erased keep shards)[i]? = shards[i]?.map fun shard => if keep i then shard else [] := by
  unfold erased
  rw [List.getElem?_map, List.getElem?_zipIdx, Option.map_map, Nat.zero_add]
  rfl

theorem erased_append (shards' : List Shard) : erased keep (shards ++ shards') =
      erased keep shards ++ erased (fun i => keep (shards.length + i)) shards' := by
  apply ext_getElem?
  intro i
  rw [getElem?_erased]
  rcases Nat.lt_or_ge i shards.length with hlt | hge
  · rw [List.getElem?_append_left hlt, List.getElem?_append_left (by simpa using hlt),
      getElem?_erased]
  · rw [List.getElem?_append_right hge, List.getElem?_append_right (by simpa using hge),
      getElem?_erased, length_erased, Nat.add_sub_cancel' hge]

theorem mem_indexed {p : Nat × Shard} :
    p ∈ indexed keep shards ↔ shards[p.1]? = some p.2 ∧ keep p.1 = true := by
  unfold indexed
  rw [mem_map]
  constructor
  · rintro ⟨q, hq, rfl⟩
    rw [mem_filter] at hq
    exact ⟨by simpa using mem_zipIdx_iff_getElem?.mp hq.1, hq.2⟩
  · rintro ⟨hget, hkeep⟩
    refine ⟨p.swap, ?_, p.swap_swap⟩
    rw [mem_filter]
    exact ⟨mem_zipIdx_iff_getElem?.mpr hget, hkeep⟩

theorem length_indexed : (indexed keep shards).length = (List.range shards.length).countP keep := by
  unfold indexed
  rw [length_map, ← countP_eq_length_filter, range_eq_range', ← zipIdx_map_snd 0 shards, countP_map]
  rfl

theorem zipIdx_erased : (erased keep shards).zipIdx =
      shards.zipIdx.map fun p => (if keep p.2 then p.1 else [], p.2) := by
  apply ext_getElem?
  intro i
  rw [List.getElem?_zipIdx, getElem?_erased, List.getElem?_map, List.getElem?_zipIdx,
    Option.map_map, Option.map_map, Nat.zero_add]
  rfl

section

variable (hsize : ∀ shard ∈ shards, shard.length = size) (hpos : size ≠ 0)

include hsize in
theorem length_indexed_shards :
    ∀ shard ∈ (indexed keep shards).map Prod.snd, shard.length = size := by
  intro shard hshard
  obtain ⟨p, hp, rfl⟩ := mem_map.mp hshard
  exact hsize p.2 (mem_of_getElem? (mem_indexed.mp hp).1)

include hsize hpos

theorem shardCount_erased :
    shardCount (erased keep shards) = (List.range shards.length).countP keep := by
  unfold shardCount erased
  rw [countP_map, range_eq_range', ← zipIdx_map_snd 0 shards, countP_map]
  refine countP_congr ?_
  rintro ⟨shard, i⟩ hmem
  have hne : shard ≠ [] := by
    rintro rfl
    exact hpos (hsize [] (fst_mem_of_mem_zipIdx hmem)).symm
  cases hkeep : keep i with
  | true => simp [hkeep, hne]
  | false => simp [hkeep]

theorem shardCount_eq : shardCount shards = shards.length := by
  unfold shardCount
  rw [countP_eq_length]
  intro shard hshard
  simp [hsize shard hshard, hpos]

theorem collect_erased : Encoder.collect size (erased keep shards) =
      .ok (((indexed keep shards).map Prod.snd).flatten, (indexed keep shards).map Prod.fst) := by
  have hfold : ∀ (ps : List (Shard × Nat)) (flat : List UInt8 × List Nat),
      ps.foldl (fun flat p => if keep p.2 then (flat.1 ++ p.1, flat.2 ++ [p.2]) else flat) flat =
        (flat.1 ++ ((ps.filter fun p => keep p.2).map Prod.fst).flatten,
          flat.2 ++ (ps.filter fun p => keep p.2).map Prod.snd) := by
    intro ps
    induction ps with
    | nil =>
      simp
    | cons p ps ih =>
      intro flat
      rw [foldl_cons, ih, filter_cons]
      cases keep p.2 <;> simp
  unfold Encoder.collect
  rw [zipIdx_erased, foldlM_map, foldlM_eq_pure (P := fun _ => True)
      (g := fun flat p => if keep p.2 then (flat.1 ++ p.1, flat.2 ++ [p.2]) else flat) trivial, hfold]
  · simp [indexed, Function.comp_def, pure, Except.pure]
  · rintro ⟨shard, i⟩ hmem flat -
    have hlen := hsize shard (fst_mem_of_mem_zipIdx hmem)
    cases hkeep : keep i with
    | true => simp [hlen, hpos, check, pure, Except.pure, bind, Except.bind]
    | false => simp

end

theorem shardSize_eq (h : ∀ shard ∈ shards, shard.length = 0 ∨ shard.length = size)
    (hsome : 0 < shardCount shards) : shardSize shards = size := by
  induction shards with
  | nil => cases hsome
  | cons shard shards ih =>
    rw [forall_mem_cons] at h
    unfold shardSize
    split
    · next hne => exact h.1.resolve_left hne
    · next heq =>
      refine ih h.2 ?_
      unfold shardCount at hsome ⊢
      rwa [countP_cons_of_neg (by simpa using heq)] at hsome

theorem shardSize_erased (hsize : ∀ shard ∈ shards, shard.length = size)
    (hsome : 0 < shardCount (erased keep shards)) : shardSize (erased keep shards) = size := by
  refine shardSize_eq ?_ hsome
  intro shard hshard
  obtain ⟨⟨shard', i⟩, hmem, rfl⟩ := mem_map.mp hshard
  cases hkeep : keep i with
  | true => simp [hsize shard' (fst_mem_of_mem_zipIdx hmem)]
  | false => simp

theorem copyShards_eq {out : List UInt8} (hsize : ∀ shard ∈ shards, shard.length = size)
    (hout : out.length = shards.length * size) :
    copyShards out size shards = .ret shards.flatten := by
  unfold copyShards
  rw [foldlM_eq_pure (P := fun out => out.length = shards.length * size)
    (g := fun out p => copyAt out (p.2 * size) p.1) hout]
  · rw [← nil_append out, foldl_copyAt hsize (by simp) hout]
    rfl
  · rintro ⟨shard, i⟩ hmem out hout
    have hlen := hsize shard (fst_mem_of_mem_zipIdx hmem)
    have hi : (i + 1) * size ≤ shards.length * size :=
      Nat.mul_le_mul_right _ (by simpa [Nat.succ_le_iff] using snd_lt_of_mem_zipIdx hmem)
    rw [Nat.succ_mul, ← hout] at hi
    rw [if_pos ⟨hlen, hi⟩, length_copyAt (by rw [hlen]; exact hi)]
    exact ⟨rfl, hout⟩

theorem Encoder.flatten_eq (r : Encoder) (hsize : ∀ shard ∈ shards, shard.length = size)
    (hlen : shards.length = r.originalShardsCount) :
    r.flatten size shards = .ok shards.flatten := by
  unfold Encoder.flatten
  rw [foldlM_eq_pure (P := fun _ => True) (g := fun out p => copyAt out (p.2 * size) p.1) trivial]
  · rw [← nil_append (List.replicate _ _), foldl_copyAt hsize (by simp) (by simp [hlen])]
    rfl
  · rintro ⟨shard, i⟩ hmem flat -
    have hlen := hsize shard (fst_mem_of_mem_zipIdx hmem)
    rw [check, if_pos (by simpa using hlen)]
    exact ⟨rfl, trivial⟩

theorem chunks_flatten (hsize : ∀ shard ∈ shards, shard.length = size) (hpos : size ≠ 0) :
    chunks size shards.flatten = shards := by
  unfold chunks
  rw [length_flatten_of_forall hsize, Nat.mul_div_cancel _ (Nat.pos_of_ne_zero hpos),
    rowsOf_flatten hsize]

theorem le_mul_ceil {n : Nat} (hn : n ≠ 0) (length : Nat) :
    length ≤ n * ((length + n - 1) / n) := by
  have hmod := Nat.mod_lt (length + n - 1) (Nat.pos_of_ne_zero hn)
  have hdiv := Nat.div_add_mod (length + n - 1) n
  omega

theorem Encoder.chunk_eq_padded {r : Encoder} {data : List UInt8}
    (hcount : r.originalShardsCount ≠ 0)
    (hshard : (data.length + r.originalShardsCount - 1) / r.originalShardsCount = size)
    (hmax : data.length ≤ maxWorkPackageSize) (htwo : r.originalShardsCount * 2 ≤ data.length)
    (hroom : (r.originalShardsCount - 1) * size ≤ data.length) :
    r.chunk data = .ok (rowsOf size r.originalShardsCount
      (data ++ .replicate (r.originalShardsCount * size - data.length) 0) ++
        .replicate r.recoveryShardsCount []) := by
  obtain ⟨count, hsucc⟩ := Nat.exists_eq_succ_of_ne_zero hcount
  have hceil : data.length ≤ count * size + size := by
    rw [← Nat.succ_mul, ← hsucc, ← hshard]
    exact le_mul_ceil hcount _
  rw [hsucc, Nat.succ_sub_one] at hroom
  have hfull : ∀ i ∈ List.range (r.originalShardsCount - 1),
      (liftM (sliceOf data (i * size) (i * size + size)) : Call CodingError Shard) =
        pure (((data ++ .replicate (r.originalShardsCount * size - data.length) 0).drop
          (i * size)).take size) := by
    intro i hi
    rw [hsucc, Nat.succ_sub_one, mem_range] at hi
    have hle : (i + 1) * size ≤ count * size := Nat.mul_le_mul_right _ hi
    rw [Nat.succ_mul] at hle
    rw [sliceOf_of_le (Nat.le_add_right _ _) (by omega), Nat.add_sub_cancel_left,
      drop_append_of_le_length (by omega),
      take_append_of_le_length (by rw [length_drop]; omega)]
    rfl
  have hpadded : copyAt (List.replicate size 0) 0
      ((data.drop (count * size)).take (data.length - count * size)) =
        ((data ++ .replicate (r.originalShardsCount * size - data.length) 0).drop
          (count * size)).take size := by
    have hlast : (data.drop (count * size)).length = data.length - count * size := by simp
    have hrest : size - (data.length - count * size) = count * size + size - data.length := by
      omega
    rw [take_of_length_le (Nat.le_of_eq hlast), ← nil_append (List.replicate size 0),
      ← length_nil, copyAt_append (by simp; omega), nil_append, drop_replicate,
      hlast, hrest, drop_append_of_le_length hroom, hsucc, Nat.succ_mul,
      take_of_length_le]
    simp only [length_append, length_drop, length_replicate]
    omega
  unfold Encoder.chunk
  rw [hshard]
  refine Call.bind_of_check (by simpa using hmax) ?_
  refine Call.bind_of_check (by simpa using htwo) ?_
  refine Call.bind_eq_ok.mpr ⟨_, mapM_eq_pure hfull, ?_⟩
  rw [hsucc, Nat.succ_sub_one]
  refine Call.bind_of_ret (sliceOf_of_le hroom (Nat.le_refl _)) ?_
  rw [hpadded, rowsOf, range_succ, map_append, hsucc]
  rfl

theorem Encoder.chunk_eq {r : Encoder} {data : List UInt8} (hcount : r.originalShardsCount ≠ 0)
    (htwo : 2 ≤ size) (hdata : data.length = r.originalShardsCount * size)
    (hmax : data.length ≤ maxWorkPackageSize) :
    r.chunk data = .ok (rowsOf size r.originalShardsCount data ++
      .replicate r.recoveryShardsCount []) := by
  have hshard : (data.length + r.originalShardsCount - 1) / r.originalShardsCount = size := by
    rw [hdata, Nat.add_sub_assoc (Nat.pos_of_ne_zero hcount),
      Nat.mul_add_div (Nat.pos_of_ne_zero hcount), Nat.div_eq_of_lt (by omega), Nat.add_zero]
  rw [chunk_eq_padded hcount hshard hmax (hdata ▸ Nat.mul_le_mul_left _ htwo)
    (hdata ▸ Nat.mul_le_mul_right _ (Nat.sub_le _ _)), hdata, Nat.sub_self, replicate_zero,
    append_nil]

theorem length_foldl_set (pairs : List (Nat × Shard)) (shards : List Shard) :
    (pairs.foldl (fun shards p => shards.set p.1 p.2) shards).length = shards.length := by
  induction pairs generalizing shards with
  | nil => rfl
  | cons p pairs ih => rw [foldl_cons, ih, length_set]

theorem getElem?_foldl_set (pairs : List (Nat × Shard)) {i : Nat} (hi : i < shards.length) :
    let result := pairs.foldl (fun shards p => shards.set p.1 p.2) shards
    (i ∉ pairs.map Prod.fst ∧ result[i]? = shards[i]?) ∨
      ∃ p ∈ pairs, p.1 = i ∧ result[i]? = some p.2 := by
  induction pairs generalizing shards with
  | nil => exact .inl ⟨by simp, rfl⟩
  | cons p pairs ih =>
    have hi' : i < (shards.set p.1 p.2).length := by simpa using hi
    rcases ih hi' with ⟨hnot, hget⟩ | ⟨q, hq, hget⟩
    · by_cases heq : p.1 = i
      · refine .inr ⟨p, mem_cons_self, heq, hget.trans ?_⟩
        rw [heq, List.getElem?_set_self hi]
      · refine .inl ⟨?_, hget.trans (List.getElem?_set_ne heq)⟩
        rw [map_cons, mem_cons]
        exact not_or.mpr ⟨Ne.symm heq, hnot⟩
    · exact .inr ⟨q, mem_cons_of_mem _ hq, hget⟩

variable {orig recovery : List Shard} {restored : List (Nat × Shard)}

theorem sliceOf_erased_left : sliceOf (erased keep (orig ++ recovery)) 0 orig.length =
    .ret (erased keep orig) := by
  rw [erased_append, sliceOf_of_le (Nat.zero_le _) (by simp), drop_zero, Nat.sub_zero,
    take_append_of_le_length (by simp), take_of_length_le (by simp)]

theorem sliceOf_erased_right : sliceOf (erased keep (orig ++ recovery)) orig.length
      (erased keep (orig ++ recovery)).length =
    .ret (erased (fun i => keep (orig.length + i)) recovery) := by
  rw [sliceOf_of_le (by simp) (Nat.le_refl _), erased_append,
    drop_append_of_le_length (by simp), drop_of_length_le (by simp), nil_append,
    take_of_length_le]
  simp

structure Fills (keep : Nat → Bool) (size : Nat) (original : List Shard)
    (restored : List (Nat × Shard)) : Prop where
  number : restored.length = original.length - shardCount (erased keep original)
  place : ∀ p ∈ restored, p.1 < original.length
  sizes : ∀ shard ∈ restored.map Prod.snd, shard.length = size

theorem missing_eq (hsize : ∀ shard ∈ orig, shard.length = size) (hpos : size ≠ 0) :
    orig.length - shardCount (erased keep orig) =
      (List.range orig.length).countP fun i => !keep i := by
  have hsum := length_eq_countP_add_countP keep (l := List.range orig.length)
  simp only [Bool.not_eq_true, Bool.decide_eq_false, length_range] at hsum
  rw [shardCount_erased hsize hpos]
  omega

theorem fills_of_perm (hsize : ∀ shard ∈ orig, shard.length = size) (hpos : size ≠ 0)
    (hres : restored.Perm (indexed (fun i => !keep i) orig)) :
    Fills keep size orig restored where
  number := by rw [hres.length_eq, length_indexed, missing_eq hsize hpos]
  place := by
    intro p hp
    exact (List.getElem?_eq_some_iff.mp (mem_indexed.mp (hres.mem_iff.mp hp)).1).1
  sizes := by
    intro shard hshard
    exact length_indexed_shards hsize shard ((hres.map _).mem_iff.mp hshard)

theorem take_restored (hres : restored.Perm (indexed (fun i => !keep i) orig)) :
    (restored.foldl (fun shards p => shards.set p.1 p.2)
      (erased keep (orig ++ recovery))).take orig.length = orig := by
  apply ext_getElem?
  intro i
  rcases Nat.lt_or_ge i orig.length with hi | hi
  · rw [List.getElem?_take_of_lt hi]
    have hi' : i < (erased keep (orig ++ recovery)).length := by
      simp only [length_erased, length_append]
      omega
    rcases getElem?_foldl_set restored hi' with ⟨hnot, hget⟩ | ⟨p, hp, rfl, hget⟩
    · have hsome : orig[i]? = some orig[i] := List.getElem?_eq_getElem hi
      have hkept : keep i = true := by
        by_contra hfalse
        refine hnot (mem_map.mpr ⟨(i, orig[i]), hres.mem_iff.mpr ?_, rfl⟩)
        exact mem_indexed.mpr ⟨hsome, by simpa using hfalse⟩
      rw [hget, getElem?_erased, hkept, List.getElem?_append_left hi, hsome]
      rfl
    · rw [hget, (mem_indexed.mp (hres.mem_iff.mp hp)).1]
  · rw [List.getElem?_take_eq_none hi, List.getElem?_eq_none hi]

section

variable {simd : ReedSolomonSimd} {r : Encoder}
  (horig : orig.length = r.originalShardsCount)
  (hrecovery : recovery.length = r.recoveryShardsCount)
  (hsize : ∀ shard ∈ orig, shard.length = size)
  (hsize' : ∀ shard ∈ recovery, shard.length = size)
  (hsizes : size ≠ 0 ∧ size ≤ maxShardSize ∧ size % 2 = 0)
  (hcounts : r.originalShardsCount ≠ 0 ∧ r.recoveryShardsCount ≠ 0 ∧
    r.originalShardsCount + r.recoveryShardsCount ≤ maxShards)

include horig hrecovery hsize hsize' hsizes hcounts

theorem Encoder.encode_eq
    (hencode : simd.encode r.originalShardsCount r.recoveryShardsCount orig = some recovery) :
    r.encode simd (orig ++ .replicate r.recoveryShardsCount []) =
      .ok (orig ++ recovery) := by
  obtain ⟨hpos, hmax, heven⟩ := hsizes
  obtain ⟨hcount, hcount', hshards⟩ := hcounts
  have hlen := length_flatten_of_forall hsize
  have hslice : sliceOf (orig ++ .replicate r.recoveryShardsCount []) 0
      r.originalShardsCount = .ret orig := by
    rw [sliceOf_of_le (Nat.zero_le _) (by simp [horig]), drop_zero, Nat.sub_zero,
      ← horig, take_left]
  have hshardSize :
      ErasureCoding.shardSize (orig ++ .replicate r.recoveryShardsCount []) = size := by
    refine shardSize_eq ?_ ?_
    · intro shard hshard
      rcases mem_append.mp hshard with h | h
      · exact .inr (hsize shard h)
      · rw [eq_of_mem_replicate h]
        exact .inl rfl
    · unfold shardCount
      rw [countP_append]
      have hcountP := shardCount_eq hsize hpos
      unfold shardCount at hcountP
      omega
  have hlibrary : reedSolomonEncode simd r.originalShardsCount r.recoveryShardsCount size
      orig.flatten (.replicate (r.recoveryShardsCount * size) 0) =
        .ret (some recovery.flatten) := by
    unfold reedSolomonEncode
    rw [if_pos, chunks_flatten hsize hpos, hencode]
    · dsimp only
      rw [copyShards_eq hsize' (by rw [length_replicate, hrecovery])]
      rfl
    · rw [hlen, Nat.mul_mod_left, Nat.mul_div_cancel _ (Nat.pos_of_ne_zero hpos)]
      exact ⟨hshards, ⟨Nat.pos_of_ne_zero hcount, Nat.pos_of_ne_zero hcount'⟩,
        ⟨Nat.pos_of_ne_zero hpos, heven⟩, rfl, horig, length_replicate⟩
  unfold Encoder.encode
  rw [hshardSize]
  refine Call.bind_of_ret hslice ?_
  refine Call.bind_of_check ?_ ?_
  · simpa [horig] using shardCount_eq hsize hpos
  refine Call.bind_of_check (by simp [horig]) ?_
  refine Call.bind_of_check (by simp [hpos, hmax]) ?_
  refine Call.bind_of_except (r.flatten_eq hsize horig) ?_
  refine Call.bind_of_ret hlibrary ?_
  refine Call.bind_of_except (orError_eq_ok.mpr rfl) ?_
  rw [← hrecovery, rowsOf_flatten hsize']
  rfl

omit hrecovery in
theorem reedSolomonDecode_erased
    (hfills : ∀ restored, simd.decode r.originalShardsCount r.recoveryShardsCount
      (indexed keep orig) (indexed (fun i => keep (orig.length + i)) recovery) =
        some restored → Fills keep size orig restored) :
    reedSolomonDecode simd r.originalShardsCount r.recoveryShardsCount size
      ((indexed keep orig).map Prod.snd).flatten ((indexed keep orig).map Prod.fst)
      ((indexed (fun i => keep (orig.length + i)) recovery).map Prod.snd).flatten
      ((indexed (fun i => keep (orig.length + i)) recovery).map Prod.fst)
      (.replicate ((orig.length - shardCount (erased keep orig)) * size) 0)
      (.replicate (orig.length - shardCount (erased keep orig)) 0) =
        .ret ((simd.decode r.originalShardsCount r.recoveryShardsCount (indexed keep orig)
          (indexed (fun i => keep (orig.length + i)) recovery)).map fun restored =>
            ((restored.map Prod.snd).flatten, restored.map Prod.fst)) := by
  obtain ⟨hpos, -, heven⟩ := hsizes
  obtain ⟨hcount, hcount', hshards⟩ := hcounts
  have hsizeKept : ∀ shard ∈ (indexed keep orig).map Prod.snd, shard.length = size :=
    length_indexed_shards hsize
  have hsizeKept' : ∀ shard ∈ (indexed (fun i => keep (orig.length + i)) recovery).map
      Prod.snd, shard.length = size := length_indexed_shards hsize'
  unfold reedSolomonDecode
  rw [if_pos]
  · dsimp only
    rw [chunks_flatten hsizeKept hpos, chunks_flatten hsizeKept' hpos, ← zip_of_prod rfl rfl,
      ← zip_of_prod rfl rfl]
    split
    · next restored hres =>
      have h := hfills restored hres
      rw [hres, copyShards_eq h.sizes (by simp [h.number]), copyAt_whole (by simp [h.number])]
      rfl
    · next hnone =>
      rw [hnone]
      rfl
  · rw [length_flatten_of_forall hsizeKept, length_flatten_of_forall hsizeKept', Nat.mul_mod_left,
      Nat.mul_mod_left, Nat.mul_div_cancel _ (Nat.pos_of_ne_zero hpos), length_replicate,
      length_map, length_indexed, shardCount_erased hsize hpos, horig, Nat.mul_comm]
    exact ⟨hshards, ⟨Nat.pos_of_ne_zero hcount, Nat.pos_of_ne_zero hcount'⟩,
      ⟨Nat.pos_of_ne_zero hpos, heven⟩, rfl, rfl, rfl⟩

omit hrecovery in
theorem Encoder.decode_eq
    (hkeep : r.originalShardsCount ≤ shardCount (erased keep (orig ++ recovery)))
    (hfills : ∀ restored, simd.decode r.originalShardsCount r.recoveryShardsCount
      (indexed keep orig) (indexed (fun i => keep (orig.length + i)) recovery) =
        some restored → Fills keep size orig restored) :
    r.decode simd (erased keep (orig ++ recovery)) =
      match simd.decode r.originalShardsCount r.recoveryShardsCount (indexed keep orig)
        (indexed (fun i => keep (orig.length + i)) recovery) with
      | some restored => .ok (restored.foldl (fun shards p => shards.set p.1 p.2)
          (erased keep (orig ++ recovery)))
      | none => .fail .unableToDecode := by
  have hlibrary := reedSolomonDecode_erased horig hsize hsize' hsizes hcounts hfills
  obtain ⟨hpos, hmax, -⟩ := hsizes
  have hall : ∀ shard ∈ orig ++ recovery, shard.length = size := by
    intro shard hshard
    exact (mem_append.mp hshard).elim (hsize shard) (hsize' shard)
  have hshardSize : shardSize (erased keep (orig ++ recovery)) = size :=
    shardSize_erased hall (Nat.lt_of_lt_of_le (Nat.pos_of_ne_zero hcounts.1) hkeep)
  have hcheck : Call.check (r.originalShardsCount ≤ shardCount (erased keep (orig ++ recovery)))
      CodingError.tooFewShards = .ok () := Call.check_eq_ok.mpr (by simpa using hkeep)
  have hcheck' : Call.check (size ≠ 0 ∧ size ≤ maxShardSize) CodingError.invalidShardSize =
      .ok () := Call.check_eq_ok.mpr (by simp [hpos, hmax])
  unfold Encoder.decode
  rw [hshardSize, Call.bind_of_ok hcheck, Call.bind_of_ok hcheck', ← horig,
    Call.bind_of_ok (Call.lift_outcome_eq_ok.mpr sliceOf_erased_left),
    Call.bind_of_ok (Call.lift_except_eq_ok.mpr (collect_erased hsize hpos)),
    Call.bind_of_ok (Call.lift_outcome_eq_ok.mpr sliceOf_erased_right),
    Call.bind_of_ok (Call.lift_except_eq_ok.mpr (collect_erased hsize' hpos)), horig,
    Call.bind_of_ok (Call.lift_outcome_eq_ok.mpr (horig ▸ hlibrary))]
  split
  · next restored hres =>
    have h := hfills restored (horig ▸ hres)
    have hrows := rowsOf_flatten h.sizes
    rw [length_map, h.number, horig] at hrows
    refine Call.bind_of_except (orError_eq_ok.mpr (congrArg _ hres)) ?_
    rw [hrows, ← zip_of_prod rfl rfl]
    refine foldlM_eq_pure (P := fun shards => orig.length ≤ shards.length) (by simp) ?_
    intro p hp shards hlen
    rw [store, if_pos (Nat.lt_of_lt_of_le (h.place p hp) hlen), length_set]
    exact ⟨rfl, hlen⟩
  · next hnone =>
    rw [hnone]
    rfl

theorem Encoder.decode_erased (hkeep : r.originalShardsCount ≤
      (List.range (r.originalShardsCount + r.recoveryShardsCount)).countP keep)
    (hdecode : simd.decode r.originalShardsCount r.recoveryShardsCount (indexed keep orig)
      (indexed (fun i => keep (orig.length + i)) recovery) = some restored)
    (hres : restored.Perm (indexed (fun i => !keep i) orig)) :
    ∃ shards, r.decode simd (erased keep (orig ++ recovery)) = .ok shards ∧
      r.originalShardsCount ≤ shards.length ∧ shards.take r.originalShardsCount = orig := by
  have hall : ∀ shard ∈ orig ++ recovery, shard.length = size := by
    intro shard hshard
    exact (mem_append.mp hshard).elim (hsize shard) (hsize' shard)
  have hleft : r.originalShardsCount ≤ shardCount (erased keep (orig ++ recovery)) := by
    rwa [shardCount_erased hall hsizes.1, length_append, horig, hrecovery]
  have hfills := fills_of_perm hsize hsizes.1 hres
  refine ⟨restored.foldl (fun shards p => shards.set p.1 p.2) (erased keep (orig ++ recovery)),
    ?_, ?_, horig ▸ take_restored hres⟩
  · rw [decode_eq horig hsize hsize' hsizes hcounts hleft, hdecode]
    rintro restored' hres'
    rw [hdecode] at hres'
    cases hres'
    exact hfills
  · rw [length_foldl_set]
    simp [horig]

end

end Strawberry.ErasureCoding
