import Strawberry.ErasureCoding.Coder

/-!
# Decoding any shards

When the decoder returns, whatever shards it is given.
-/

namespace Strawberry.ErasureCoding

open List

def ReedSolomonSimd.Restores (simd : ReedSolomonSimd) : Prop :=
  ∀ (originalCount recoveryCount size : Nat) (original recovery restored : List (Nat × Shard)),
    (∀ p ∈ original ++ recovery, p.2.length = size) →
    simd.decode originalCount recoveryCount original recovery = some restored →
      (restored.map Prod.fst).Perm
        ((List.range originalCount).filter fun i => i ∉ original.map Prod.fst) ∧
      ∀ p ∈ restored, p.2.length = size

def present (shards : List Shard) (i : Nat) : Bool := shards[i]?.getD [] ≠ []

def filled (size : Nat) (shards : List Shard) : List Shard :=
  shards.map fun shard => if shard.length = 0 then .replicate size 0 else shard

variable {simd : ReedSolomonSimd} {shards original recovery : List Shard} {size : Nat}
  {keep : Nat → Bool}

theorem erased_filled : erased (present shards) (filled size shards) = shards := by
  apply ext_getElem?
  intro i
  rw [getElem?_erased, filled, List.getElem?_map]
  cases hget : shards[i]? with
  | none => rfl
  | some shard =>
    by_cases hempty : shard = []
    · simp [present, hget, hempty]
    · simp [present, hget, hempty]

theorem length_of_mem_filled (h : ∀ shard ∈ shards, shard.length = 0 ∨ shard.length = size) :
    ∀ shard ∈ filled size shards, shard.length = size := by
  intro shard hshard
  obtain ⟨shard, hmem, rfl⟩ := mem_map.mp hshard
  split
  · exact length_replicate
  · next hne => exact (h shard hmem).resolve_left hne

theorem mem_fst_indexed {i : Nat} :
    i ∈ (indexed keep original).map Prod.fst ↔ i < original.length ∧ keep i = true := by
  rw [mem_map]
  constructor
  · rintro ⟨p, hp, rfl⟩
    obtain ⟨hget, hkeep⟩ := mem_indexed.mp hp
    exact ⟨(List.getElem?_eq_some_iff.mp hget).1, hkeep⟩
  · rintro ⟨hi, hkeep⟩
    exact ⟨(i, original[i]), mem_indexed.mpr ⟨List.getElem?_eq_getElem hi, hkeep⟩, rfl⟩

section

variable {restored : List (Nat × Shard)} {count recoveryCount : Nat}
  (hrestores : simd.Restores) (hn : original.length = count)
  (hsize : ∀ shard ∈ original, shard.length = size)
  (hsize' : ∀ shard ∈ recovery, shard.length = size) {keep' : Nat → Bool}
  (hdec : simd.decode count recoveryCount (indexed keep original)
    (indexed keep' recovery) = some restored)

include hrestores hn hsize hsize' hdec

theorem ReedSolomonSimd.Restores.perm : (restored.map Prod.fst).Perm
      ((List.range original.length).filter fun i => !keep i) ∧
    ∀ p ∈ restored, p.2.length = size := by
  obtain ⟨hperm, hsizes⟩ := hrestores _ _ size _ _ restored (by
    intro p hp
    rcases mem_append.mp hp with h | h
    · exact length_indexed_shards hsize _ (mem_map_of_mem h)
    · exact length_indexed_shards hsize' _ (mem_map_of_mem h)) (hn ▸ hdec)
  refine ⟨hperm.trans (List.Perm.of_eq (filter_congr ?_)), hsizes⟩
  intro i hi
  have hlt : i < original.length := mem_range.mp hi
  simp only [mem_fst_indexed, hlt, true_and, Bool.not_eq_true, Bool.decide_eq_false]

theorem ReedSolomonSimd.Restores.fills (hpos : size ≠ 0) : Fills keep size original restored := by
  obtain ⟨hperm, hsizes⟩ := hrestores.perm hn hsize hsize' hdec
  refine ⟨?_, ?_, ?_⟩
  · rw [missing_eq hsize hpos, countP_eq_length_filter, ← hperm.length_eq, length_map]
  · intro p hp
    have hmem := hperm.mem_iff.mp (mem_map_of_mem hp)
    exact mem_range.mp (mem_filter.mp hmem).1
  · intro shard hshard
    obtain ⟨p, hp, rfl⟩ := mem_map.mp hshard
    exact hsizes p hp

theorem ReedSolomonSimd.Restores.sizes {i : Nat} (hi : i < original.length) {shard : Shard}
    (hshard : (restored.foldl (fun shards p => shards.set p.1 p.2)
      (erased keep (original ++ recovery)))[i]? = some shard) : shard.length = size := by
  obtain ⟨hperm, hsizes⟩ := hrestores.perm hn hsize hsize' hdec
  have hi' : i < (erased keep (original ++ recovery)).length := by
    simp only [length_erased, length_append]
    omega
  rcases getElem?_foldl_set restored hi' with ⟨hnot, hget⟩ | ⟨p, hp, -, hget⟩
  · have hkeep : keep i = true := by
      by_contra hfalse
      refine hnot (hperm.mem_iff.mpr (mem_filter.mpr ⟨mem_range.mpr hi, ?_⟩))
      simpa using hfalse
    rw [hget, getElem?_erased, hkeep, List.getElem?_append_left hi, List.getElem?_eq_getElem hi]
      at hshard
    cases hshard
    exact hsize _ (getElem_mem hi)
  · rw [hget] at hshard
    cases hshard
    exact hsizes p hp

end

theorem Encoder.decode_returns {r : Encoder} (hrestores : simd.Restores)
    (hsizes : size ≠ 0 ∧ size ≤ maxShardSize ∧ size % 2 = 0)
    (hcounts : r.originalShardsCount ≠ 0 ∧ r.recoveryShardsCount ≠ 0 ∧
      r.originalShardsCount + r.recoveryShardsCount ≤ maxShards)
    (h : ∀ shard ∈ shards, shard.length = 0 ∨ shard.length = size)
    (hn : r.originalShardsCount ≤ shardCount shards) :
    ∃ result, r.decode simd shards = Outcome.ret result ∧ ∀ shards', result = .ok shards' →
      r.originalShardsCount ≤ shards'.length ∧
        ∀ shard ∈ shards'.take r.originalShardsCount, shard.length = size := by
  have hfilled := length_of_mem_filled h
  have hlen : r.originalShardsCount ≤ (filled size shards).length := by
    rw [filled, length_map]
    exact Nat.le_trans hn countP_le_length
  set original := (filled size shards).take r.originalShardsCount with horiginal
  set recovery := (filled size shards).drop r.originalShardsCount with hrecovery
  have hshards : erased (present shards) (original ++ recovery) = shards := by
    rw [horiginal, hrecovery, take_append_drop, erased_filled]
  have hnumber : original.length = r.originalShardsCount := length_take_of_le hlen
  have hsize : ∀ shard ∈ original, shard.length = size := fun shard hshard =>
    hfilled shard (mem_of_mem_take hshard)
  have hsize' : ∀ shard ∈ recovery, shard.length = size := fun shard hshard =>
    hfilled shard (mem_of_mem_drop hshard)
  have hdec := Encoder.decode_eq hnumber hsize hsize' hsizes hcounts (hshards.symm ▸ hn)
    fun _ hrestored => hrestores.fills hnumber hsize hsize' hrestored hsizes.1
  rw [hshards] at hdec
  split at hdec
  · next restored hrestored =>
    refine ⟨_, hdec, ?_⟩
    rintro shards' ⟨⟩
    have hle : r.originalShardsCount ≤ (restored.foldl (fun shards p => shards.set p.1 p.2)
        shards).length := by
      rw [length_foldl_set]
      exact Nat.le_trans hn countP_le_length
    refine ⟨hle, ?_⟩
    intro shard hshard
    obtain ⟨i, hi, hget⟩ := getElem_of_mem hshard
    have hlt : i < original.length := by
      rw [length_take] at hi
      omega
    refine hrestores.sizes hnumber hsize hsize' hrestored hlt ?_
    rw [hshards, ← hget, getElem_take, List.getElem?_eq_getElem]
  · exact ⟨_, hdec, nofun⟩

def part (j : Nat) (shard : Shard) : Shard :=
  if shard.length = 0 then [] else (shard.drop (j * chunkShardSize)).take chunkShardSize

theorem lace_returns {chunks : List (List UInt8)} {n outSize : Nat}
    (hchunks : ∀ chunk ∈ chunks, chunk.length = n) (hle : outSize ≤ chunks.length * n) :
    (lace chunks outSize).Returns := by
  unfold lace
  split
  · exact ⟨_, rfl⟩
  · next hne =>
    have hpos : 0 < chunks.length := length_pos_of_ne_nil hne
    have hcell : ∀ i ∈ List.range outSize, ∃ b, (do
          let chunk ← indexAt chunks (i % chunks.length)
          indexAt chunk (i / chunks.length)) = .ret b ∧ True := by
      intro i hi
      have hrow := Nat.mod_lt i hpos
      have hcolumn : i / chunks.length < chunks[i % chunks.length].length := by
        rw [hchunks _ (getElem_mem hrow)]
        exact Nat.div_lt_of_lt_mul (Nat.lt_of_lt_of_le (mem_range.mp hi) hle)
      refine ⟨chunks[i % chunks.length][i / chunks.length], ?_, trivial⟩
      rw [indexAt, List.getElem?_eq_getElem hrow, ret_bind, indexAt,
        List.getElem?_eq_getElem hcolumn]
    obtain ⟨result, hres, -⟩ := mapM_returns hcell
    exact ⟨result, hres⟩

section

variable {j : Nat} (hsizes : ∀ shard ∈ shards, shard.length ≠ 0 → shardSize shards ≤ shard.length)
  (hj : (j + 1) * chunkShardSize ≤ shardSize shards)

include hsizes hj

theorem slices_eq : (shards.mapM fun s =>
      if s.length = 0 then (return [] : Call CodingError Shard)
      else sliceOf s (j * chunkShardSize) (j * chunkShardSize + chunkShardSize)) =
    pure (shards.map (part j)) := by
  refine mapM_eq_pure ?_
  intro shard hshard
  unfold part
  rw [Nat.succ_mul] at hj
  split
  · rfl
  · next hne =>
    rw [sliceOf_of_le (Nat.le_add_right _ _) (Nat.le_trans hj (hsizes shard hshard hne)),
      Nat.add_sub_cancel_left]
    rfl

theorem length_part {shard : Shard} (hshard : shard ∈ shards) :
    (part j shard).length = if shard.length = 0 then 0 else chunkShardSize := by
  rw [Nat.succ_mul] at hj
  unfold part
  split
  · rfl
  · next hne =>
    have hle := hsizes shard hshard hne
    rw [length_take, length_drop]
    omega

theorem shardCount_parts : shardCount (shards.map (part j)) = shardCount shards := by
  unfold shardCount
  rw [countP_map]
  refine countP_congr ?_
  intro shard hshard
  have hpart := length_part hsizes hj hshard
  have hsize : chunkShardSize = 2 := rfl
  rw [Function.comp_apply, decide_eq_true_iff, decide_eq_true_iff, hpart]
  split <;> omega

theorem decode_parts (hrestores : simd.Restores) (hn : originalShards ≤ shardCount shards) :
    ∃ result, (do
      let c ← Encoder.decode simd ⟨originalShards, recoveryShards⟩ (shards.map (part j))
      let original ← sliceOf c 0 originalShards
      return original.flatten : Call CodingError (List UInt8)) = Outcome.ret result ∧
        ∀ chunk, result = .ok chunk → chunk.length = erasureCodingChunkSize := by
  obtain ⟨result, hres, hok⟩ := Encoder.decode_returns
    (r := ⟨originalShards, recoveryShards⟩) hrestores
    (show chunkShardSize ≠ 0 ∧ chunkShardSize ≤ maxShardSize ∧ chunkShardSize % 2 = 0 by decide)
    (by decide) (by
      intro shard hshard
      obtain ⟨shard, hmem, rfl⟩ := mem_map.mp hshard
      rw [length_part hsizes hj hmem]
      split
      · exact .inl rfl
      · exact .inr rfl)
    (by rwa [shardCount_parts hsizes hj])
  rw [hres]
  cases result with
  | error e => exact ⟨_, rfl, nofun⟩
  | ok c =>
    obtain ⟨hle, hsize⟩ := hok c rfl
    refine ⟨.ok (c.take originalShards).flatten, ?_, ?_⟩
    · refine Call.bind_of_ret (sliceOf_of_le (Nat.zero_le _) hle) ?_
      rfl
    · rintro chunk ⟨⟩
      rw [length_flatten_of_forall hsize, length_take_of_le hle]
      rfl

end

theorem decode_returns_iff (hrestores : simd.Restores) {outSize : Nat} :
    (decode simd shards outSize).Returns ↔
      shardCount shards < originalShards ∨ shardSize shards % chunkShardSize ≠ 0 ∨
        shardSize shards * originalShards < outSize ∨
        ∀ shard ∈ shards, shard.length ≠ 0 → shardSize shards ≤ shard.length := by
  unfold decode
  dsimp only
  rw [Call.returns_check_bind, Call.returns_check_bind, Call.returns_check_bind]
  by_cases hn : shardCount shards < originalShards
  · exact iff_of_true (.inl (by simpa using hn)) (.inl hn)
  rw [or_iff_right (by simpa using hn), or_iff_right hn]
  by_cases heven : shardSize shards % chunkShardSize ≠ 0
  · exact iff_of_true (.inl (by simpa using heven)) (.inl heven)
  rw [or_iff_right (by simpa using heven), or_iff_right heven]
  by_cases hout : shardSize shards * originalShards < outSize
  · rw [decide_eq_false_iff_not]
    omega
  have hle : outSize ≤ shardSize shards * originalShards := Nat.le_of_not_lt hout
  rw [or_iff_right (by rw [decide_eq_false_iff_not]; omega), or_iff_right hout]
  have hnew : Except.mapError (fun _ => CodingError.creatingEncoder)
    (Encoder.new originalShards recoveryShards) = .ok ⟨originalShards, recoveryShards⟩ := rfl
  rw [hnew, Call.bind_of_ok (Call.lift_except_eq_ok.mpr rfl)]
  have hchunks : shardSize shards / chunkShardSize * chunkShardSize = shardSize shards :=
    Nat.div_mul_cancel (Nat.dvd_of_mod_eq_zero (not_not.mp heven))
  constructor
  · -- A shard that is too short for the last chunk stops the loop over the chunks.
    intro hreturns shard hshard hne
    obtain ⟨result, hres⟩ := Call.returns_of_bind hreturns
    cases result with
    | error e =>
      refine absurd hres (Call.mapM_ne_fail fun j _ => Call.mapM_ne_fail fun s _ => ?_)
      split
      · exact nofun
      · exact Call.lift_outcome_ne_fail
    | ok chunkShards =>
      rw [← hchunks]
      cases hlast : shardSize shards / chunkShardSize with
      | zero => simp
      | succ j =>
        have hmem : j ∈ List.range (shardSize shards / chunkShardSize) := by simp [hlast]
        obtain ⟨c, -, hc⟩ := exists_of_mem_left (Call.mapM_eq_ok.mp hres) hmem
        obtain ⟨slice, -, hslice⟩ := exists_of_mem_left (Call.mapM_eq_ok.mp hc) hshard
        rw [if_neg hne, Call.lift_outcome_eq_ok, sliceOf_eq_ret] at hslice
        rw [Nat.succ_mul]
        exact hslice.2.1
  · intro hsizes
    have hj : ∀ j ∈ List.range (shardSize shards / chunkShardSize),
        (j + 1) * chunkShardSize ≤ shardSize shards := by
      intro j hj
      rw [← hchunks]
      exact Nat.mul_le_mul_right _ (mem_range.mp hj)
    rw [mapM_eq_pure fun j hmem => slices_eq hsizes (hj j hmem), pure_bind]
    obtain ⟨result, hres, hok⟩ := Call.mapM_returns (P := fun chunk : List UInt8 =>
        chunk.length = erasureCodingChunkSize)
      (l := (List.range (shardSize shards / chunkShardSize)).map fun j => shards.map (part j))
      (f := fun c => do
        let c ← Encoder.decode simd ⟨originalShards, recoveryShards⟩ c
        let original ← sliceOf c 0 originalShards
        return original.flatten) (by
      intro c hc
      obtain ⟨j, hmem, rfl⟩ := mem_map.mp hc
      exact decode_parts hsizes (hj j hmem) hrestores (Nat.le_of_not_lt hn))
    rw [hres]
    cases result with
    | error e => exact ⟨_, rfl⟩
    | ok chunks =>
      obtain ⟨hlen, hall⟩ := hok chunks rfl
      rw [length_map, length_range] at hlen
      have hroom : outSize ≤ chunks.length * erasureCodingChunkSize := by
        rwa [hlen, show erasureCodingChunkSize = chunkShardSize * originalShards from rfl,
          ← Nat.mul_assoc, hchunks]
      obtain ⟨data, hdata⟩ := lace_returns hall hroom
      exact ⟨.ok data, Call.lift_outcome_eq_ok.mpr hdata⟩

theorem Encoder.chunk_eq_ok_iff {r : Encoder} {data : List UInt8} (hn : r.originalShardsCount ≠ 0)
    (hmax : data.length ≤ maxWorkPackageSize) (htwo : r.originalShardsCount * 2 ≤ data.length) :
    (∃ shards pad, r.chunk data = .ok shards ∧
      (shards.take r.originalShardsCount).flatten = data ++ .replicate pad 0) ↔
    (r.originalShardsCount - 1) *
      ((data.length + r.originalShardsCount - 1) / r.originalShardsCount) ≤ data.length := by
  constructor
  · rintro ⟨shards, -, hchunk, -⟩
    obtain ⟨-, hchunk⟩ := Call.bind_unit_eq_ok.mp hchunk
    obtain ⟨-, hchunk⟩ := Call.bind_unit_eq_ok.mp hchunk
    obtain ⟨full, -, hchunk⟩ := Call.bind_eq_ok.mp hchunk
    obtain ⟨last, hlast, -⟩ := Call.bind_eq_ok.mp hchunk
    exact (sliceOf_eq_ret.mp (Call.lift_outcome_eq_ok.mp hlast)).1
  · intro hroom
    refine ⟨_, r.originalShardsCount *
        ((data.length + r.originalShardsCount - 1) / r.originalShardsCount) - data.length,
      chunk_eq_padded hn rfl hmax htwo hroom, ?_⟩
    rw [take_left' (length_rowsOf ..), flatten_rowsOf]
    have hceil := le_mul_ceil hn data.length
    rw [length_append, length_replicate]
    omega

/-- What the coder does with any data and shards. -/
theorem coding_ranges {simd : ReedSolomonSimd} (hrestores : simd.Restores) :
    (∀ (shards : List Shard) (outSize : Nat), (decode simd shards outSize).Returns ↔
      shardCount shards < originalShards ∨ shardSize shards % chunkShardSize ≠ 0 ∨
        shardSize shards * originalShards < outSize ∨
        ∀ shard ∈ shards, shard.length ≠ 0 → shardSize shards ≤ shard.length) ∧
    ∀ (count recoveryCount : Nat) (encoder : Encoder) (data : List UInt8),
      0 < count → 0 < recoveryCount →
      Encoder.new count recoveryCount = .ok encoder →
      data.length ≤ maxWorkPackageSize → count * 2 ≤ data.length →
      ((∃ shards pad, encoder.chunk data = .ok shards ∧
        (shards.take count).flatten = data ++ .replicate pad 0) ↔
      (count - 1) * ((data.length + count - 1) / count) ≤
        data.length) := by
  refine ⟨fun shards outSize => decode_returns_iff hrestores, ?_⟩
  intro count recoveryCount encoder data hpos _ hnew hmax htwo
  obtain ⟨-, hnew⟩ := bind_unit_eq_ok.mp hnew
  obtain ⟨-, hnew⟩ := bind_unit_eq_ok.mp hnew
  cases pure_eq_ok.mp hnew
  exact Encoder.chunk_eq_ok_iff (Nat.ne_of_gt hpos) hmax htwo

def zeroSimd : ReedSolomonSimd where
  encode := fun _ _ _ => none
  decode := fun originalCount _ original recovery =>
    (original ++ recovery).head?.map fun first =>
      ((List.range originalCount).filter fun i => i ∉ original.map Prod.fst).map fun i =>
        (i, .replicate first.2.length 0)

theorem zeroSimd_restores : zeroSimd.Restores := by
  intro count recoveryCount size original recovery restored hsize hdec
  obtain ⟨first, hfirst, rfl⟩ := Option.map_eq_some_iff.mp hdec
  refine ⟨?_, ?_⟩
  · rw [map_map]
    exact List.Perm.of_eq (map_id _)
  · intro p hp
    obtain ⟨i, -, rfl⟩ := mem_map.mp hp
    rw [length_replicate]
    exact hsize first (mem_of_mem_head? hfirst)

theorem equal_shards_return :
    (decode zeroSimd (.replicate 342 [0, 0]) (0 : Nat)).Returns := by
  refine ((coding_ranges zeroSimd_restores).1 _ _).mpr (.inr (.inr (.inr ?_)))
  intro shard hshard _
  rw [eq_of_mem_replicate hshard]
  decide

theorem short_shard_stops_decode :
    ¬ (decode zeroSimd (.replicate 341 [0, 0] ++ [[0]]) (0 : Nat)).Returns ∧
      Encoder.chunk ⟨5, 1⟩ (.replicate 11 0) = .crash .sliceOutOfRange := by
  refine ⟨?_, by decide⟩
  have hn : shardCount (.replicate 341 [0, 0] ++ [[0]]) = 342 := by
    rw [shardCount, countP_append, countP_replicate]
    rfl
  have hsize : shardSize (.replicate 341 [0, 0] ++ [[0]]) = 2 := rfl
  rw [decode_returns_iff zeroSimd_restores, hn, hsize]
  rintro (h | h | h | h)
  · exact absurd h (by decide)
  · exact h rfl
  · exact absurd h (by decide)
  · exact absurd (h [0] (mem_append_right _ mem_cons_self) (by decide)) (by decide)

end Strawberry.ErasureCoding
