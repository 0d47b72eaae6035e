import Mathlib.Data.Finset.Card
import Mathlib.Order.Interval.Finset.Nat
import Strawberry.ErasureCoding.Coder

/-!
# Recovery

`encode` followed by `decode` gives the data back from any 342 of the 1023 shards. The crate
behind the coder is an argument: `Recovers` says what is expected of it for one word of original
shards. The chunks are the columns of the data, and `Coded` ties a chunk to its word; the two loops
are proved by induction over the pairs.
-/

namespace Strawberry.ErasureCoding

open List Call

def chunkCount (n : Nat) (data : List UInt8) : Nat := (data.length + n - 1) / n

abbrev chunksOf (data : List UInt8) : List (List UInt8) :=
  columns 0 (chunkCount erasureCodingChunkSize data) erasureCodingChunkSize data

variable {n k : Nat} {data : List UInt8} {simd : ReedSolomonSimd}

theorem chunkCount_pos (hn : n ≠ 0) (hdata : data ≠ []) : 0 < chunkCount n data := by
  have hlen := length_pos_of_ne_nil hdata
  exact Nat.div_pos (by omega) (Nat.pos_of_ne_zero hn)

theorem length_le_chunks (hn : n ≠ 0) : data.length ≤ chunkCount n data * n := by
  rw [chunkCount, Nat.mul_comm]
  exact le_mul_ceil hn _

theorem setCell_columns {seen : List UInt8} {b : UInt8} (hlt : seen.length < k * n) :
    setCell (columns 0 k n seen) (seen.length % k) (seen.length / k) b =
      .ret (columns 0 k n (seen ++ [b])) := by
  have hk : 0 < k := Nat.pos_of_mul_pos_right (Nat.zero_lt_of_lt hlt)
  unfold setCell indexAt
  rw [getElem?_columns 0 (Nat.mod_lt _ hk), ret_bind, if_pos, columns_concat]
  rw [length_map, length_range]
  exact Nat.div_lt_of_lt_mul hlt

theorem unzip_eq (hn : n ≠ 0) : unzip n data = .ret (columns 0 (chunkCount n data) n data) := by
  have hloop : ∀ rest seen : List UInt8, (seen ++ rest).length ≤ chunkCount n data * n →
      (rest.zipIdx seen.length).foldlM
        (fun result p => setCell result (p.2 % chunkCount n data) (p.2 / chunkCount n data) p.1)
        (columns 0 (chunkCount n data) n seen) =
      .ret (columns 0 (chunkCount n data) n (seen ++ rest)) := by
    intro rest
    induction rest with
    | nil =>
      intro seen _
      rw [append_nil]
      rfl
    | cons b rest ih =>
      intro seen hle
      have hlt : seen.length < chunkCount n data * n := by
        rw [length_append, length_cons] at hle
        omega
      have hnext := ih (seen ++ [b]) (by rwa [append_assoc])
      rw [length_append, length_singleton, append_assoc] at hnext
      rw [zipIdx_cons, foldlM_cons, setCell_columns hlt, ret_bind, hnext]
      rfl
  have hall := hloop data [] (length_le_chunks hn)
  rw [columns_nil] at hall
  unfold unzip
  rw [if_neg hn]
  exact hall

theorem unzip_data : unzip erasureCodingChunkSize data = .ret (chunksOf data) :=
  unzip_eq (by decide)

theorem lace_columns (hk : 0 < k) (hle : data.length ≤ k * n) :
    lace (columns 0 k n data) data.length = .ret data := by
  have hcell : ∀ i ∈ List.range data.length,
      (do let chunk ← indexAt (columns 0 k n data) (i % k); indexAt chunk (i / k)) =
        (pure (data.getD i 0) : Outcome UInt8) := by
    intro i hi
    have hget := getD_columns 0 (l := data) hk (Nat.lt_of_lt_of_le (mem_range.mp hi) hle)
    obtain ⟨row, hrow, hcell⟩ := Option.bind_eq_some_iff.mp hget
    rw [indexAt, hrow, ret_bind, indexAt, hcell]
    rfl
  have hne : columns 0 k n data ≠ [] := ne_nil_of_length_pos (by simpa using hk)
  unfold lace
  split
  · next h => exact absurd h hne
  · rw [length_columns, if_neg (by omega), Int.toNat_natCast, mapM_eq_pure hcell]
    refine congrArg Outcome.ret ?_
    apply ext_getElem
    · simp
    · intro i hi hi'
      simp [hi']

def coder : Encoder := ⟨originalShards, recoveryShards⟩

structure Encoded (simd : ReedSolomonSimd) (chunk : List UInt8) (word : List Shard) : Prop where
  length : word.length = originalShards + recoveryShards
  sizes : ∀ shard ∈ word, shard.length = chunkShardSize
  encodes : ∃ shards, coder.chunk chunk = .ok shards ∧ coder.encode simd shards = .ok word

structure Coded (simd : ReedSolomonSimd) (chunk : List UInt8) (word : List Shard) : Prop
    extends Encoded simd chunk word where
  decodes : ∀ keep : Nat → Bool,
    originalShards ≤ (List.range (originalShards + recoveryShards)).countP keep →
    ∃ shards, coder.decode simd (erased keep word) = .ok shards ∧
      originalShards ≤ shards.length ∧ (shards.take originalShards).flatten = chunk

section

variable {chunk : List UInt8} {recovery : List Shard}

theorem encoded_of_answer (hlen : chunk.length = erasureCodingChunkSize)
    (henc : simd.encode originalShards recoveryShards
      (rowsOf chunkShardSize originalShards chunk) = some recovery)
    (hcount : recovery.length = recoveryShards)
    (hsize : ∀ shard ∈ recovery, shard.length = chunkShardSize) :
    Encoded simd chunk (rowsOf chunkShardSize originalShards chunk ++ recovery) := by
  have hchunk : chunk.length = originalShards * chunkShardSize := hlen
  have hrows : ∀ shard ∈ rowsOf chunkShardSize originalShards chunk,
      shard.length = chunkShardSize := fun _ => length_of_mem_rowsOf hchunk
  refine ⟨?_, ?_, ?_⟩
  · rw [length_append, length_rowsOf, hcount]
  · intro shard hshard
    exact (mem_append.mp hshard).elim (hrows shard) (hsize shard)
  · refine ⟨_, Encoder.chunk_eq (by decide) (by decide) hchunk ?_, ?_⟩
    · rw [hlen]
      decide
    · exact Encoder.encode_eq (length_rowsOf ..) hcount hrows hsize (by decide) (by decide) henc

theorem coded_of_recovers (hlen : chunk.length = erasureCodingChunkSize)
    (h : simd.Recovers recoveryShards chunkShardSize (rowsOf chunkShardSize originalShards chunk)) :
    ∃ word, Coded simd chunk word := by
  obtain ⟨recovery, henc, hcount, hsize, hdec⟩ := h
  have hchunk : chunk.length = originalShards * chunkShardSize := hlen
  rw [length_rowsOf] at henc
  rw [length_rowsOf] at hdec
  refine ⟨_, encoded_of_answer hlen henc hcount hsize, ?_⟩
  intro keep hkeep
  obtain ⟨restored, hrestored, hperm⟩ := hdec keep hkeep
  obtain ⟨shards, hshards, hle, htake⟩ := Encoder.decode_erased (r := coder) (length_rowsOf ..)
    hcount (fun _ => length_of_mem_rowsOf hchunk) hsize (by decide) (by decide) hkeep
    (by rwa [length_rowsOf]) hperm
  refine ⟨shards, hshards, hle, ?_⟩
  rw [show originalShards = coder.originalShardsCount from rfl, htake]
  exact flatten_rowsOf hchunk

end

def column (words : List (List Shard)) (j : Nat) : Shard :=
  (words.map fun word => word.getD j []).flatten

variable {chunks : List (List UInt8)} {words : List (List Shard)}

variable {word : List Shard} {j : Nat} {keep : Nat → Bool}

theorem getD_size (hlen : word.length = originalShards + recoveryShards)
    (hsizes : ∀ shard ∈ word, shard.length = chunkShardSize)
    (hj : j < originalShards + recoveryShards) : (word.getD j []).length = chunkShardSize := by
  rw [getD_eq_getElem _ _ (hlen ▸ hj)]
  exact hsizes _ (getElem_mem _)

def Regular (words : List (List Shard)) : Prop :=
  ∀ word ∈ words, word.length = originalShards + recoveryShards ∧
    ∀ shard ∈ word, shard.length = chunkShardSize

theorem Regular.parts (h : Regular words) (hj : j < originalShards + recoveryShards) :
    ∀ part ∈ words.map (fun word => word.getD j []), part.length = chunkShardSize := by
  intro part hpart
  obtain ⟨word, hword, rfl⟩ := mem_map.mp hpart
  exact getD_size (h word hword).1 (h word hword).2 hj

theorem Regular.length_column (h : Regular words) (hj : j < originalShards + recoveryShards) :
    (column words j).length = words.length * chunkShardSize := by
  rw [column, length_flatten_of_forall (h.parts hj), length_map]

def written (words : List (List Shard)) (room : Nat) : List Shard :=
  (List.range (originalShards + recoveryShards)).map fun j =>
    column words j ++ .replicate (room * chunkShardSize) 0

theorem copyParts_written {room : Nat} (hregular : Regular words)
    (hlen : word.length = originalShards + recoveryShards)
    (hsizes : ∀ shard ∈ word, shard.length = chunkShardSize) :
    copyParts words.length word (written words (room + 1)) =
      .ret (written (words ++ [word]) room) := by
  have hpart : ∀ p ∈ (written words (room + 1)).zipIdx,
      (do let part ← indexAt word p.2; copyWindow p.1 (words.length * chunkShardSize) part) =
        (pure (column (words ++ [word]) p.2 ++ .replicate (room * chunkShardSize) 0) :
          Outcome Shard) := by
    rintro ⟨shard, j⟩ hmem
    have hget := mem_zipIdx_iff_getElem?.mp hmem
    have hj : j < originalShards + recoveryShards := by
      simpa [written] using (List.getElem?_eq_some_iff.mp hget).1
    have hshard : shard = column words j ++ .replicate ((room + 1) * chunkShardSize) 0 := by
      simpa [written, hj] using hget.symm
    have hsize := getD_size hlen hsizes hj
    have hcolumn := hregular.length_column hj
    rw [indexAt_of_lt (hlen ▸ hj), ret_bind, copyWindow, if_pos]
    · rw [← getD_eq_getElem word [] (hlen ▸ hj),
        take_of_length_le (Nat.le_of_eq hsize), hshard, ← hcolumn, copyAt_append, hsize,
        drop_replicate, Nat.succ_mul, Nat.add_sub_cancel]
      · simp [column]
      · rw [length_replicate, hsize, Nat.succ_mul]
        exact Nat.le_add_left _ _
    · rw [hshard, length_append, hcolumn, length_replicate, Nat.succ_mul]
      omega
  unfold copyParts
  rw [mapM_eq_pure hpart]
  refine congrArg Outcome.ret ?_
  apply ext_getElem
  · simp [written]
  · simp [written]

theorem regular_of_encoded (h : List.Forall₂ (Encoded simd) chunks words) : Regular words := by
  intro word hword
  obtain ⟨chunk, -, hencoded⟩ := exists_of_mem_right h hword
  exact ⟨hencoded.length, hencoded.sizes⟩

theorem encode_loop {seen : List (List Shard)} (hseen : Regular seen)
    (h : List.Forall₂ (Encoded simd) chunks words) :
    (chunks.zipIdx seen.length).foldlM (fun finalShards p => do
      let shards ← coder.chunk p.1
      let shards ← coder.encode simd shards
      copyParts p.2 shards finalShards) (written seen chunks.length) =
      (.ok (written (seen ++ words) 0) : Call CodingError (List Shard)) := by
  induction h generalizing seen with
  | nil =>
    rw [append_nil]
    rfl
  | @cons chunk word chunks words hencoded _ ih =>
    obtain ⟨shards, hchunk, henc⟩ := hencoded.encodes
    have hnext : Regular (seen ++ [word]) := by
      intro w hw
      rcases mem_append.mp hw with hw | hw
      · exact hseen w hw
      · rw [mem_singleton.mp hw]
        exact ⟨hencoded.length, hencoded.sizes⟩
    refine Call.bind_eq_ok.mpr ⟨written (seen ++ [word]) chunks.length, ?_, ?_⟩
    · refine Call.bind_eq_ok.mpr ⟨_, hchunk, Call.bind_eq_ok.mpr ⟨_, henc, ?_⟩⟩
      exact lift_outcome_eq_ok.mpr (copyParts_written hseen hencoded.length hencoded.sizes)
    · have hrest := ih hnext
      rwa [length_append, length_singleton, append_assoc] at hrest

theorem encode_eq (hdata : data ≠ []) (hmax : data.length ≤ maxWorkPackageSize)
    (h : List.Forall₂ (Encoded simd) (chunksOf data) words) :
    encode simd data = .ok (written words 0) := by
  have hcount := chunkCount_pos (n := erasureCodingChunkSize) (by decide) hdata
  refine bind_of_check (by simpa using hdata) ?_
  refine bind_of_check (by simpa using hmax) ?_
  refine bind_of_ret unzip_data ?_
  refine bind_of_check ?_ ?_
  · simpa using Nat.ne_of_gt hcount
  have hempty : written [] (chunksOf data).length = .replicate (originalShards + recoveryShards)
      (.replicate ((chunksOf data).length * chunkShardSize) 0) := by
    simp [written, column]
  rw [← hempty]
  exact encode_loop (show Regular [] from nofun) h

theorem parts_erased (hregular : Regular words) {i : Nat} (hi : i < words.length) :
    ((erased keep (written words 0)).mapM fun s =>
      if s.length = 0 then (return [] : Call CodingError Shard)
      else sliceOf s (i * chunkShardSize) (i * chunkShardSize + chunkShardSize)) =
      .ok (erased keep words[i]) := by
  obtain ⟨hlen, -⟩ := hregular words[i] (getElem_mem hi)
  rw [Call.mapM_eq_ok]
  refine forall₂_iff_get.mpr ⟨by simp [written, hlen], ?_⟩
  intro j hj hj'
  have hlt : j < originalShards + recoveryShards := by simpa [written] using hj
  have hshard : (erased keep (written words 0)).get ⟨j, hj⟩ =
      if keep j then column words j else [] := by
    have hget : (erased keep (written words 0))[j]? = _ := getElem?_erased j
    simpa [written, hlt] using hget
  have hpart : (erased keep words[i]).get ⟨j, hj'⟩ =
      if keep j then words[i].getD j [] else [] := by
    have hget : (erased keep words[i])[j]? = _ := getElem?_erased j
    simpa [hlen, hlt] using hget
  rw [hshard, hpart]
  cases keep j with
  | false => rfl
  | true =>
    have hcolumn := hregular.length_column hlt
    have hle : (i + 1) * chunkShardSize ≤ words.length * chunkShardSize :=
      Nat.mul_le_mul_right _ hi
    rw [Nat.succ_mul] at hle
    have hsize : chunkShardSize = 2 := rfl
    rw [if_pos rfl, if_pos rfl, if_neg (by omega), lift_outcome_eq_ok,
      sliceOf_of_le (Nat.le_add_right _ _) (by omega), Nat.add_sub_cancel_left, column,
      take_drop_flatten (hregular.parts hlt) (by simpa using hi), getElem_map]

theorem decode_loop (h : List.Forall₂ (Coded simd) chunks words)
    (hkeep : originalShards ≤ (List.range (originalShards + recoveryShards)).countP keep) :
    ((words.map (erased keep)).mapM fun c => do
      let c ← coder.decode simd c
      let original ← sliceOf c 0 originalShards
      return original.flatten) = (.ok chunks : Call CodingError (List (List UInt8))) := by
  rw [Call.mapM_eq_ok, forall₂_map_left_iff]
  refine h.flip.imp ?_
  intro word chunk hcoded
  obtain ⟨shards, hdec, hle, hflatten⟩ := hcoded.decodes keep hkeep
  refine Call.bind_eq_ok.mpr ⟨_, hdec, ?_⟩
  refine bind_of_ret (sliceOf_of_le (Nat.zero_le _) hle) ?_
  refine Call.pure_eq_ok.mpr ?_
  rwa [drop_zero, Nat.sub_zero]

theorem decode_eq (hdata : data ≠ []) (h : List.Forall₂ (Coded simd) (chunksOf data) words)
    (hkeep : originalShards ≤ (List.range (originalShards + recoveryShards)).countP keep) :
    decode simd (erased keep (written words 0)) data.length = .ok data := by
  have hregular := regular_of_encoded (h.imp fun _ _ hcoded => hcoded.toEncoded)
  have hcount := chunkCount_pos (n := erasureCodingChunkSize) (by decide) hdata
  have hwords : words.length = chunkCount erasureCodingChunkSize data := by
    rw [← h.length_eq, length_columns]
  have hsizes : ∀ shard ∈ written words 0, shard.length = words.length * chunkShardSize := by
    intro shard hshard
    obtain ⟨j, hj, rfl⟩ := mem_map.mp hshard
    simpa using hregular.length_column (mem_range.mp hj)
  have hpos : words.length * chunkShardSize ≠ 0 := by
    rw [hwords]
    exact Nat.ne_of_gt (Nat.mul_pos hcount (by decide))
  have hleft : originalShards ≤ shardCount (erased keep (written words 0)) := by
    rw [shardCount_erased hsizes hpos]
    simpa [written] using hkeep
  have hshardSize : shardSize (erased keep (written words 0)) = words.length * chunkShardSize :=
    shardSize_erased hsizes (Nat.lt_of_lt_of_le (by decide) hleft)
  have hlen : data.length ≤ chunkCount erasureCodingChunkSize data * erasureCodingChunkSize :=
    length_le_chunks (by decide)
  unfold decode
  dsimp only
  rw [hshardSize, Nat.mul_div_cancel _ (by decide)]
  refine bind_of_check (by simpa using hleft) ?_
  refine bind_of_check (by simp) ?_
  refine bind_of_check ?_ ?_
  · have hproduct : words.length * chunkShardSize * originalShards =
        chunkCount erasureCodingChunkSize data * erasureCodingChunkSize := by
      rw [hwords, Nat.mul_assoc]
      rfl
    rw [decide_eq_true_iff]
    omega
  refine Call.bind_eq_ok.mpr ⟨coder, rfl, ?_⟩
  refine Call.bind_eq_ok.mpr ⟨words.map (erased keep), ?_, ?_⟩
  · rw [Call.mapM_eq_ok]
    refine forall₂_iff_get.mpr ⟨by simp, ?_⟩
    intro i hi hi'
    have hlt : i < words.length := by simpa using hi
    simpa using parts_erased hregular hlt
  refine Call.bind_eq_ok.mpr ⟨_, decode_loop h hkeep, ?_⟩
  exact lift_outcome_eq_ok.mpr (lace_columns hcount hlen)

@[simp] theorem length_written {room : Nat} :
    (written words room).length = 1023 := by
  simp [written]
  rfl

/-- The crate's part in `encode` alone: it answers every word of original shards with recovery
shards of the right number and size. -/
def ReedSolomonSimd.Encodes (simd : ReedSolomonSimd) : Prop :=
  ∀ original : List Shard, original.length = originalShards →
    (∀ shard ∈ original, shard.length = chunkShardSize) →
    ∃ recovery, simd.encode originalShards recoveryShards original = some recovery ∧
      recovery.length = recoveryShards ∧ ∀ shard ∈ recovery, shard.length = chunkShardSize

theorem ReedSolomonSimd.Encodes.encode (h : simd.Encodes) (hdata : data ≠ [])
    (hmax : data.length ≤ maxWorkPackageSize) :
    ∃ shards, ErasureCoding.encode simd data = .ok shards ∧ shards.length = 1023 := by
  obtain ⟨words, hwords⟩ : ∃ words, List.Forall₂ (Encoded simd) (chunksOf data) words := by
    refine exists_forall₂ fun chunk hchunk => ?_
    have hlen := length_of_mem_columns 0 hchunk
    obtain ⟨recovery, henc, hcount, hsize⟩ :=
      h _ (length_rowsOf ..) fun _ => length_of_mem_rowsOf hlen
    exact ⟨_, encoded_of_answer hlen henc hcount hsize⟩
  exact ⟨_, encode_eq hdata hmax hwords, length_written⟩

theorem countP_range (n : Nat) (keep : Nat → Bool) :
    (List.range n).countP keep = ((Finset.range n).filter fun i => keep i).card := by
  rw [countP_eq_length_filter, ← toFinset_card_of_nodup (nodup_range.filter _)]
  refine congrArg _ (Finset.ext ?_)
  intro i
  simp

/-- Any 342 of the 1023 shards give the data back, if the crate recovers the chunks of the data. -/
theorem recovery_from_any_third {simd : ReedSolomonSimd} {data : List UInt8} (hdata : data ≠ [])
    (hmax : data.length ≤ maxWorkPackageSize)
    (hcoder : ∀ chunks, unzip erasureCodingChunkSize data = .ret chunks → ∀ chunk ∈ chunks,
      simd.Recovers recoveryShards chunkShardSize (rowsOf chunkShardSize originalShards chunk)) :
    ∃ shards, encode simd data = .ok shards ∧ shards.length = 1023 ∧
      ∀ keep : Finset Nat, keep ⊆ Finset.range 1023 → 342 ≤ keep.card →
        decode simd (erased (fun i => i ∈ keep) shards) data.length = .ok data := by
  obtain ⟨words, hwords⟩ := exists_forall₂ fun chunk hchunk =>
    coded_of_recovers (length_of_mem_columns 0 hchunk) (hcoder _ unzip_data chunk hchunk)
  refine ⟨written words 0, encode_eq hdata hmax (hwords.imp fun _ _ h => h.toEncoded),
    length_written, ?_⟩
  intro keep hsubset hcard
  refine decode_eq hdata hwords (Nat.le_trans hcard (Nat.le_of_eq ?_))
  have htotal : originalShards + recoveryShards = 1023 := rfl
  rw [countP_range, htotal]
  simp only [decide_eq_true_eq]
  rw [Finset.filter_mem_eq_inter, Finset.inter_eq_right.mpr hsubset]

-- A code for every word would need a field with 2 ^ 16 elements. For one word it is enough that
-- the crate has the original shards and gives out those that are missing.
def knowing (original : List Shard) : ReedSolomonSimd where
  encode _ recoveryCount _ := some (.replicate recoveryCount [0, 0])
  decode _ _ kept _ := some (indexed (fun i => i ∉ kept.map Prod.fst) original)

theorem knowing_encodes (original : List Shard) : (knowing original).Encodes :=
  fun _ _ _ => ⟨_, rfl, length_replicate, fun _ hshard => by rw [eq_of_mem_replicate hshard]; rfl⟩

theorem knowing_recovers (original : List Shard) (recoveryCount : Nat) :
    (knowing original).Recovers recoveryCount chunkShardSize original := by
  refine ⟨_, rfl, length_replicate, ?_, fun keep _ => ⟨_, rfl, .of_eq ?_⟩⟩
  · intro shard hshard
    rw [eq_of_mem_replicate hshard]
    rfl
  refine congrArg _ (filter_congr ?_)
  intro p hp
  have hget := mem_zipIdx_iff_getElem?.mp hp
  rw [Bool.eq_iff_iff, decide_eq_true_iff, Bool.not_eq_true', ← Bool.not_eq_true]
  refine not_congr ?_
  rw [mem_map]
  constructor
  · rintro ⟨q, hq, hplace⟩
    exact hplace ▸ (mem_indexed.mp hq).2
  · intro hkept
    exact ⟨p.swap, mem_indexed.mpr ⟨hget, hkept⟩, rfl⟩

def oneOctet : ReedSolomonSimd :=
  knowing (rowsOf chunkShardSize originalShards (chunksOf [7]).flatten)

theorem recovery_of_one_octet : ∃ shards, encode oneOctet [7] = .ok shards ∧
      decode oneOctet (erased (fun i => i ∈ Finset.Ico 681 1023) shards) 1 = .ok [7] := by
  obtain ⟨only, honly⟩ : ∃ only, chunksOf [7] = [only] := length_eq_one_iff.mp (length_columns ..)
  have hcoder : ∀ chunks, unzip erasureCodingChunkSize [7] = .ret chunks → ∀ chunk ∈ chunks,
      oneOctet.Recovers recoveryShards chunkShardSize
        (rowsOf chunkShardSize originalShards chunk) := by
    intro chunks hchunks chunk hchunk
    obtain rfl : chunksOf [7] = chunks := Outcome.ret.inj (unzip_data.symm.trans hchunks)
    rw [honly, mem_singleton] at hchunk
    rw [oneOctet, honly, flatten_singleton, hchunk]
    exact knowing_recovers _ _
  obtain ⟨shards, henc, -, hdec⟩ :=
    recovery_from_any_third (cons_ne_nil _ _) (by simp [maxWorkPackageSize]) hcoder
  refine ⟨shards, henc, hdec (Finset.Ico 681 1023) ?_ (by simp)⟩
  intro i hi
  exact Finset.mem_range.mpr (Finset.mem_Ico.mp hi).2

end Strawberry.ErasureCoding
