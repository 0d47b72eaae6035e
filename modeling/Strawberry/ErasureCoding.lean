import Strawberry.Common
import Strawberry.Lib.Checks
import Strawberry.Lib.Rows

/-!
# Erasure coding

Packages `erasurecoding` and `reedsolomon`. The crate `reed_solomon_simd` is an argument.
-/

namespace Strawberry.ErasureCoding

open Constants

abbrev Shard := List UInt8

def maxWorkPackageSize : Nat := 12 * 2 ^ 20
def erasureCodingChunkSize : Nat := 684
def originalShards : Nat := 342
def recoveryShards : Nat := numberOfValidators - originalShards
def chunkShardSize : Nat := erasureCodingChunkSize / originalShards
def maxShards : Nat := 65535
def maxShardSize : Nat := 1024
def maxInt : Nat := 2 ^ 63 - 1

inductive CodingError where
  | dataLengthZero
  | dataLengthTooLong
  | creatingEncoder
  | unzipData
  | tooFewShards
  | invalidShardSize
  | outSizeTooLong
  | shardCountOverflow
  | tooManyTotalShards
  | dataLengthTooShort
  | tooFewOriginalShards
  | noSpaceForRecoveryShards
  | inconsistentShardSize
  | unableToEncode
  | unableToDecode
  deriving DecidableEq

structure ReedSolomonSimd where
  encode : Nat → Nat → List Shard → Option (List Shard)
  decode : Nat → Nat → List (Nat × Shard) → List (Nat × Shard) → Option (List (Nat × Shard))

def copyShards (out : List UInt8) (shardSize : Nat) (shards : List Shard) : Outcome (List UInt8) :=
  shards.zipIdx.foldlM (fun out p =>
    if p.1.length = shardSize ∧ p.2 * shardSize + shardSize ≤ out.length then
      .ret (copyAt out (p.2 * shardSize) p.1)
    else .crash .sliceOutOfRange) out

def chunks (shardSize : Nat) (flat : List UInt8) : List Shard :=
  rowsOf shardSize (flat.length / shardSize) flat

variable (simd : ReedSolomonSimd)

def reedSolomonEncode (originalShardsCount recoveryShardsCount shardSize : Nat)
    (originalShards recoveryShardsOut : List UInt8) : Outcome (Option (List UInt8)) :=
  if originalShardsCount + recoveryShardsCount ≤ maxShards ∧
      (0 < originalShardsCount ∧ 0 < recoveryShardsCount) ∧
      (0 < shardSize ∧ shardSize % 2 = 0) ∧
      originalShards.length % shardSize = 0 ∧
      originalShards.length / shardSize = originalShardsCount ∧
      recoveryShardsOut.length = recoveryShardsCount * shardSize then
    match simd.encode originalShardsCount recoveryShardsCount (chunks shardSize originalShards) with
    | some recovery => some <$> copyShards recoveryShardsOut shardSize recovery
    | none => .ret none
  else .ret none

def reedSolomonDecode (originalShardsCount recoveryShardsCount shardSize : Nat)
    (originalShards : List UInt8) (originalShardsIndexes : List Nat)
    (recoveryShards : List UInt8) (recoveryShardsIndexes : List Nat)
    (recoveredShardsOut : List UInt8) (recoveredShardsIndexesOut : List Nat) :
    Outcome (Option (List UInt8 × List Nat)) :=
  if originalShardsCount + recoveryShardsCount ≤ maxShards ∧
      (0 < originalShardsCount ∧ 0 < recoveryShardsCount) ∧
      (0 < shardSize ∧ shardSize % 2 = 0) ∧
      originalShards.length % shardSize = 0 ∧
      recoveryShards.length % shardSize = 0 ∧
      recoveredShardsOut.length =
        shardSize * (originalShardsCount - originalShards.length / shardSize) then
    let originalInputs := originalShardsIndexes.zip (chunks shardSize originalShards)
    let recoveryInputs := recoveryShardsIndexes.zip (chunks shardSize recoveryShards)
    match simd.decode originalShardsCount recoveryShardsCount originalInputs recoveryInputs with
    | some restored => do
      let out ← copyShards recoveredShardsOut shardSize (restored.map (·.2))
      .ret (some (out, copyAt recoveredShardsIndexesOut 0 (restored.map (·.1))))
    | none => .ret none
  else .ret none

structure Encoder where
  originalShardsCount : Nat
  recoveryShardsCount : Nat

def Encoder.new (originalShardsCount recoveryShardsCount : Nat) : Except CodingError Encoder := do
  check (recoveryShardsCount ≤ maxInt - originalShardsCount) .shardCountOverflow
  check (originalShardsCount + recoveryShardsCount ≤ maxShards) .tooManyTotalShards
  return ⟨originalShardsCount, recoveryShardsCount⟩

def shardSize : List Shard → Nat
  | [] => 0
  | shard :: shards => if shard.length ≠ 0 then shard.length else shardSize shards

def shardCount (shards : List Shard) : Nat := shards.countP fun shard => shard.length ≠ 0

namespace Encoder

variable (r : Encoder)

def chunk (data : List UInt8) : Call CodingError (List Shard) := do
  Call.check (data.length ≤ maxWorkPackageSize) .dataLengthTooLong
  Call.check (r.originalShardsCount * 2 ≤ data.length) .dataLengthTooShort
  let shardSize := (data.length + r.originalShardsCount - 1) / r.originalShardsCount
  let full ← (List.range (r.originalShardsCount - 1)).mapM fun i =>
    (sliceOf data (i * shardSize) (i * shardSize + shardSize) : Call CodingError Shard)
  let last ← sliceOf data ((r.originalShardsCount - 1) * shardSize) data.length
  let padded := copyAt (.replicate shardSize 0) 0 last
  return full ++ [padded] ++ .replicate r.recoveryShardsCount []

def flatten (shardSize : Nat) (shards : List Shard) : Except CodingError (List UInt8) :=
  shards.zipIdx.foldlM (fun flat p => do
    check (p.1.length = shardSize) .inconsistentShardSize
    return copyAt flat (p.2 * shardSize) p.1) (.replicate (r.originalShardsCount * shardSize) 0)

def encode (shards : List Shard) : Call CodingError (List Shard) := do
  let original ← sliceOf shards 0 r.originalShardsCount
  Call.check (shardCount original = r.originalShardsCount) .tooFewOriginalShards
  Call.check (shards.length = r.originalShardsCount + r.recoveryShardsCount)
    .noSpaceForRecoveryShards
  let shardSize := shardSize shards
  Call.check (shardSize ≠ 0 ∧ shardSize ≤ maxShardSize) .invalidShardSize
  let flatOriginalShards ← r.flatten shardSize original
  let result ← reedSolomonEncode simd r.originalShardsCount r.recoveryShardsCount shardSize
    flatOriginalShards (.replicate (r.recoveryShardsCount * shardSize) 0)
  let recoveryShardsOut ← orError result CodingError.unableToEncode
  return original ++ rowsOf shardSize r.recoveryShardsCount recoveryShardsOut

def collect (shardSize : Nat) (shards : List Shard) : Except CodingError (List UInt8 × List Nat) :=
  shards.zipIdx.foldlM (fun flat p =>
    if p.1.length ≠ 0 then do
      check (p.1.length = shardSize) .inconsistentShardSize
      return (flat.1 ++ p.1, flat.2 ++ [p.2])
    else return flat) ([], [])

def store (shards : List Shard) (index : Nat) (shard : Shard) : Outcome (List Shard) :=
  if index < shards.length then .ret (shards.set index shard) else .crash .indexOutOfRange

def decode (shards : List Shard) : Call CodingError (List Shard) := do
  Call.check (r.originalShardsCount ≤ shardCount shards) .tooFewShards
  let shardSize := shardSize shards
  Call.check (shardSize ≠ 0 ∧ shardSize ≤ maxShardSize) .invalidShardSize
  let original ← sliceOf shards 0 r.originalShardsCount
  let flatOriginal ← collect shardSize original
  let recovery ← sliceOf shards r.originalShardsCount shards.length
  let flatRecovery ← collect shardSize recovery
  let restoredShardsCount := r.originalShardsCount - shardCount original
  let result ← reedSolomonDecode simd r.originalShardsCount r.recoveryShardsCount shardSize
    flatOriginal.1 flatOriginal.2 flatRecovery.1 flatRecovery.2
    (.replicate (restoredShardsCount * shardSize) 0) (.replicate restoredShardsCount 0)
  let restored ← orError result CodingError.unableToDecode
  let pairs := restored.2.zip (rowsOf shardSize restoredShardsCount restored.1)
  pairs.foldlM (fun shards p => (store shards p.1 p.2 : Call CodingError (List Shard))) shards

end Encoder

def setCell (result : List (List UInt8)) (row column : Nat) (b : UInt8) :
    Outcome (List (List UInt8)) := do
  let cells ← indexAt result row
  if column < cells.length then .ret (result.set row (cells.set column b))
  else .crash .indexOutOfRange

def unzip (n : Nat) (data : List UInt8) : Outcome (List (List UInt8)) :=
  if n = 0 then .ret []
  else
    let k := (data.length + n - 1) / n
    data.zipIdx.foldlM (fun result p => setCell result (p.2 % k) (p.2 / k) p.1)
      (.replicate k (.replicate n 0))

def lace (chunks : List (List UInt8)) (outSize : Int) : Outcome (List UInt8) :=
  match chunks with
  | [] => .ret []
  | _ =>
    let k := chunks.length
    if outSize < 0 then .crash .makeLenOutOfRange
    else (List.range outSize.toNat).mapM fun i => do
      let chunk ← indexAt chunks (i % k)
      indexAt chunk (i / k)

def copyWindow (shard : Shard) (start : Nat) (part : Shard) : Outcome Shard :=
  if start + chunkShardSize ≤ shard.length then
    .ret (copyAt shard start (part.take chunkShardSize))
  else .crash .sliceOutOfRange

def copyParts (i : Nat) (shards finalShards : List Shard) : Outcome (List Shard) :=
  finalShards.zipIdx.mapM fun p => do
    let part ← indexAt shards p.2
    copyWindow p.1 (i * chunkShardSize) part

def encode (data : List UInt8) : Call CodingError (List Shard) := do
  Call.check (data.length ≠ 0) .dataLengthZero
  Call.check (data.length ≤ maxWorkPackageSize) .dataLengthTooLong
  let encoder ← (Encoder.new originalShards recoveryShards).mapError fun _ =>
    CodingError.creatingEncoder
  let chunks ← unzip erasureCodingChunkSize data
  Call.check (chunks.length ≠ 0) .unzipData
  let finalShards := .replicate (originalShards + recoveryShards)
    (.replicate (chunks.length * chunkShardSize) 0)
  chunks.zipIdx.foldlM (fun finalShards p => do
    let shards ← encoder.chunk p.1
    let shards ← encoder.encode simd shards
    copyParts p.2 shards finalShards) finalShards

def decode (shards : List Shard) (outSize : Int) : Call CodingError (List UInt8) := do
  Call.check (originalShards ≤ shardCount shards) .tooFewShards
  let shardSize := shardSize shards
  Call.check (shardSize % chunkShardSize = 0) .invalidShardSize
  Call.check (outSize ≤ shardSize * originalShards) .outSizeTooLong
  let encoder ← (Encoder.new originalShards recoveryShards).mapError fun _ =>
    CodingError.creatingEncoder
  let noChunks := shardSize / chunkShardSize
  let chunkShards ← (List.range noChunks).mapM fun j => shards.mapM fun s =>
    if s.length = 0 then (return [] : Call CodingError Shard)
    else sliceOf s (j * chunkShardSize) (j * chunkShardSize + chunkShardSize)
  let unzippedChunks ← chunkShards.mapM fun c => do
    let c ← encoder.decode simd c
    let original ← sliceOf c 0 originalShards
    return original.flatten
  lace unzippedChunks outSize

end Strawberry.ErasureCoding
