import Mathlib.Algebra.Order.Floor.Ring
import Mathlib.Algebra.Order.Ring.Rat
import Mathlib.Data.Rat.Floor
import Strawberry.Common

/-!
# Merkle trees

Packages `binary_tree` and `mountain_ranges`, as far as the state transition uses them.
The hash function is an argument.
-/

namespace Strawberry.Merkle

variable (H : HashData)

def computeNode (blobs : List (List UInt8)) : List UInt8 :=
  match blobs with
  | [] => []
  | [blob] => (H blob).toList
  | b₀ :: b₁ :: rest =>
    let blobs := b₀ :: b₁ :: rest
    let mid := blobs.length / 2
    (H (ascii "node" ++ computeNode (blobs.take mid) ++ computeNode (blobs.drop mid))).toList
termination_by blobs.length
decreasing_by
  · simp only [List.length_take, List.length_cons]
    omega
  · simp only [List.length_drop, List.length_cons]
    omega

def computeWellBalancedRoot (blobs : List (List UInt8)) : Hash :=
  match blobs with
  | [] => .replicate 32 0
  | [blob] => H blob
  | _ => hashOf (computeNode H blobs)

def placePeak : List (Option Hash) → Hash → List (Option Hash)
  | [], item => [some item]
  | none :: peaks, item => some item :: peaks
  | some peak :: peaks, item => none :: placePeak peaks (H (peak.toList ++ item.toList))

def append (r : List (Option Hash)) (l : Hash) : List (Option Hash) := placePeak H r l

def superPeakOf : List Hash → Hash
  | [] => .replicate 32 0
  | [peak] => peak
  | peak :: peaks =>
    H (ascii "peak" ++ (superPeakOf peaks).toList ++ peak.toList)

def superPeak (peaks : List (Option Hash)) : Hash :=
  superPeakOf H (peaks.filterMap id).reverse

def toInt (z : Int) : Int := z.bmod (2 ^ 64)

def shiftOne (x : Nat) : Int := toInt (2 ^ x)

def indexAtInt {α : Type} (xs : List α) (i : Int) : Outcome α :=
  if i < 0 then .crash .indexOutOfRange else indexAt xs i.toNat

variable (log2 : Nat → ℚ) (H : HashData)

def leafHash (blob : List UInt8) : Hash := H (ascii "leaf" ++ blob)

def preprocessForConstantDepth (blobs : List (List UInt8)) : Outcome (List (List UInt8)) :=
  match blobs with
  | [] => .ret []
  | _ =>
    let targetLen := shiftOne ⌈log2 blobs.length⌉.toNat
    if targetLen < 0 then .crash .makeLenOutOfRange
    else if targetLen < blobs.length then .crash .indexOutOfRange
    else .ret (blobs.map (fun blob => (leafHash H blob).toList) ++
      .replicate (targetLen.toNat - blobs.length) [])

def computeConstantDepthRoot (blobs : List (List UInt8)) : Outcome Hash :=
  match blobs with
  | [] => .ret (.replicate 32 0)
  | _ => do
    let preprocessed ← preprocessForConstantDepth log2 H blobs
    return hashOf (computeNode H preprocessed)

def getMid (blobs : List (List UInt8)) : Nat := (blobs.length + 1) / 2

def computeP (blobs : List (List UInt8)) (index : Int) (s : Bool) : List (List UInt8) :=
  if decide (index < getMid blobs) == s then blobs.take (getMid blobs)
  else blobs.drop (getMid blobs)

def computePi (blobs : List (List UInt8)) (index : Int) : Int :=
  if index < getMid blobs then 0 else getMid blobs

def computeTrace (blobs : List (List UInt8)) (index : Int) : List (List UInt8) :=
  if blobs.length ≤ 1 then []
  else
    computeNode H (computeP blobs index false) ::
      computeTrace (computeP blobs index true) (toInt (index - computePi blobs index))
termination_by blobs.length
decreasing_by
  unfold computeP getMid
  split
  · rw [List.length_take]
    omega
  · rw [List.length_drop]
    omega

def convertBlobsToHashes (blobs : List (List UInt8)) : List Hash := blobs.map hashOf

def generatePageProof (blobs : List (List UInt8)) (pageIndex : Int) (x : Nat) :
    Outcome (List Hash) :=
  match blobs with
  | [] => .ret []
  | _ => do
    let preprocessed ← preprocessForConstantDepth log2 H blobs
    let fullTrace := computeTrace H preprocessed (toInt (shiftOne x * pageIndex))
    let maxLen := max 0 (⌊log2 blobs.length⌋ - x)
    if maxLen = 0 then return []
    else
      let trace ← sliceOf fullTrace 0 maxLen.toNat
      return convertBlobsToHashes trace

def getLeafPage (blobs : List (List UInt8)) (pageIndex : Int) (x : Nat) : Outcome (List Hash) :=
  if blobs = [] ∨ 64 ≤ x then .ret []
  else
    let pageStart := toInt (shiftOne x * pageIndex)
    let pageEnd := min (toInt (pageStart + shiftOne x)) blobs.length
    if toInt (pageEnd - pageStart) < 0 then .crash .makeLenOutOfRange
    else (List.range (pageEnd - pageStart).toNat).mapM fun (j : Nat) => do
      let blob ← indexAtInt blobs (pageStart + j)
      return leafHash H blob

end Strawberry.Merkle
