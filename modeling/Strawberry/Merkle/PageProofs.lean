import Strawberry.Codec.Naturals
import Strawberry.Lib.Rows
import Strawberry.Merkle.WellBalanced

/-!
# Page proofs

The tree has as many leaves as the next power of two, while a page proof has as many digests as the
last power of two asks for.
-/

namespace Strawberry.Merkle

open List

structure Exact (log2 : Nat → ℚ) (n : Nat) : Prop where
  floor : ⌊log2 n⌋ = Nat.log 2 n
  ceil : ⌈log2 n⌉ = Nat.clog 2 n

def paddedPage (n x : Nat) (leaves : List Hash) : List (List UInt8) :=
  leaves.map (·.toList) ++ .replicate (2 ^ min x (Nat.clog 2 n) - leaves.length) []

def Reproduces (log2 : Nat → ℚ) (H : HashData) (blobs : List (List UInt8))
    (pageIndex x : Nat) : Prop :=
  ∃ leaves proof root, getLeafPage H blobs pageIndex x = .ret leaves ∧
    generatePageProof log2 H blobs pageIndex x = .ret proof ∧
    computeConstantDepthRoot log2 H blobs = .ret root ∧
    climb (nodeDigest H) (computeNode H (paddedPage blobs.length x leaves))
      (proof.map (·.toList)).reverse pageIndex = root.toList

theorem toInt_of_lt {n : Nat} (h : n < 2 ^ 63) : toInt n = n :=
  Int.bmod_eq_of_le (by omega) (by omega)

theorem shiftOne_of_le {x : Nat} (h : x ≤ 62) : shiftOne x = (2 ^ x : Nat) := by
  have hlt : 2 ^ x < 2 ^ 63 := Nat.pow_lt_pow_right (by decide) (by omega)
  rw [shiftOne, ← toInt_of_lt hlt]
  norm_cast

def treeLeaves (H : HashData) (blobs : List (List UInt8)) : List (List UInt8) :=
  blobs.map (fun blob => (leafHash H blob).toList) ++
    .replicate (2 ^ Nat.clog 2 blobs.length - blobs.length) []

section

variable {log2 : Nat → ℚ} {H : HashData} {blobs : List (List UInt8)} (hne : blobs ≠ [])
  (hceil : ⌈log2 blobs.length⌉ = Nat.clog 2 blobs.length) (hmax : blobs.length ≤ 2 ^ 62)

theorem le_pow_clog (n : Nat) : n ≤ 2 ^ Nat.clog 2 n := Nat.le_pow_clog (by decide) n

theorem length_treeLeaves : (treeLeaves H blobs).length = 2 ^ Nat.clog 2 blobs.length := by
  rw [treeLeaves, length_append, length_map, length_replicate, Nat.add_sub_cancel' (le_pow_clog _)]

theorem treeLeaves_ne_nil : treeLeaves H blobs ≠ [] :=
  ne_nil_of_length_pos (by rw [length_treeLeaves]; exact Nat.two_pow_pos _)

theorem mem_treeLeaves {leaf : List UInt8} (h : leaf ∈ treeLeaves H blobs) :
    leaf = [] ∨ leaf.length = 32 := by
  rcases mem_append.mp h with h | h
  · obtain ⟨blob, -, rfl⟩ := mem_map.mp h
    exact .inr Vector.length_toList
  · exact .inl (eq_of_mem_replicate h)

include hmax in
theorem clog_le : Nat.clog 2 blobs.length ≤ 62 :=
  (Nat.clog_le_iff_le_pow (by decide)).mpr hmax

include hne hceil hmax

theorem preprocess_eq : preprocessForConstantDepth log2 H blobs = .ret (treeLeaves H blobs) := by
  have hle := le_pow_clog blobs.length
  unfold preprocessForConstantDepth
  split
  · exact absurd rfl hne
  · rw [hceil, Int.toNat_natCast, shiftOne_of_le (clog_le hmax),
      if_neg (Int.not_lt.mpr (Int.natCast_nonneg _)), if_neg (by exact_mod_cast Nat.not_lt.mpr hle),
      Int.toNat_natCast]
    rfl

theorem computeConstantDepthRoot_eq : computeConstantDepthRoot log2 H blobs =
      .ret (hashOf (computeNode H (treeLeaves H blobs))) := by
  unfold computeConstantDepthRoot
  split
  · exact absurd rfl hne
  · rw [preprocess_eq hne hceil hmax]
    rfl

end

theorem getMid_of_length {levels : Nat} {leaves : List (List UInt8)}
    (hlen : leaves.length = 2 ^ (levels + 1)) : getMid leaves = 2 ^ levels := by
  unfold getMid
  omega

theorem length_computeTrace {H : HashData} {levels : Nat} {leaves : List (List UInt8)}
    (hlen : leaves.length = 2 ^ levels) (index : Int) :
    (computeTrace H leaves index).length = levels := by
  induction levels generalizing leaves index with
  | zero =>
    rw [computeTrace, if_pos (by omega)]
    rfl
  | succ levels ih =>
    have hpos := Nat.two_pow_pos levels
    have hhalf : (computeP leaves index true).length = 2 ^ levels := by
      unfold computeP
      rw [getMid_of_length hlen]
      split
      · exact (length_halves hlen).1
      · exact (length_halves hlen).2
    rw [computeTrace, if_neg (by omega), length_cons, ih hhalf]

theorem generatePageProof_returns {log2 : Nat → ℚ} {H : HashData}
    {blobs : List (List UInt8)} (hexact : Exact log2 blobs.length) (hmax : blobs.length ≤ 2 ^ 62)
    (page : Int) (x : Nat) : (generatePageProof log2 H blobs page x).Returns := by
  have hdepth : Nat.log 2 blobs.length ≤ Nat.clog 2 blobs.length := Nat.log_le_clog _ _
  unfold generatePageProof
  split
  · exact ⟨_, rfl⟩
  · next hne =>
    rw [preprocess_eq hne hexact.ceil hmax, ret_bind]
    dsimp only
    split
    · exact ⟨_, rfl⟩
    · rw [returns_bind, sliceOf_of_le (Nat.zero_le _)]
      · exact ⟨_, rfl, _, rfl⟩
      · rw [length_computeTrace length_treeLeaves, hexact.floor]
        omega

theorem computeTrace_halves {H : HashData} {leaves : List (List UInt8)} {index : Nat}
    (hlong : 2 ≤ leaves.length) (hindex : index < 2 ^ 63) :
    computeTrace H leaves index =
      if index < getMid leaves then computeNode H (leaves.drop (getMid leaves)) ::
        computeTrace H (leaves.take (getMid leaves)) index
      else computeNode H (leaves.take (getMid leaves)) ::
        computeTrace H (leaves.drop (getMid leaves)) (index - getMid leaves : Nat) := by
  rw [computeTrace, if_neg (by omega)]
  unfold computeP computePi
  by_cases hleft : index < getMid leaves
  · rw [if_pos (Int.ofNat_lt.mpr hleft), if_pos hleft, Int.sub_zero, toInt_of_lt hindex]
    simp [hleft]
  · rw [if_neg (mt Int.ofNat_lt.mp hleft), if_neg hleft, ← Int.ofNat_sub (Nat.not_lt.mp hleft),
      toInt_of_lt (by omega)]
    simp [hleft]

theorem computeTrace_eq {H : HashData} {levels : Nat} {leaves : List (List UInt8)}
    (hlen : leaves.length = 2 ^ levels) (hlevels : levels ≤ 62) {index : Nat}
    (hindex : index < 2 ^ levels) :
    computeTrace H leaves index =
      besidesOf [] (leafDigest H) (nodeDigest H) levels leaves index := by
  induction levels generalizing leaves index with
  | zero =>
    rw [computeTrace, if_pos (by omega)]
    rfl
  | succ levels ih =>
    have hbound : 2 ^ levels ≤ 2 ^ 62 := Nat.pow_le_pow_right (by decide) (by omega)
    obtain ⟨htake, hdrop⟩ := length_halves hlen
    rw [computeTrace_halves (by omega) (by omega), getMid_of_length hlen, besidesOf]
    split
    · next hleft => rw [ih htake (by omega) hleft, computeNode_eq]
    · rw [ih hdrop (by omega) (by omega), computeNode_eq]

def pageOf (blobs : List (List UInt8)) (pageIndex x : Nat) : List (List UInt8) :=
  (blobs.drop (2 ^ x * pageIndex)).take (2 ^ x)

def besidesPage (H : HashData) (blobs : List (List UInt8)) (pageIndex x : Nat) :
    List (List UInt8) :=
  besidesOf [] (leafDigest H) (nodeDigest H) (Nat.clog 2 blobs.length)
    (treeLeaves H blobs) (2 ^ x * pageIndex)

section

variable {log2 : Nat → ℚ} {H : HashData} {blobs : List (List UInt8)} {page x : Nat}

theorem length_of_mem_besidesPage {d : List UInt8} (h : d ∈ besidesPage H blobs page x) :
    d.length = 32 := by
  obtain ⟨part, hne, -, -, rfl⟩ := mem_besidesOf _ _ _ length_treeLeaves h
  exact length_treeRoot hne

theorem toList_convertBlobsToHashes {trace : List (List UInt8)} (h : ∀ d ∈ trace, d.length = 32) :
    (convertBlobsToHashes trace).map (·.toList) = trace := by
  rw [convertBlobsToHashes, map_map, map_congr_left (g := id), map_id]
  intro d hd
  exact toList_toArray (h d hd)

variable (hinside : 2 ^ x * page < blobs.length)

include hinside

theorem ne_nil_of_inside : blobs ≠ [] :=
  ne_nil_of_length_pos (by omega)

theorem start_eq : 2 ^ x * page = 2 ^ min x (Nat.clog 2 blobs.length) * page := by
  have hle := le_pow_clog blobs.length
  rcases Nat.le_total x (Nat.clog 2 blobs.length) with hx | hx
  · rw [Nat.min_eq_left hx]
  · have hpow : 2 ^ Nat.clog 2 blobs.length ≤ 2 ^ x := Nat.pow_le_pow_right (by decide) hx
    obtain rfl : page = 0 := by
      by_contra hpage
      have hmul : 2 ^ x * 1 ≤ 2 ^ x * page := Nat.mul_le_mul_left _ (by omega)
      omega
    rw [Nat.mul_zero, Nat.mul_zero]

theorem pageIndex_lt : page < 2 ^ (Nat.clog 2 blobs.length - min x (Nat.clog 2 blobs.length)) := by
  have hle := le_pow_clog blobs.length
  rw [start_eq hinside] at hinside
  refine Nat.lt_of_mul_lt_mul_left (a := 2 ^ min x (Nat.clog 2 blobs.length)) ?_
  rw [← Nat.pow_add, Nat.add_sub_cancel' (Nat.min_le_right _ _)]
  omega

theorem pageOf_eq : pageOf blobs page x = pageOf blobs page (min x (Nat.clog 2 blobs.length)) := by
  unfold pageOf
  rw [← start_eq hinside]
  rcases Nat.le_total x (Nat.clog 2 blobs.length) with hx | hx
  · rw [Nat.min_eq_left hx]
  · have hle : blobs.length ≤ 2 ^ Nat.clog 2 blobs.length := Nat.le_pow_clog (by decide) _
    have hpow : 2 ^ Nat.clog 2 blobs.length ≤ 2 ^ x := Nat.pow_le_pow_right (by decide) hx
    rw [Nat.min_eq_right hx, take_of_length_le (by rw [length_drop]; omega),
      take_of_length_le (by rw [length_drop]; omega)]

theorem paddedPage_eq : paddedPage blobs.length x ((pageOf blobs page x).map (leafHash H)) =
      pageOf (treeLeaves H blobs) page (min x (Nat.clog 2 blobs.length)) := by
  have hlt := pageIndex_lt hinside
  rw [pageOf_eq hinside]
  rw [start_eq hinside] at hinside
  have hsum : min x (Nat.clog 2 blobs.length) +
      (Nat.clog 2 blobs.length - min x (Nat.clog 2 blobs.length)) = Nat.clog 2 blobs.length :=
    Nat.add_sub_cancel' (Nat.min_le_right _ _)
  unfold paddedPage
  generalize min x (Nat.clog 2 blobs.length) = y at *
  have hblock : 2 ^ y * page + 2 ^ y ≤ 2 ^ Nat.clog 2 blobs.length := by
    rw [← hsum, Nat.pow_add, ← Nat.mul_succ]
    exact Nat.mul_le_mul_left _ hlt
  unfold pageOf treeLeaves
  rw [length_map, length_take, length_drop,
    drop_append_of_le_length (by rw [length_map]; omega), take_append,
    take_replicate, length_drop, length_map, map_map, map_take,
    map_drop]
  congr 2
  omega

theorem climb_page : climb (nodeDigest H) (computeNode H
        (pageOf (treeLeaves H blobs) page (min x (Nat.clog 2 blobs.length))))
      ((besidesPage H blobs page x).take (Nat.clog 2 blobs.length - x)).reverse
      page = computeNode H (treeLeaves H blobs) := by
  have hlt := pageIndex_lt hinside
  have hlen : (treeLeaves H blobs).length = 2 ^ Nat.clog 2 blobs.length :=
    length_treeLeaves
  have hdepth : Nat.clog 2 blobs.length - x + min x (Nat.clog 2 blobs.length) =
      Nat.clog 2 blobs.length := by omega
  rw [show Nat.clog 2 blobs.length - min x (Nat.clog 2 blobs.length) =
    Nat.clog 2 blobs.length - x by omega] at hlt
  rw [← hdepth] at hlen
  have hclimb := climb_besidesOf [] (leafDigest H) (nodeDigest H) hlen hlt
  rw [hdepth] at hclimb
  unfold besidesPage pageOf
  rw [start_eq hinside, computeNode_eq, computeNode_eq]
  exact hclimb

variable (hmax : blobs.length ≤ 2 ^ 62)

include hmax

theorem getLeafPage_eq (hx : x ≤ 62) : getLeafPage H blobs page x =
      .ret ((pageOf blobs page x).map (leafHash H)) := by
  have hpow : 2 ^ x ≤ 2 ^ 62 := Nat.pow_le_pow_right (by decide) hx
  have hstart : toInt (shiftOne x * page) = (2 ^ x * page : Nat) := by
    rw [shiftOne_of_le hx, ← Nat.cast_mul, toInt_of_lt (by omega)]
  have hend : toInt ((2 ^ x * page : Nat) + shiftOne x) = (2 ^ x * page + 2 ^ x : Nat) := by
    rw [shiftOne_of_le hx, ← Nat.cast_add, toInt_of_lt (by omega)]
  unfold getLeafPage
  rw [if_neg (by rintro (h | h); exacts [ne_nil_of_inside hinside h, by omega])]
  dsimp only
  rw [hstart, hend]
  generalize hs : 2 ^ x * page = s at *
  have hcount : (min ((s + 2 ^ x : Nat) : Int) blobs.length - s) =
      (min (2 ^ x) (blobs.length - s) : Nat) := by omega
  have hfits : min (2 ^ x) (blobs.length - s) < 2 ^ 63 := by omega
  rw [hcount, toInt_of_lt hfits, if_neg (Int.not_lt.mpr (Int.natCast_nonneg _)), Int.toNat_natCast]
  rw [mapM_eq_pure (g := fun j => leafHash H (blobs.getD (s + j) []))]
  · unfold pageOf
    refine congrArg Outcome.ret (ext_getElem ?_ ?_)
    · simp [hs]
    · intro j hj hj'
      simp only [length_map, length_range] at hj
      have hlt : s + j < blobs.length := by omega
      simp [hs, List.getElem?_eq_getElem hlt]
  · intro j hj
    rw [mem_range] at hj
    have hlt : s + j < blobs.length := by omega
    rw [indexAtInt, if_neg (by omega), ← Nat.cast_add, Int.toNat_natCast, indexAt_of_lt hlt,
      getD_eq_getElem _ _ hlt]
    rfl

variable (hexact : Exact log2 blobs.length)

include hexact

theorem generatePageProof_eq : generatePageProof log2 H blobs page x =
      .ret (convertBlobsToHashes ((besidesPage H blobs page x).take
        (Nat.log 2 blobs.length - x))) := by
  have hne := ne_nil_of_inside hinside
  have hle := le_pow_clog blobs.length
  have hdepth : Nat.log 2 blobs.length ≤ Nat.clog 2 blobs.length := Nat.log_le_clog _ _
  unfold generatePageProof
  split
  · exact absurd rfl hne
  · rw [preprocess_eq hne hexact.ceil hmax]
    change (if max 0 (⌊log2 blobs.length⌋ - (x : Int)) = 0 then Outcome.ret [] else _) = _
    rw [hexact.floor]
    rcases Nat.lt_or_ge x (Nat.log 2 blobs.length) with hx | hx
    · have hx' : x ≤ 62 := by
        have := clog_le hmax
        omega
      have hmaxLen : max 0 ((Nat.log 2 blobs.length : Int) - x) =
          (Nat.log 2 blobs.length - x : Nat) := by omega
      have htrace : computeTrace H (treeLeaves H blobs)
          (toInt (shiftOne x * page)) = besidesPage H blobs page x := by
        rw [shiftOne_of_le hx', ← Nat.cast_mul, toInt_of_lt (by omega),
          computeTrace_eq length_treeLeaves (clog_le hmax) (by omega)]
        rfl
      rw [hmaxLen, if_neg (by omega), Int.toNat_natCast, htrace]
      rw [sliceOf_of_le (Nat.zero_le _)]
      · rfl
      · rw [besidesPage, length_besidesOf]
        omega
    · rw [if_pos (by omega), Nat.sub_eq_zero_of_le hx, take_zero]
      rfl

theorem reproduces_iff (hx : x ≤ 62) : Reproduces log2 H blobs page x ↔
      climb (nodeDigest H) (computeNode H
          (pageOf (treeLeaves H blobs) page (min x (Nat.clog 2 blobs.length))))
        ((besidesPage H blobs page x).take (Nat.log 2 blobs.length - x)).reverse
        page =
      computeNode H (treeLeaves H blobs) := by
  have hroot : (hashOf (computeNode H (treeLeaves H blobs))).toList =
      computeNode H (treeLeaves H blobs) :=
    toList_toArray (length_computeNode treeLeaves_ne_nil)
  have hproof : (convertBlobsToHashes ((besidesPage H blobs page x).take
      (Nat.log 2 blobs.length - x))).map (·.toList) =
      (besidesPage H blobs page x).take (Nat.log 2 blobs.length - x) :=
    toList_convertBlobsToHashes fun d hd => length_of_mem_besidesPage (mem_of_mem_take hd)
  unfold Reproduces
  rw [getLeafPage_eq hinside hmax hx, generatePageProof_eq hinside hmax hexact,
    computeConstantDepthRoot_eq (ne_nil_of_inside hinside) hexact.ceil hmax]
  constructor
  · rintro ⟨leaves, proof, root, hleaves, htrace, hwhole, h⟩
    obtain rfl := Outcome.ret.inj hleaves
    obtain rfl := Outcome.ret.inj htrace
    obtain rfl := Outcome.ret.inj hwhole
    rwa [hproof, hroot, paddedPage_eq hinside] at h
  · intro h
    refine ⟨_, _, _, rfl, rfl, rfl, ?_⟩
    rwa [hproof, hroot, paddedPage_eq hinside]

theorem reproduces_of_eq (hx : x ≤ 62)
    (h : Nat.log 2 blobs.length - x = Nat.clog 2 blobs.length - x) :
    Reproduces log2 H blobs page x := by
  rw [reproduces_iff hinside hmax hexact hx, h]
  exact climb_page hinside

end

open Jam (leNat toLE leNat_toLE toLE_leNat length_toLE)

def countingHash (data : List UInt8) : Hash :=
  if data = [] then hashOf (toLE 32 1)
  else if data.length = 68 then
    hashOf (toLE 32 (leNat ((data.drop 4).take 32) + leNat (data.drop 36)))
  else hashOf (toLE 32 2)

def weight (leaf : List UInt8) : Nat := if leaf = [] then 1 else 2

theorem toLE_mod (n : Nat) : toLE 32 (n % 256 ^ 32) = toLE 32 n := by
  have h := toLE_leNat (toLE 32 n)
  rwa [length_toLE, leNat_toLE] at h

theorem toList_hashOf_toLE (n : Nat) : (hashOf (toLE 32 n)).toList = toLE 32 n :=
  toList_toArray (length_toLE 32 n)

theorem leafDigest_countingHash {leaf : List UInt8} (h : leaf = [] ∨ leaf.length = 32) :
    leafDigest countingHash leaf = toLE 32 (weight leaf) := by
  unfold leafDigest countingHash weight
  split
  · exact toList_hashOf_toLE 1
  · next hne =>
    rw [if_neg (by rw [h.resolve_left hne]; decide), toList_hashOf_toLE]

theorem nodeDigest_countingHash {left right : List UInt8} (hleft : left.length = 32)
    (hright : right.length = 32) :
    nodeDigest countingHash left right = toLE 32 (leNat left + leNat right) := by
  have hword : (ascii "node").length = 4 := by decide
  have hlen : (joined left right).length = 68 := by
    rw [joined, length_append, length_append, hword, hleft, hright]
  have hfirst : ((joined left right).drop 4).take 32 = left := by
    rw [joined, append_assoc, drop_left' hword, take_left' hleft]
  have hsecond : (joined left right).drop 36 = right := by
    rw [joined, drop_left' (by rw [length_append, hword, hleft])]
  unfold nodeDigest countingHash
  rw [if_neg (ne_nil_of_length_pos (by omega)), if_pos hlen, hfirst, hsecond, toList_hashOf_toLE]

theorem treeRoot_countingHash {leaves : List (List UInt8)} (hne : leaves ≠ [])
    (hleaves : ∀ leaf ∈ leaves, leaf = [] ∨ leaf.length = 32) :
    treeRoot [] (leafDigest countingHash) (nodeDigest countingHash) leaves =
      toLE 32 (leaves.map weight).sum := by
  induction leaves using treeRoot.induct with
  | case1 => exact absurd rfl hne
  | case2 leaf =>
    rw [treeRoot_singleton, leafDigest_countingHash (hleaves leaf mem_cons_self)]
    rfl
  | case3 a b rest ihleft ihright =>
    have hlong : 2 ≤ (a :: b :: rest).length := by simp
    have hleft := ihleft (halves_ne_nil hlong).1 fun leaf hmem => hleaves leaf (mem_of_mem_take hmem)
    have hright :=
      ihright (halves_ne_nil hlong).2 fun leaf hmem => hleaves leaf (mem_of_mem_drop hmem)
    rw [treeRoot_halves _ _ _ hlong, hleft, hright,
      nodeDigest_countingHash (length_toLE _ _) (length_toLE _ _), leNat_toLE, leNat_toLE,
      ← toLE_mod, ← Nat.add_mod, toLE_mod, ← sum_append, ← map_append, take_append_drop]

theorem climb_countingHash {start : List UInt8} {besides : List (List UInt8)}
    (hstart : start.length = 32) (hbesides : ∀ d ∈ besides, d.length = 32) (index : Nat) :
    climb (nodeDigest countingHash) start besides index =
      toLE 32 (leNat start + (besides.map leNat).sum) := by
  induction besides generalizing start index with
  | nil =>
    have h := toLE_leNat start
    rw [hstart] at h
    exact h.symm
  | cons beside besides ih =>
    rw [forall_mem_cons] at hbesides
    have hstep : (if index % 2 = 0 then nodeDigest countingHash start beside
        else nodeDigest countingHash beside start) = toLE 32 (leNat start + leNat beside) := by
      split
      · exact nodeDigest_countingHash hstart hbesides.1
      · rw [nodeDigest_countingHash hbesides.1 hstart, Nat.add_comm]
    rw [climb, hstep, ih (length_toLE _ _) hbesides.2, leNat_toLE, ← toLE_mod, Nat.mod_add_mod,
      toLE_mod, map_cons, sum_cons, Nat.add_assoc]

theorem mod_eq_of_toLE_eq {a b : Nat} (h : toLE 32 a = toLE 32 b) :
    a % 256 ^ 32 = b % 256 ^ 32 := by
  rw [← leNat_toLE, ← leNat_toLE, h]

theorem sum_weight_bounds (leaves : List (List UInt8)) :
    leaves.length ≤ (leaves.map weight).sum ∧ (leaves.map weight).sum ≤ 2 * leaves.length := by
  induction leaves with
  | nil => exact ⟨Nat.le_refl _, Nat.le_refl _⟩
  | cons leaf leaves ih =>
    have hone : 1 ≤ weight leaf ∧ weight leaf ≤ 2 := by
      unfold weight
      split <;> decide
    rw [map_cons, sum_cons, length_cons]
    omega

theorem map_weight_leafHash (H : HashData) (blobs : List (List UInt8)) :
    (blobs.map fun blob => (leafHash H blob).toList).map weight = blobs.map fun _ => 2 := by
  rw [map_map]
  refine map_congr_left fun blob _ => if_neg (ne_nil_of_length_pos ?_)
  rw [Vector.length_toList]
  decide

section

variable {log2 : Nat → ℚ} {blobs : List (List UInt8)} {page x : Nat}
  (hinside : 2 ^ x * page < blobs.length) (hmax : blobs.length ≤ 2 ^ 62)

include hmax in
theorem leNat_of_mem_besidesPage {d : List UInt8}
    (h : d ∈ besidesPage countingHash blobs page x) : 0 < leNat d ∧ leNat d < 256 ^ 32 := by
  have hpow : 2 ^ Nat.clog 2 blobs.length ≤ 2 ^ 62 :=
    Nat.pow_le_pow_right (by decide) (clog_le hmax)
  have hcount : (treeLeaves countingHash blobs).length = 2 ^ Nat.clog 2 blobs.length :=
    length_treeLeaves
  obtain ⟨part, hne, hle, hmem, rfl⟩ := mem_besidesOf _ _ _ length_treeLeaves h
  obtain ⟨hlow, hhigh⟩ := sum_weight_bounds part
  have hpos := length_pos_of_ne_nil hne
  rw [treeRoot_countingHash hne fun leaf hleaf => mem_treeLeaves (hmem leaf hleaf), leNat_toLE,
    Nat.mod_eq_of_lt (by omega)]
  omega

include hinside hmax

theorem not_reproduces_of_lt (hexact : Exact log2 blobs.length) (hx : x < Nat.clog 2 blobs.length)
    (h : Nat.log 2 blobs.length < Nat.clog 2 blobs.length) :
    ¬ Reproduces log2 countingHash blobs page x := by
  have hceil := clog_le hmax
  have hstep : Nat.clog 2 blobs.length ≤ Nat.log 2 blobs.length + 1 :=
    Nat.clog_le_of_le_pow (Nat.lt_pow_succ_log_self (by decide) _).le
  have hlevels : Nat.clog 2 blobs.length - x = Nat.log 2 blobs.length - x + 1 := by omega
  have hcount : Nat.log 2 blobs.length - x < (besidesPage countingHash blobs page x).length := by
    rw [besidesPage, length_besidesOf]
    omega
  have hstart : (computeNode countingHash (pageOf (treeLeaves countingHash blobs) page
      (min x (Nat.clog 2 blobs.length)))).length = 32 := by
    refine length_computeNode ?_
    rw [← paddedPage_eq hinside]
    refine ne_nil_of_length_pos ?_
    rw [paddedPage, length_append, length_replicate, length_map]
    have := Nat.two_pow_pos (min x (Nat.clog 2 blobs.length))
    omega
  rw [reproduces_iff hinside hmax hexact (by omega), ← climb_page hinside, hlevels]
  have hdigests : ∀ levels, ∀ d ∈ ((besidesPage countingHash blobs page x).take levels).reverse,
      d.length = 32 := fun levels d hd =>
    length_of_mem_besidesPage (mem_of_mem_take (mem_reverse.mp hd))
  intro hclimb
  rw [climb_countingHash hstart (hdigests _), climb_countingHash hstart (hdigests _),
    ← take_concat_get' _ _ hcount, reverse_append, map_append, sum_append] at hclimb
  have hlast := leNat_of_mem_besidesPage hmax (getElem_mem hcount)
  have hmod := mod_eq_of_toLE_eq hclimb
  simp only [reverse_singleton, map_singleton, sum_singleton] at hmod
  omega

omit hinside hmax in
theorem sum_weight_treeLeaves (H : HashData) : ((treeLeaves H blobs).map weight).sum =
      2 ^ Nat.clog 2 blobs.length + blobs.length := by
  have hle := le_pow_clog blobs.length
  rw [treeLeaves, map_append, sum_append, map_weight_leafHash, map_const',
    sum_replicate_nat, map_replicate, sum_replicate_nat, weight, if_pos rfl]
  omega

theorem not_reproduces_of_gt (hexact : Exact log2 blobs.length) (hx : 62 < x) :
    ¬ Reproduces log2 countingHash blobs page x := by
  have hceil := clog_le hmax
  have hdepth : Nat.log 2 blobs.length ≤ Nat.clog 2 blobs.length := Nat.log_le_clog _ _
  rintro ⟨leaves, proof, root, hleaves, hproof, hroot, h⟩
  rcases Nat.lt_or_ge x 64 with hlow | hhigh
  · obtain rfl : x = 63 := by omega
    obtain rfl : page = 0 := by omega
    have hshift : shiftOne 63 = -(2 ^ 63) := by decide
    unfold getLeafPage at hleaves
    rw [if_neg (by rintro (h | h); exacts [ne_nil_of_inside hinside h, by omega]), hshift] at hleaves
    cases hleaves
  · have hnone : getLeafPage countingHash blobs page x = .ret [] := if_pos (.inr hhigh)
    rw [hnone] at hleaves
    rw [generatePageProof_eq hinside hmax hexact, Nat.sub_eq_zero_of_le (by omega),
      take_zero] at hproof
    rw [computeConstantDepthRoot_eq (ne_nil_of_inside hinside) hexact.ceil hmax] at hroot
    obtain rfl := Outcome.ret.inj hleaves
    obtain rfl := Outcome.ret.inj hproof
    obtain rfl := Outcome.ret.inj hroot
    have hpadded : paddedPage blobs.length x [] = .replicate (2 ^ Nat.clog 2 blobs.length) [] := by
      rw [paddedPage, Nat.min_eq_right (by omega)]
      rfl
    have hpos := Nat.two_pow_pos (Nat.clog 2 blobs.length)
    have hne : List.replicate (2 ^ Nat.clog 2 blobs.length) ([] : List UInt8) ≠ [] :=
      ne_nil_of_length_pos (by rwa [length_replicate])
    rw [hpadded, hashOf, toList_toArray (length_computeNode treeLeaves_ne_nil), computeNode_eq,
      computeNode_eq, treeRoot_countingHash hne fun leaf hleaf => .inl (eq_of_mem_replicate hleaf),
      treeRoot_countingHash treeLeaves_ne_nil fun leaf => mem_treeLeaves, sum_weight_treeLeaves,
      map_replicate, sum_replicate_nat, weight, if_pos rfl, Nat.mul_one] at h
    have hmod := mod_eq_of_toLE_eq h
    omega

end

/-- When a page and its proof give the root. -/
theorem page_proofs_complete_iff {log2 : Nat → ℚ} {blobs : List (List UInt8)} {page x : Nat}
    (hinside : 2 ^ x * page < blobs.length) (hmax : blobs.length ≤ 2 ^ 62)
    (hexact : Exact log2 blobs.length) :
    (∀ H, Reproduces log2 H blobs page x) ↔
      x ≤ 62 ∧ ((∃ k, blobs.length = 2 ^ k) ∨ blobs.length ≤ 2 ^ x) := by
  constructor
  · intro hall
    have hx : x ≤ 62 := by
      by_contra hx
      exact not_reproduces_of_gt hinside hmax hexact (by omega) (hall countingHash)
    refine ⟨hx, ?_⟩
    by_contra hcond
    rw [not_or] at hcond
    have hx' : x < Nat.clog 2 blobs.length :=
      (Nat.lt_clog_iff_pow_lt (by decide)).mpr (Nat.not_le.mp hcond.2)
    have hdepth : Nat.log 2 blobs.length < Nat.clog 2 blobs.length := by
      refine Nat.lt_of_le_of_ne (Nat.log_le_clog _ _) fun heq =>
        hcond.1 ⟨Nat.log 2 blobs.length, ?_⟩
      refine Nat.le_antisymm ?_ (Nat.pow_log_le_self 2 (by omega))
      rw [heq]
      exact Nat.le_pow_clog (by decide) _
    exact not_reproduces_of_lt hinside hmax hexact hx' hdepth (hall countingHash)
  · rintro ⟨hx, ⟨k, hk⟩ | hone⟩ H
    · refine reproduces_of_eq hinside hmax hexact hx ?_
      rw [hk, Nat.log_pow (by decide), Nat.clog_pow _ _ (by decide)]
    · have hdepth : Nat.log 2 blobs.length ≤ Nat.clog 2 blobs.length := Nat.log_le_clog _ _
      have hclog := (Nat.clog_le_iff_le_pow (by decide)).mpr hone
      refine reproduces_of_eq hinside hmax hexact hx ?_
      omega

theorem page_proofs_of_four : Exact (fun _ => 2) 4 ∧
      ∀ H, Reproduces (fun _ => 2) H [[1], [2], [3], [4]] 1 1 := by
  have hexact : Exact (fun _ => 2) 4 :=
    ⟨by norm_num [show Nat.log 2 4 = 2 by decide], by norm_num [show Nat.clog 2 4 = 2 by decide]⟩
  exact ⟨hexact, (page_proofs_complete_iff (by decide) (by decide) hexact).mpr
    ⟨by decide, .inl ⟨2, rfl⟩⟩⟩

theorem beside_the_page_missing :
    ¬ Reproduces (fun _ => 1.584962500721156) countingHash [[1], [2], [3]] 0 0 :=
  not_reproduces_of_lt (by decide) (by decide)
    ⟨by norm_num [show Nat.log 2 3 = 1 by decide], by norm_num [show Nat.clog 2 3 = 2 by decide]⟩
    (by decide) (by decide)

def zeroFilled (H : HashData) (blobs : List (List UInt8)) : List (List UInt8) :=
  blobs.map (fun blob => (leafHash H blob).toList) ++
    .replicate (2 ^ Nat.clog 2 blobs.length - blobs.length) (.replicate 32 0)

theorem shiftOne_nonpos {x : Nat} (h : 62 < x) : shiftOne x ≤ 0 := by
  rcases Nat.lt_or_ge x 64 with hx | hx
  · obtain rfl : x = 63 := by omega
    decide
  · have hdvd : ((2 ^ 64 : Nat) : Int) ∣ 2 ^ x := by
      exact_mod_cast Nat.pow_dvd_pow 2 hx
    exact (Int.bmod_eq_zero_of_dvd hdvd).le

section

variable {log2 : Nat → ℚ} {H : HashData} {blobs : List (List UInt8)} (hne : blobs ≠ [])
  (hceil : ⌈log2 blobs.length⌉ = Nat.clog 2 blobs.length)

include hne hceil in
theorem length_le_of_root {root : Hash}
    (h : computeConstantDepthRoot log2 H blobs = .ret root) : blobs.length ≤ 2 ^ 62 := by
  by_contra hlong
  have hdepth : 62 < Nat.clog 2 blobs.length :=
    (Nat.lt_clog_iff_pow_lt (by decide)).mpr (Nat.not_le.mp hlong)
  have htarget := shiftOne_nonpos hdepth
  have hpre : ∀ leaves, preprocessForConstantDepth log2 H blobs ≠ .ret leaves := by
    unfold preprocessForConstantDepth
    split
    · exact absurd rfl hne
    · dsimp only
      rw [hceil, Int.toNat_natCast]
      split
      · exact nofun
      · rw [if_pos (by omega)]
        exact nofun
  unfold computeConstantDepthRoot at h
  split at h
  · exact absurd rfl hne
  · obtain ⟨leaves, hleaves, -⟩ := Outcome.bind_eq_ret.mp h
    exact hpre leaves hleaves

theorem zeroFilled_of_pow {k : Nat} (hk : blobs.length = 2 ^ k) :
    zeroFilled H blobs = treeLeaves H blobs := by
  rw [zeroFilled, treeLeaves, hk, Nat.clog_pow _ _ (by decide), Nat.sub_self]
  rfl

theorem sum_weight_zeroFilled (H : HashData) : ((zeroFilled H blobs).map weight).sum =
    2 * 2 ^ Nat.clog 2 blobs.length := by
  have hle := le_pow_clog blobs.length
  have hzeros : (.replicate (2 ^ Nat.clog 2 blobs.length - blobs.length)
      (.replicate 32 0) : List (List UInt8)).map weight = .replicate _ 2 := map_replicate
  rw [zeroFilled, map_append, sum_append, map_weight_leafHash, hzeros, map_const',
    sum_replicate_nat, sum_replicate_nat]
  omega

theorem root_ne_zeroFilled (hmax : blobs.length ≤ 2 ^ 62) (h : ∀ k, blobs.length ≠ 2 ^ k) :
    hashOf (computeNode countingHash (treeLeaves countingHash blobs)) ≠
      hashOf (computeNode countingHash (zeroFilled countingHash blobs)) := by
  have hle := le_pow_clog blobs.length
  have hpow : 2 ^ Nat.clog 2 blobs.length ≤ 2 ^ 62 :=
    Nat.pow_le_pow_right (by decide) (clog_le hmax)
  have hlen : (zeroFilled countingHash blobs).length = 2 ^ Nat.clog 2 blobs.length := by
    rw [zeroFilled, length_append, length_map, length_replicate]
    omega
  have hfilled : zeroFilled countingHash blobs ≠ [] :=
    ne_nil_of_length_pos (by rw [hlen]; exact Nat.two_pow_pos _)
  have hleaves : ∀ leaf ∈ zeroFilled countingHash blobs, leaf = [] ∨ leaf.length = 32 := by
    intro leaf hleaf
    rcases mem_append.mp hleaf with hleaf | hleaf
    · obtain ⟨blob, -, rfl⟩ := mem_map.mp hleaf
      exact .inr Vector.length_toList
    · rw [eq_of_mem_replicate hleaf]
      exact .inr rfl
  intro heq
  have hroots := congrArg Vector.toList heq
  rw [hashOf, hashOf, toList_toArray (length_computeNode treeLeaves_ne_nil),
    toList_toArray (length_computeNode hfilled), computeNode_eq, computeNode_eq,
    treeRoot_countingHash treeLeaves_ne_nil fun leaf => mem_treeLeaves,
    treeRoot_countingHash hfilled hleaves, sum_weight_treeLeaves, sum_weight_zeroFilled] at hroots
  have hmod := mod_eq_of_toLE_eq hroots
  have hshort := h (Nat.clog 2 blobs.length)
  omega

end

/-- When the root is that of the leaves filled up with zeros. -/
theorem constant_depth_root_iff {log2 : Nat → ℚ} {blobs : List (List UInt8)} (hne : blobs ≠ [])
    (hceil : ⌈log2 blobs.length⌉ = Nat.clog 2 blobs.length) :
    (∀ H, computeConstantDepthRoot log2 H blobs =
        .ret (hashOf (computeNode H (zeroFilled H blobs)))) ↔
      ∃ k ≤ 62, blobs.length = 2 ^ k := by
  constructor
  · intro hall
    have hmax := length_le_of_root hne hceil (hall countingHash)
    have hroot := hall countingHash
    rw [computeConstantDepthRoot_eq hne hceil hmax] at hroot
    by_contra hnone
    refine root_ne_zeroFilled hmax (fun k hk => hnone ⟨k, ?_, hk⟩) (Outcome.ret.inj hroot)
    rw [hk] at hmax
    exact (Nat.pow_le_pow_iff_right (by decide)).mp hmax
  · rintro ⟨k, hle, hk⟩ H
    have hmax : blobs.length ≤ 2 ^ 62 := hk ▸ Nat.pow_le_pow_right (by decide) hle
    rw [computeConstantDepthRoot_eq hne hceil hmax, zeroFilled_of_pow hk]

theorem constant_depth_root_of_four : ⌈(2 : ℚ)⌉ = Nat.clog 2 4 ∧
    ∀ H, computeConstantDepthRoot (fun _ => 2) H [[1], [2], [3], [4]] =
      .ret (hashOf (computeNode H (zeroFilled H [[1], [2], [3], [4]]))) := by
  have hceil : ⌈(2 : ℚ)⌉ = Nat.clog 2 4 := by norm_num [show Nat.clog 2 4 = 2 by decide]
  exact ⟨hceil, Iff.mpr (constant_depth_root_iff (by decide) hceil) ⟨2, by decide, rfl⟩⟩

theorem three_ne_two_pow : ∀ k, 3 ≠ 2 ^ k
  | 0 => by decide
  | k + 1 => by
    rw [Nat.pow_succ]
    omega

theorem three_leaves_filled_with_nothing : ⌈(1.584962500721156 : ℚ)⌉ = Nat.clog 2 3 ∧
    computeConstantDepthRoot (fun _ => 1.584962500721156) countingHash [[1], [2], [3]] ≠
      .ret (hashOf (computeNode countingHash (zeroFilled countingHash [[1], [2], [3]]))) := by
  have hceil : ⌈(1.584962500721156 : ℚ)⌉ = Nat.clog 2 3 := by
    norm_num [show Nat.clog 2 3 = 2 by decide]
  have hroot : computeConstantDepthRoot (fun _ => 1.584962500721156) countingHash [[1], [2], [3]] =
      _ := computeConstantDepthRoot_eq (by decide) hceil (by decide)
  refine ⟨hceil, ?_⟩
  rw [hroot]
  intro h
  refine root_ne_zeroFilled (by decide) ?_ (Outcome.ret.inj h)
  exact three_ne_two_pow

variable (H : HashData)

def foldTrace (leaf : List UInt8) : List (List UInt8) → Nat → Nat → List UInt8
  | [], _, _ => leaf
  | beside :: trace, length, index =>
    let mid := (length + 1) / 2
    if index < mid then nodeDigest H (foldTrace leaf trace mid index) beside
    else nodeDigest H beside (foldTrace leaf trace (length - mid) (index - mid))

def TraceVerifies (blobs : List (List UInt8)) (index : Nat) : Prop :=
  ∃ blob, blobs[index]? = some blob ∧
    foldTrace H (computeNode H [blob]) (computeTrace H blobs index)
      blobs.length index = computeNode H blobs

theorem foldTrace_besidesOf {levels : Nat} {leaves : List (List UInt8)} {index : Nat}
    (hlen : leaves.length = 2 ^ levels) {leaf : List UInt8} (hleaf : leaves[index]? = some leaf) :
    foldTrace H (leafDigest H leaf) (besidesOf [] (leafDigest H) (nodeDigest H) levels leaves index)
        (2 ^ levels) index =
      treeRoot [] (leafDigest H) (nodeDigest H) leaves := by
  induction levels generalizing leaves index with
  | zero =>
    obtain ⟨blob, rfl⟩ := length_eq_one_iff.mp hlen
    obtain ⟨hindex, rfl⟩ := List.getElem?_eq_some_iff.mp hleaf
    rw [treeRoot_singleton, besidesOf, foldTrace, getElem_singleton]
  | succ levels ih =>
    have hpos := Nat.two_pow_pos levels
    obtain ⟨htake, hdrop⟩ := length_halves hlen
    have hmid : (2 ^ (levels + 1) + 1) / 2 = 2 ^ levels := by omega
    have hrest : 2 ^ (levels + 1) - 2 ^ levels = 2 ^ levels := by omega
    have hhalf : leaves.length / 2 = 2 ^ levels := by omega
    rw [treeRoot_halves _ _ _ (by omega), hhalf, besidesOf]
    by_cases hleft : index < 2 ^ levels
    · have hin : (leaves.take (2 ^ levels))[index]? = some leaf := by
        rwa [getElem?_take_of_lt hleft]
      rw [if_pos hleft, foldTrace, hmid, if_pos hleft, ih htake hin]
    · have hin : (leaves.drop (2 ^ levels))[index - 2 ^ levels]? = some leaf := by
        rwa [getElem?_drop, Nat.add_sub_cancel' (Nat.not_lt.mp hleft)]
      rw [if_neg hleft, foldTrace, hmid, if_neg hleft, hrest, ih hdrop hin]

/-- A digest that tells a count, with a salt that keeps it apart from the blobs. -/
def saltedDigest (salt count : Nat) : List UInt8 := toLE 8 count ++ toLE 24 salt

def saltOf (data : List UInt8) : Nat := leNat ((data.drop 12).take 24)

/-- Counts the leaves of a tree none of whose nodes has the larger half on its left, and gives zero
for every other tree. -/
def shapeHash (blobs : List (List UInt8)) (salt : Nat) (data : List UInt8) : Hash :=
  let left := leNat ((data.drop 4).take 8)
  let right := leNat ((data.drop 36).take 8)
  hashOf (saltedDigest salt
    (if data ∈ blobs then 1 else if 0 < left ∧ left ≤ right then left + right else 0))

theorem exists_salt (blobs : List (List UInt8)) :
    ∃ salt ≤ blobs.length, ∀ blob ∈ blobs, saltOf blob ≠ salt := by
  by_contra! h
  have hsub : range (blobs.length + 1) ⊆ blobs.map saltOf := by
    intro salt hsalt
    obtain ⟨blob, hmem, rfl⟩ := h salt (Nat.lt_succ_iff.mp (mem_range.mp hsalt))
    exact mem_map_of_mem hmem
  have hle := (subperm_of_subset nodup_range hsub).length_le
  rw [length_range, length_map] at hle
  omega

section

variable {blobs : List (List UInt8)} {salt : Nat}

theorem toList_shapeHash {data : List UInt8} {count : Nat}
    (h : shapeHash blobs salt data = hashOf (saltedDigest salt count)) :
    (shapeHash blobs salt data).toList = saltedDigest salt count := by
  rw [h]
  exact toList_toArray (by simp [saltedDigest, length_toLE])

theorem saltedDigest_inj {a b : Nat} (ha : a < 2 ^ 63) (hb : b < 2 ^ 63)
    (h : saltedDigest salt a = saltedDigest salt b) : a = b := by
  have hcount := congrArg leNat (append_inj_left h (by rw [length_toLE, length_toLE]))
  rwa [leNat_toLE, leNat_toLE, Nat.mod_eq_of_lt (by omega), Nat.mod_eq_of_lt (by omega)] at hcount

theorem leafDigest_shapeHash {blob : List UInt8} (h : blob ∈ blobs) :
    leafDigest (shapeHash blobs salt) blob = saltedDigest salt 1 :=
  toList_shapeHash (by rw [shapeHash, if_pos h])

variable (hsalt : salt < 256 ^ 24) (hfresh : ∀ blob ∈ blobs, saltOf blob ≠ salt)

include hsalt hfresh

theorem nodeDigest_shapeHash {a b : Nat} (ha : a < 2 ^ 63) (hb : b < 2 ^ 63) :
    nodeDigest (shapeHash blobs salt) (saltedDigest salt a) (saltedDigest salt b) =
      saltedDigest salt (if 0 < a ∧ a ≤ b then a + b else 0) := by
  have hword : (ascii "node").length = 4 := by decide
  have hlen : ∀ n : Nat, (saltedDigest salt n).length = 32 := by simp [saltedDigest, length_toLE]
  have hsplit : ∀ n : Nat, leNat ((saltedDigest salt n).take 8) = n % 256 ^ 8 := fun n => by
    rw [saltedDigest, take_left' (length_toLE 8 n), leNat_toLE]
  have hleft : leNat (((joined (saltedDigest salt a) (saltedDigest salt b)).drop 4).take 8) = a := by
    rw [joined, append_assoc, drop_left' hword, take_append_of_le_length (by rw [hlen]; decide),
      hsplit, Nat.mod_eq_of_lt (by omega)]
  have hright : leNat (((joined (saltedDigest salt a) (saltedDigest salt b)).drop 36).take 8) =
      b := by
    rw [joined, drop_left' (by rw [length_append, hword, hlen]), hsplit,
      Nat.mod_eq_of_lt (by omega)]
  have hother : joined (saltedDigest salt a) (saltedDigest salt b) ∉ blobs := fun hmem => by
    refine hfresh _ hmem ?_
    rw [saltOf, joined, saltedDigest, append_assoc, append_assoc, ← append_assoc,
      drop_left' (by rw [length_append, hword, length_toLE]), take_left' (length_toLE 24 salt),
      leNat_toLE, Nat.mod_eq_of_lt hsalt]
  exact toList_shapeHash (by rw [shapeHash, if_neg hother, hleft, hright])

theorem computeNode_shapeHash {leaves : List (List UInt8)} (hne : leaves ≠ [])
    (hsub : leaves ⊆ blobs) (hmax : leaves.length < 2 ^ 63) :
    computeNode (shapeHash blobs salt) leaves = saltedDigest salt leaves.length := by
  rw [computeNode_eq]
  induction leaves using treeRoot.induct with
  | case1 => exact absurd rfl hne
  | case2 leaf => rw [treeRoot_singleton, leafDigest_shapeHash (hsub mem_cons_self), length_singleton]
  | case3 a b rest ihleft ihright =>
    generalize hleaves : a :: b :: rest = leaves at *
    have hlong : 2 ≤ leaves.length := by simp [← hleaves]
    have htake : (leaves.take (leaves.length / 2)).length = leaves.length / 2 := by
      rw [length_take]
      omega
    have hdrop : (leaves.drop (leaves.length / 2)).length = leaves.length - leaves.length / 2 :=
      length_drop
    rw [treeRoot_halves _ _ _ hlong,
      ihleft (halves_ne_nil hlong).1 (fun _ h => hsub (mem_of_mem_take h)) (by omega),
      ihright (halves_ne_nil hlong).2 (fun _ h => hsub (mem_of_mem_drop h)) (by omega),
      nodeDigest_shapeHash hsalt hfresh (by omega) (by omega), if_pos (by omega)]
    congr 1
    omega

/-- The count that a folded trace tells: the code rounds the middle up on the way down the trace, so
that an odd list has its larger half on the left. -/
theorem foldTrace_shapeHash {leaves : List (List UInt8)} {index : Nat} {leaf : List UInt8}
    (hleaf : leaves[index]? = some leaf) (hsub : leaves ⊆ blobs) (hmax : leaves.length < 2 ^ 63) :
    ∃ count, foldTrace (shapeHash blobs salt) (saltedDigest salt 1)
        (computeTrace (shapeHash blobs salt) leaves index) leaves.length index =
          saltedDigest salt count ∧
      (count = 0 ∨ count = leaves.length ∧ ∃ levels, leaves.length = 2 ^ levels) := by
  induction hn : leaves.length using Nat.strong_induction_on generalizing leaves index with
  | _ n ih =>
    have hindex := (List.getElem?_eq_some_iff.mp hleaf).1
    rcases Nat.lt_or_ge leaves.length 2 with hshort | hlong
    · rw [computeTrace, if_pos (by omega)]
      exact ⟨1, rfl, .inr ⟨by omega, 0, by omega⟩⟩
    · obtain ⟨mid, hmid⟩ : ∃ mid, getMid leaves = mid := ⟨_, rfl⟩
      have hhalf : mid = (leaves.length + 1) / 2 := hmid.symm
      have htake : (leaves.take mid).length = mid := by
        rw [length_take]
        omega
      have hdrop : (leaves.drop mid).length = leaves.length - mid := length_drop
      have hsubTake : leaves.take mid ⊆ blobs := fun _ h => hsub (mem_of_mem_take h)
      have hsubDrop : leaves.drop mid ⊆ blobs := fun _ h => hsub (mem_of_mem_drop h)
      have hnodeTake := computeNode_shapeHash hsalt hfresh (ne_nil_of_length_pos (by omega))
        hsubTake (by omega)
      have hnodeDrop := computeNode_shapeHash hsalt hfresh (ne_nil_of_length_pos (by omega))
        hsubDrop (by omega)
      rw [computeTrace_halves hlong (by omega), hmid]
      by_cases hleft : index < mid
      · have hin : (leaves.take mid)[index]? = some leaf := by rwa [getElem?_take_of_lt hleft]
        obtain ⟨count, hfold, hcount⟩ := ih _ (by omega) hin hsubTake (by omega) htake
        rw [if_pos hleft, foldTrace, ← hn, ← hhalf, if_pos hleft, hfold, hnodeDrop, hdrop,
          nodeDigest_shapeHash hsalt hfresh (by omega) (by omega)]
        refine ⟨_, rfl, ?_⟩
        split
        · obtain rfl | ⟨rfl, levels, hlevels⟩ := hcount
          · omega
          · exact .inr ⟨by omega, levels + 1, by rw [Nat.pow_succ]; omega⟩
        · exact .inl rfl
      · have hin : (leaves.drop mid)[index - mid]? = some leaf := by
          rwa [getElem?_drop, Nat.add_sub_cancel' (Nat.not_lt.mp hleft)]
        obtain ⟨count, hfold, hcount⟩ := ih _ (by omega) hin hsubDrop (by omega) hdrop
        rw [if_neg hleft, foldTrace, ← hn, ← hhalf, if_neg hleft, hfold, hnodeTake, htake,
          nodeDigest_shapeHash hsalt hfresh (by omega) (by omega)]
        refine ⟨_, rfl, ?_⟩
        split
        · obtain rfl | ⟨rfl, levels, hlevels⟩ := hcount
          · omega
          · exact .inr ⟨by omega, levels + 1, by rw [Nat.pow_succ]; omega⟩
        · exact .inl rfl

end

/-- When a trace leads to the root. -/
theorem traces_verify (blobs : List (List UInt8)) (index : Nat) (hmax : blobs.length ≤ 2 ^ 62)
    (hindex : index < blobs.length) :
    (∀ H, TraceVerifies H blobs index) ↔ ∃ levels, blobs.length = 2 ^ levels := by
  have hblob := getElem?_eq_getElem hindex
  constructor
  · intro hverifies
    obtain ⟨salt, hle, hfresh⟩ := exists_salt blobs
    have hsalt : salt < 256 ^ 24 := by omega
    have hne : blobs ≠ [] := ne_nil_of_length_pos (by omega)
    obtain ⟨leaf, hleaf, hroot⟩ := hverifies (shapeHash blobs salt)
    obtain ⟨count, hfold, hcount⟩ :=
      foldTrace_shapeHash hsalt hfresh hleaf (Subset.refl blobs) (by omega)
    rw [computeNode_shapeHash hsalt hfresh hne (Subset.refl blobs) (by omega),
      computeNode_eq _ [leaf], treeRoot_singleton,
      leafDigest_shapeHash (mem_of_getElem? hleaf), hfold] at hroot
    have heq := saltedDigest_inj (by omega) (by omega) hroot
    exact (hcount.resolve_left (by omega)).2
  · rintro ⟨levels, hlen⟩ H
    have hlevels : levels ≤ 62 := (Nat.pow_le_pow_iff_right (by decide)).mp (hlen ▸ hmax)
    refine ⟨_, hblob, ?_⟩
    rw [computeTrace_eq hlen hlevels (hlen ▸ hindex), hlen, computeNode_eq, computeNode_eq,
      treeRoot_singleton]
    exact foldTrace_besidesOf H hlen hblob

theorem traces_verify_of_four : (∀ H, TraceVerifies H [[1], [2], [3], [4]] 2) ∧
    ¬ ∀ H, TraceVerifies H [[1], [2], [3]] 2 := by
  refine ⟨(traces_verify _ _ (by decide) (by decide)).mpr ⟨2, rfl⟩, fun h => ?_⟩
  obtain ⟨levels, hlevels⟩ := (traces_verify _ _ (by decide) (by decide)).mp h
  exact three_ne_two_pow levels hlevels

theorem computeNode_pair (a b : List UInt8) : computeNode H [a, b] =
    nodeDigest H (leafDigest H a) (leafDigest H b) := by
  rw [computeNode_eq, treeRoot_halves _ _ _ (by simp)]
  simp [treeRoot_singleton]

theorem trace_of_three_fails : ¬ TraceVerifies hashOf [[1], [2], [3]] 2 := by
  rintro ⟨blob, hblob, h⟩
  cases hblob
  have htrace : computeTrace hashOf [[1], [2], [3]] (2 : Nat) = [computeNode hashOf [[1], [2]]] := by
    rw [computeTrace, if_neg (by decide), computeTrace, if_pos (by decide)]
    rfl
  have htree : computeNode hashOf [[1], [2], [3]] =
      nodeDigest hashOf (computeNode hashOf [[1]]) (computeNode hashOf [[2], [3]]) := by
    simp only [computeNode_eq]
    exact treeRoot_halves _ _ _ (by decide)
  rw [htrace, htree, computeNode_pair, computeNode_pair] at h
  simp only [computeNode_eq, treeRoot_singleton] at h
  exact absurd h (by decide)

end Strawberry.Merkle
