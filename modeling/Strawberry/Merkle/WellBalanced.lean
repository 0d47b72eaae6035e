import Mathlib.Data.List.Nodup
import Mathlib.Data.Set.Function
import Strawberry.Lib.HashTree
import Strawberry.Merkle

/-!
# Well-balanced trees

`ComputeNode` is the root of the halved list. Blobs and nodes are told apart by their lengths.
-/

namespace Strawberry.Merkle

open List

variable (H : HashData)

def leafDigest (blob : List UInt8) : List UInt8 := (H blob).toList

def joined (left right : List UInt8) : List UInt8 := ascii "node" ++ left ++ right

def nodeDigest (left right : List UInt8) : List UInt8 := (H (joined left right)).toList

theorem computeNode_eq (blobs : List (List UInt8)) :
    computeNode H blobs = treeRoot [] (leafDigest H) (nodeDigest H) blobs := by
  fun_induction computeNode H blobs with
  | case1 => rw [treeRoot]
  | case2 blob =>
    rw [treeRoot_singleton]
    rfl
  | case3 b₀ b₁ rest blobs mid ihleft ihright =>
    rw [treeRoot_halves _ _ _ (by simp), ihleft, ihright]
    rfl

variable {H} {blobs : List (List UInt8)}

theorem length_treeRoot (h : blobs ≠ []) :
    (treeRoot [] (leafDigest H) (nodeDigest H) blobs).length = 32 := by
  match blobs with
  | [blob] =>
    rw [treeRoot_singleton]
    exact Vector.length_toList
  | b₀ :: b₁ :: rest =>
    rw [treeRoot_halves _ _ _ (by simp)]
    exact Vector.length_toList

theorem length_computeNode (h : blobs ≠ []) : (computeNode H blobs).length = 32 := by
  rw [computeNode_eq, length_treeRoot h]

variable (H) in
def hashed (blobs : List (List UInt8)) : Set (List UInt8) :=
  {data | data ∈ blobs ∨ ∃ left right, Combines [] (leafDigest H) (nodeDigest H) blobs left right ∧
      data = joined left right}

theorem length_of_combines {left right : List UInt8}
    (h : Combines [] (leafDigest H) (nodeDigest H) blobs left right) :
    left.length = 32 ∧ right.length = 32 := by
  induction h with
  | top h => exact ⟨length_treeRoot (halves_ne_nil h).1, length_treeRoot (halves_ne_nil h).2⟩
  | left _ _ ih | right _ _ ih => exact ih

theorem joined_inj {left right left' right' : List UInt8} (hlen : left.length = left'.length)
    (h : joined left right = joined left' right') : left = left' ∧ right = right' := by
  unfold joined at h
  rw [append_assoc, append_assoc] at h
  exact append_inj (append_cancel_left h) hlen

theorem toList_computeWellBalancedRoot (h : blobs ≠ []) :
    (computeWellBalancedRoot H blobs).toList = computeNode H blobs := by
  match blobs with
  | [blob] =>
    rw [computeNode]
    rfl
  | b₀ :: b₁ :: rest => exact toList_toArray (length_computeNode h)

/-- Equal roots come from equal lists. -/
theorem well_balanced_root_binding {blobs blobs' : List (List UInt8)} (hne : blobs ≠ [])
    (hlen : blobs.length = blobs'.length)
    (hfree : Set.InjOn H (hashed H blobs ∪ hashed H blobs'))
    (h : computeWellBalancedRoot H blobs = computeWellBalancedRoot H blobs') :
    blobs = blobs' := by
  have hne' : blobs' ≠ [] := by
    rintro rfl
    exact hne (length_eq_zero_iff.mp hlen)
  have hroots := congrArg Vector.toList h
  rw [toList_computeWellBalancedRoot hne, toList_computeWellBalancedRoot hne', computeNode_eq,
    computeNode_eq] at hroots
  refine treeRoot_binding hlen ?_ ?_ hroots
  · intro blob hblob blob' hblob' hleaf
    exact hfree (.inl (.inl hblob)) (.inr (.inl hblob')) (Vector.toList_inj.mp hleaf)
  · intro left right left' right' hcombines hcombines' hnode
    have hjoined := hfree (.inl (.inr ⟨_, _, hcombines, rfl⟩))
      (.inr (.inr ⟨_, _, hcombines', rfl⟩)) (Vector.toList_inj.mp hnode)
    refine joined_inj ?_ hjoined
    rw [(length_of_combines hcombines).1, (length_of_combines hcombines').1]

theorem hashed_pair (a b : List UInt8) : hashed H [a, b] ⊆
      {data | data ∈ [a, b, joined (leafDigest H a) (leafDigest H b)]} := by
  rintro data (hblob | ⟨left, right, hcombines, rfl⟩)
  · exact mem_append_left [_] hblob
  · cases hcombines with
    | top h => simp [treeRoot_singleton]
    | left h hleft => exact absurd hleft.two_le (by simp)
    | right h hright => exact absurd hright.two_le (by simp)

theorem well_balanced_roots_differ :
    computeWellBalancedRoot hashOf [[1], [2]] ≠ computeWellBalancedRoot hashOf [[3], [2]] := by
  intro h
  have hfree : Set.InjOn hashOf (hashed hashOf [[1], [2]] ∪ hashed hashOf [[3], [2]]) := by
    have hlist : Set.InjOn hashOf {data | data ∈ [[1], [2], [3],
        joined (leafDigest hashOf [1]) (leafDigest hashOf [2]),
        joined (leafDigest hashOf [3]) (leafDigest hashOf [2])]} := by
      refine inj_on_of_nodup_map ?_
      decide +kernel
    refine hlist.mono (Set.union_subset ((hashed_pair _ _).trans ?_) ((hashed_pair _ _).trans ?_))
    · intro data hdata
      simp only [Set.mem_ofPred_eq, mem_cons, not_mem_nil, or_false] at hdata ⊢
      tauto
    · intro data hdata
      simp only [Set.mem_ofPred_eq, mem_cons, not_mem_nil, or_false] at hdata ⊢
      tauto
  have hlists := @well_balanced_root_binding hashOf [[1], [2]] [[3], [2]] (cons_ne_nil _ _) rfl
    hfree h
  cases hlists

end Strawberry.Merkle
