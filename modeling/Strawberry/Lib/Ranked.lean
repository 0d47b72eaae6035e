import Mathlib.Algebra.BigOperators.Group.Finset.Piecewise
import Mathlib.Algebra.GroupWithZero.Nat
import Mathlib.Data.List.Sort
import Mathlib.Order.RelClasses

/-!
# Ranked lists

The bounded merge of two lists keeps the first few of all their elements.
-/

namespace Strawberry

open List

variable {α κ : Type} {lt : κ → κ → Prop} {key : α → κ}

variable (lt key) in
def Ranked (l : List α) : Prop := l.Pairwise fun a b => lt (key a) (key b)

variable (lt key) in
def boundedMerge [DecidableRel lt] (n : Nat) (old new : List α) : List α :=
  ((old ++ new).insertionSort fun a b => ¬ lt (key b) (key a)).take n

theorem ranked_nil : Ranked lt key [] := List.Pairwise.nil

theorem ranked_of_isChain [IsTrans κ lt] {l : List α}
    (h : l.IsChain fun a b => lt (key a) (key b)) : Ranked lt key l := by
  have : Trans (fun a b => lt (key a) (key b)) (fun a b => lt (key a) (key b))
      fun a b => lt (key a) (key b) := ⟨fun hab hbc => IsTrans.trans _ _ _ hab hbc⟩
  exact h.pairwise

theorem Ranked.nodup_keys [Std.Irrefl lt] {l : List α} (h : Ranked lt key l) :
    (l.map key).Nodup := by
  refine pairwise_map.mpr (h.imp ?_)
  intro a b hlt heq
  rw [heq] at hlt
  exact Std.Irrefl.irrefl _ hlt

theorem Ranked.eq_of_mem_iff [Std.Irrefl lt] [Std.Asymm lt] {l l' : List α} (h : Ranked lt key l)
    (h' : Ranked lt key l') (hmem : ∀ a, a ∈ l ↔ a ∈ l') : l = l' := by
  have hirrefl : Std.Irrefl fun a b : α => lt (key a) (key b) := ⟨fun a => irrefl (key a)⟩
  have hantisymm : Std.Antisymm fun a b : α => lt (key a) (key b) :=
    ⟨fun _ _ hab hba => absurd hba (asymm hab)⟩
  exact List.Pairwise.eq_of_mem_iff h h' hmem

section

variable [IsStrictTotalOrder κ lt]

instance notAfter_total : Std.Total fun a b : α => ¬ lt (key b) (key a) where
  total a b := by
    by_cases h : lt (key b) (key a)
    · exact .inr (asymm h)
    · exact .inl h

instance notAfter_trans : IsTrans α fun a b => ¬ lt (key b) (key a) where
  trans a b c hab hbc hca := by
    rcases trichotomous_of lt (key a) (key b) with h | h | h
    · exact hbc (IsTrans.trans _ _ _ hca h)
    · rw [h] at hca
      exact hbc hca
    · exact hab h

variable [DecidableRel lt]

theorem ranked_insertionSort {l : List α} (h : (l.map key).Nodup) :
    Ranked lt key (l.insertionSort fun a b => ¬ lt (key b) (key a)) := by
  have hperm := perm_insertionSort (fun a b => ¬ lt (key b) (key a)) l
  have hnodup := pairwise_map.mp ((hperm.map key).nodup_iff.mpr h)
  have hsorted := pairwise_insertionSort (fun a b => ¬ lt (key b) (key a)) l
  refine (hsorted.and hnodup).imp ?_
  rintro a b ⟨hle, hne⟩
  rcases trichotomous_of lt (key a) (key b) with hlt | heq | hgt
  · exact hlt
  · exact absurd heq hne
  · exact absurd hgt hle

variable {n : Nat} {old new : List α}

omit [IsStrictTotalOrder κ lt] in
theorem mem_of_mem_boundedMerge {x : α} (h : x ∈ boundedMerge lt key n old new) : x ∈ old ++ new :=
  (mem_insertionSort _).mp (mem_of_mem_take h)

omit [IsStrictTotalOrder κ lt] in
theorem length_boundedMerge :
    (boundedMerge lt key n old new).length = min n (old.length + new.length) := by
  rw [boundedMerge, length_take, length_insertionSort, length_append]

theorem ranked_boundedMerge (h : ((old ++ new).map key).Nodup) :
    Ranked lt key (boundedMerge lt key n old new) :=
  List.Pairwise.sublist (take_sublist _ _) (ranked_insertionSort h)

theorem lt_of_notMem_boundedMerge (h : ((old ++ new).map key).Nodup) {x y : α}
    (hx : x ∈ old ++ new) (hout : x ∉ boundedMerge lt key n old new)
    (hy : y ∈ boundedMerge lt key n old new) : lt (key y) (key x) := by
  have hranked : Ranked lt key _ := ranked_insertionSort h
  rw [Ranked, ← take_append_drop n (List.insertionSort _ _), pairwise_append] at hranked
  refine hranked.2.2 y hy x ?_
  have hsorted := (mem_insertionSort fun a b => ¬ lt (key b) (key a)).mpr hx
  rw [← take_append_drop n (List.insertionSort _ _), mem_append] at hsorted
  exact hsorted.resolve_left hout

omit [IsStrictTotalOrder κ lt] in
theorem mem_boundedMerge_of_key (h : ((old ++ new).map key).Nodup) {x : α} (hx : x ∈ old ++ new)
    (hkey : key x ∈ (boundedMerge lt key n old new).map key) :
    x ∈ boundedMerge lt key n old new := by
  obtain ⟨y, hy, heq⟩ := mem_map.mp hkey
  have hsame : y = x := inj_on_of_nodup_map h (mem_of_mem_boundedMerge hy) hx heq
  rw [← hsame]
  exact hy

end

end Strawberry

namespace Strawberry

open List

variable {α β : Type} [DecidableEq β] {key : α → β}

section

variable [LE β] [DecidableLE β] [Std.IsLinearOrder β]

theorem filter_key_insertionSort (l : List α) (k : β) :
    (l.insertionSort fun x y => key x ≤ key y).filter (fun x => key x = k) =
      l.filter fun x => key x = k := by
  have hsorted : (l.filter fun x => key x = k).Pairwise fun x y => key x ≤ key y := by
    refine pairwise_of_forall_mem_list fun x hx y hy => ?_
    rw [mem_filter, decide_eq_true_eq] at hx hy
    rw [hx.2, hy.2]
    exact Std.le_refl k
  have hsub := (sublist_insertionSort hsorted filter_sublist).filter fun x => key x = k
  rw [filter_filter] at hsub
  simp only [Bool.and_self] at hsub
  have hperm := (perm_insertionSort (fun x y => key x ≤ key y) l).filter fun x => key x = k
  exact (hsub.eq_of_length hperm.length_eq.symm).symm

omit [DecidableLE β] in
theorem head_key_le {x y : α} {l l' : List α} (hl' : (y :: l').Pairwise fun x y => key x ≤ key y)
    (h : (x :: l).filter (fun z => key z = key x) = (y :: l').filter fun z => key z = key x) :
    key y ≤ key x := by
  have hx : x ∈ (y :: l').filter fun z => key z = key x := by
    rw [← h]
    simp
  rcases mem_cons.mp (mem_filter.mp hx).1 with rfl | hmem
  · exact Std.le_refl _
  · exact (pairwise_cons.mp hl').1 x hmem

omit [DecidableLE β] in
theorem eq_of_filter_key {l l' : List α} (hl : l.Pairwise fun x y => key x ≤ key y)
    (hl' : l'.Pairwise fun x y => key x ≤ key y)
    (h : ∀ k, l.filter (fun x => key x = k) = l'.filter fun x => key x = k) : l = l' := by
  induction l generalizing l' with
  | nil =>
    cases l' with
    | nil => rfl
    | cons y l' =>
      have hy := h (key y)
      simp at hy
  | cons x l ih =>
    cases l' with
    | nil =>
      have hx := h (key x)
      simp at hx
    | cons y l' =>
      have hkey : key x = key y :=
        Std.le_antisymm (head_key_le hl (h (key y)).symm) (head_key_le hl' (h (key x)))
      have hhead : x = y := by
        have hk := h (key x)
        rw [filter_cons_of_pos (by simp), filter_cons_of_pos (by simp [hkey])] at hk
        exact (List.cons.inj hk).1
      subst hhead
      congr 1
      refine ih (pairwise_cons.mp hl).2 (pairwise_cons.mp hl').2 fun k => ?_
      have hk := h k
      by_cases hx : key x = k
      · rw [filter_cons_of_pos (by simpa using hx),
          filter_cons_of_pos (by simpa using hx)] at hk
        exact (List.cons.inj hk).2
      · rwa [filter_cons_of_neg (by simpa using hx),
          filter_cons_of_neg (by simpa using hx)] at hk

theorem insertionSort_eq_of_filter_key {l l' : List α}
    (h : ∀ k, l.filter (fun x => key x = k) = l'.filter fun x => key x = k) :
    (l.insertionSort fun x y => key x ≤ key y) = l'.insertionSort fun x y => key x ≤ key y := by
  have htrans : IsTrans α fun x y => key x ≤ key y := ⟨fun _ _ _ => Std.le_trans⟩
  have htotal : Std.Total fun x y : α => key x ≤ key y := ⟨fun _ _ => Std.le_total⟩
  refine eq_of_filter_key (pairwise_insertionSort _ l) (pairwise_insertionSort _ l') ?_
  intro k
  rw [filter_key_insertionSort, filter_key_insertionSort, h]

end

theorem filter_key_flatMap {f : β → List α} {order : List β} (hnodup : order.Nodup)
    (hf : ∀ s ∈ order, ∀ x ∈ f s, key x = s) (k : β) :
    (order.flatMap f).filter (fun x => key x = k) = if k ∈ order then f k else [] := by
  induction order with
  | nil => rfl
  | cons s order ih =>
    have hrest := ih (nodup_cons.mp hnodup).2 fun t ht => hf t (mem_cons_of_mem s ht)
    have hs := hf s mem_cons_self
    rw [flatMap_cons, filter_append, hrest]
    by_cases hk : k = s
    · subst hk
      have hall : (f k).filter (fun x => key x = k) = f k :=
        filter_eq_self.mpr fun x hx => by simpa using hs x hx
      rw [hall, if_neg (nodup_cons.mp hnodup).1, if_pos mem_cons_self, append_nil]
    · have hnone : (f s).filter (fun x => key x = k) = [] := by
        refine filter_eq_nil_iff.mpr fun x hx => ?_
        rw [hs x hx, decide_eq_true_eq]
        exact fun h => hk h.symm
      have hmem : k ∈ s :: order ↔ k ∈ order := by simp [hk]
      simp only [hnone, hmem, nil_append]

theorem insertionSort_flatMap_eq [LE β] [DecidableLE β] [Std.IsLinearOrder β] {f : β → List α}
    {order order' : List β} (hnodup : order.Nodup)
    (hperm : order.Perm order') (hf : ∀ s ∈ order, ∀ x ∈ f s, key x = s) :
    ((order.flatMap f).insertionSort fun x y => key x ≤ key y) =
      (order'.flatMap f).insertionSort fun x y => key x ≤ key y := by
  refine insertionSort_eq_of_filter_key fun k => ?_
  have hf' : ∀ s ∈ order', ∀ x ∈ f s, key x = s := fun s hs => hf s (hperm.mem_iff.mpr hs)
  rw [filter_key_flatMap hnodup hf, filter_key_flatMap (hperm.nodup_iff.mp hnodup) hf']
  simp only [hperm.mem_iff]

end Strawberry
