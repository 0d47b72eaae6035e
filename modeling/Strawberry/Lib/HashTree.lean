import Mathlib.Algebra.GroupWithZero.Nat
import Mathlib.Data.List.Basic
import Mathlib.Data.List.Perm.Basic
import Mathlib.Data.Nat.Log

/-!
# Hash trees

The balanced tree over a list, with the digests beside the path to a part of it, and the binary trie
over keys. Digests are of any type.
-/

namespace Strawberry

open List

section

variable {α δ : Type} (empty : δ) (leaf : α → δ) (node : δ → δ → δ)

def treeRoot : List α → δ
  | [] => empty
  | [a] => leaf a
  | a :: b :: l =>
    node (treeRoot ((a :: b :: l).take ((a :: b :: l).length / 2)))
      (treeRoot ((a :: b :: l).drop ((a :: b :: l).length / 2)))
termination_by l => l.length
decreasing_by
  · simp only [length_take, length_cons]
    omega
  · simp only [length_drop, length_cons]
    omega

theorem treeRoot_singleton (a : α) : treeRoot empty leaf node [a] = leaf a := by
  rw [treeRoot]

theorem treeRoot_halves {l : List α} (h : 2 ≤ l.length) : treeRoot empty leaf node l =
      node (treeRoot empty leaf node (l.take (l.length / 2)))
        (treeRoot empty leaf node (l.drop (l.length / 2))) := by
  match l with
  | a :: b :: l => rw [treeRoot]

theorem halves_ne_nil {l : List α} (h : 2 ≤ l.length) :
    l.take (l.length / 2) ≠ [] ∧ l.drop (l.length / 2) ≠ [] := by
  constructor
  · exact ne_nil_of_length_pos (by rw [length_take]; omega)
  · exact ne_nil_of_length_pos (by rw [length_drop]; omega)

theorem length_halves {levels : Nat} {l : List α} (h : l.length = 2 ^ (levels + 1)) :
    (l.take (2 ^ levels)).length = 2 ^ levels ∧ (l.drop (2 ^ levels)).length = 2 ^ levels := by
  rw [length_take, length_drop]
  omega

/-- Two digests that the tree over a list puts together. -/
inductive Combines : List α → δ → δ → Prop where
  | top {l : List α} (h : 2 ≤ l.length) :
    Combines l (treeRoot empty leaf node (l.take (l.length / 2)))
      (treeRoot empty leaf node (l.drop (l.length / 2)))
  | left {l : List α} {x y : δ} (h : 2 ≤ l.length) (hleft : Combines (l.take (l.length / 2)) x y) :
    Combines l x y
  | right {l : List α} {x y : δ} (h : 2 ≤ l.length)
    (hright : Combines (l.drop (l.length / 2)) x y) : Combines l x y

variable {empty leaf node}

theorem Combines.two_le {l : List α} {x y : δ} (h : Combines empty leaf node l x y) :
    2 ≤ l.length := by
  cases h with
  | top h | left h | right h => exact h

theorem treeRoot_binding {l l' : List α} (hlen : l.length = l'.length)
    (hleaf : ∀ a ∈ l, ∀ a' ∈ l', leaf a = leaf a' → a = a')
    (hnode : ∀ x y x' y', Combines empty leaf node l x y → Combines empty leaf node l' x' y' →
      node x y = node x' y' → x = x' ∧ y = y')
    (h : treeRoot empty leaf node l = treeRoot empty leaf node l') : l = l' := by
  induction hn : l.length using Nat.strong_induction_on generalizing l l' with
  | _ n ih =>
    rcases Nat.lt_or_ge l.length 2 with hshort | hlong
    · cases l with
      | nil => exact (length_eq_zero_iff.mp hlen.symm).symm
      | cons a l =>
        obtain rfl : l = [] := by
          rw [length_cons] at hshort
          exact length_eq_zero_iff.mp (by omega)
        obtain ⟨a', rfl⟩ := length_eq_one_iff.mp hlen.symm
        rw [treeRoot_singleton, treeRoot_singleton] at h
        rw [hleaf a mem_cons_self a' mem_cons_self h]
    · have hlong' : 2 ≤ l'.length := hlen ▸ hlong
      rw [treeRoot_halves _ _ _ hlong, treeRoot_halves _ _ _ hlong'] at h
      obtain ⟨hleft, hright⟩ := hnode _ _ _ _ (.top hlong) (.top hlong') h
      have htake : l.take (l.length / 2) = l'.take (l'.length / 2) := by
        refine ih (l.take (l.length / 2)).length ?_ ?_ ?_ ?_ hleft rfl
        · rw [length_take]
          omega
        · rw [length_take, length_take, hlen]
        · intro a ha a' ha'
          exact hleaf a (mem_of_mem_take ha) a' (mem_of_mem_take ha')
        · intro x y x' y' hx hx'
          exact hnode x y x' y' (.left hlong hx) (.left hlong' hx')
      have hdrop : l.drop (l.length / 2) = l'.drop (l'.length / 2) := by
        refine ih (l.drop (l.length / 2)).length ?_ ?_ ?_ ?_ hright rfl
        · rw [length_drop]
          omega
        · rw [length_drop, length_drop, hlen]
        · intro a ha a' ha'
          exact hleaf a (mem_of_mem_drop ha) a' (mem_of_mem_drop ha')
        · intro x y x' y' hx hx'
          exact hnode x y x' y' (.right hlong hx) (.right hlong' hx')
      rw [← take_append_drop (l.length / 2) l, htake, hdrop, take_append_drop]

section

variable (node)

def climb (start : δ) : List δ → Nat → δ
  | [], _ => start
  | beside :: above, index =>
    climb (if index % 2 = 0 then node start beside else node beside start) above (index / 2)

theorem climb_append (start top : δ) (besides : List δ) (index : Nat) :
    climb node start (besides ++ [top]) index =
      if index / 2 ^ besides.length % 2 = 0 then node (climb node start besides index) top
      else node top (climb node start besides index) := by
  induction besides generalizing start index with
  | nil => simp [climb]
  | cons beside besides ih =>
    rw [cons_append, climb, ih, climb, length_cons, Nat.div_div_eq_div_mul,
      ← Nat.pow_succ']

theorem climb_add (start : δ) (besides : List δ) (index high : Nat) :
    climb node start besides (index + 2 ^ besides.length * high) =
      climb node start besides index := by
  induction besides generalizing start index with
  | nil => rfl
  | cons beside besides ih =>
    have hmod : (index + 2 ^ (besides.length + 1) * high) % 2 = index % 2 := by
      rw [Nat.pow_succ', Nat.mul_assoc, Nat.add_mul_mod_self_left]
    have hdiv : (index + 2 ^ (besides.length + 1) * high) / 2 =
        index / 2 + 2 ^ besides.length * high := by
      rw [Nat.pow_succ', Nat.mul_assoc, Nat.add_mul_div_left _ _ (by decide)]
    rw [climb, climb, length_cons, hmod, hdiv, ih]

end

variable (empty leaf node)

def besidesOf : Nat → List α → Nat → List δ
  | 0, _, _ => []
  | levels + 1, l, index =>
    if index < 2 ^ levels then
      treeRoot empty leaf node (l.drop (2 ^ levels)) :: besidesOf levels (l.take (2 ^ levels)) index
    else
      treeRoot empty leaf node (l.take (2 ^ levels)) ::
        besidesOf levels (l.drop (2 ^ levels)) (index - 2 ^ levels)

theorem length_besidesOf (levels : Nat) (l : List α) (index : Nat) :
    (besidesOf empty leaf node levels l index).length = levels := by
  induction levels generalizing l index with
  | zero => rfl
  | succ levels ih =>
    unfold besidesOf
    split
    · rw [length_cons, ih]
    · rw [length_cons, ih]

theorem mem_besidesOf {levels : Nat} {l : List α} {index : Nat} (hlen : l.length = 2 ^ levels)
    {d : δ} (h : d ∈ besidesOf empty leaf node levels l index) :
    ∃ part, part ≠ [] ∧ part.length ≤ l.length ∧ (∀ a ∈ part, a ∈ l) ∧
      d = treeRoot empty leaf node part := by
  induction levels generalizing l index with
  | zero => cases h
  | succ levels ih =>
    have hpos := Nat.two_pow_pos levels
    obtain ⟨htake, hdrop⟩ := length_halves hlen
    unfold besidesOf at h
    split at h
    · rcases mem_cons.mp h with rfl | hd
      · exact ⟨_, ne_nil_of_length_pos (by omega), by omega, fun _ => mem_of_mem_drop, rfl⟩
      · obtain ⟨part, hne, hle, hmem, rfl⟩ := ih htake hd
        exact ⟨part, hne, by omega, fun a ha => mem_of_mem_take (hmem a ha), rfl⟩
    · rcases mem_cons.mp h with rfl | hd
      · exact ⟨_, ne_nil_of_length_pos (by omega), by omega, fun _ => mem_of_mem_take, rfl⟩
      · obtain ⟨part, hne, hle, hmem, rfl⟩ := ih hdrop hd
        exact ⟨part, hne, by omega, fun a ha => mem_of_mem_drop (hmem a ha), rfl⟩

theorem climb_besidesOf {above x : Nat} {l : List α} (hlen : l.length = 2 ^ (above + x))
    {page : Nat} (hpage : page < 2 ^ above) :
    climb node (treeRoot empty leaf node ((l.drop (2 ^ x * page)).take (2 ^ x)))
      ((besidesOf empty leaf node (above + x) l (2 ^ x * page)).take above).reverse page =
      treeRoot empty leaf node l := by
  induction above generalizing l page with
  | zero =>
    obtain rfl : page = 0 := by simpa using hpage
    rw [Nat.zero_add] at hlen
    rw [Nat.mul_zero, drop_zero, take_of_length_le (Nat.le_of_eq hlen)]
    rfl
  | succ above ih =>
    rw [Nat.add_right_comm above 1 x] at hlen ⊢
    obtain ⟨htake, hdrop⟩ := length_halves hlen
    have hpos := Nat.two_pow_pos (above + x)
    have hmid : l.length / 2 = 2 ^ (above + x) := by omega
    have hsplit : 2 ^ (above + x) = 2 ^ x * 2 ^ above := by rw [Nat.add_comm, Nat.pow_add]
    have hcount : ∀ (half : List α) (index : Nat),
        ((besidesOf empty leaf node (above + x) half index).take above).reverse.length =
          above := by
      intro half index
      rw [length_reverse, length_take, length_besidesOf, Nat.min_eq_left (by omega)]
    have htwo : 2 ≤ l.length := by omega
    rw [treeRoot_halves _ _ _ htwo, hmid]
    unfold besidesOf
    by_cases hleft : page < 2 ^ above
    · have hfits : 2 ^ x * (page + 1) ≤ 2 ^ (above + x) := by
        rw [hsplit]
        exact Nat.mul_le_mul_left _ hleft
      rw [Nat.mul_succ] at hfits
      have hpos := Nat.two_pow_pos x
      have hblock : ((l.take (2 ^ (above + x))).drop (2 ^ x * page)).take (2 ^ x) =
          (l.drop (2 ^ x * page)).take (2 ^ x) := by
        rw [drop_take, take_take, Nat.min_eq_left (by omega)]
      rw [if_pos (by omega), take_succ_cons, reverse_cons, climb_append, hcount,
        Nat.div_eq_of_lt hleft, if_pos rfl, ← hblock, ih htake hleft]
    · have hback : 2 ^ x * page = 2 ^ (above + x) + 2 ^ x * (page - 2 ^ above) := by
        rw [hsplit, ← Nat.mul_add, Nat.add_sub_cancel' (Nat.not_lt.mp hleft)]
      have hpage' : page - 2 ^ above < 2 ^ above := by
        rw [Nat.pow_succ] at hpage
        omega
      have hdigit : page / 2 ^ above = 1 := by
        rw [Nat.div_eq_iff (Nat.two_pow_pos above)]
        omega
      have hlow := climb_add node (treeRoot empty leaf node (((l.drop (2 ^ (above + x))).drop
          (2 ^ x * (page - 2 ^ above))).take (2 ^ x)))
        ((besidesOf empty leaf node (above + x) (l.drop (2 ^ (above + x)))
          (2 ^ x * (page - 2 ^ above))).take above).reverse (page - 2 ^ above) 1
      rw [hcount, Nat.mul_one, Nat.sub_add_cancel (Nat.not_lt.mp hleft), ih hdrop hpage',
        drop_drop, ← hback] at hlow
      rw [if_neg (by omega), take_succ_cons, reverse_cons, climb_append, hcount, hdigit,
        if_neg (by decide)]
      rw [show 2 ^ x * page - 2 ^ (above + x) = 2 ^ x * (page - 2 ^ above) by omega, hlow]

end

inductive BitTrie (α : Type) where
  | empty
  | leaf (a : α)
  | node (left right : BitTrie α)

namespace BitTrie

variable {α β : Type}

def build (bit : α → Nat → Bool) : (depth i : Nat) → List α → BitTrie α
  | _, _, [] => .empty
  | _, _, [a] => .leaf a
  | 0, _, _ :: _ :: _ => .empty
  | depth + 1, i, a :: b :: xs =>
    .node (build bit depth (i + 1) ((a :: b :: xs).filter fun x => !bit x i))
      (build bit depth (i + 1) ((a :: b :: xs).filter fun x => bit x i))

def items : BitTrie α → List α
  | .empty => []
  | .leaf a => [a]
  | .node left right => left.items ++ right.items

def map (f : α → β) : BitTrie α → BitTrie β
  | .empty => .empty
  | .leaf a => .leaf (f a)
  | .node left right => .node (left.map f) (right.map f)

theorem items_map (f : α → β) (t : BitTrie α) : (t.map f).items = t.items.map f := by
  induction t with
  | empty | leaf => rfl
  | node left right ihl ihr => rw [map, items, items, map_append, ihl, ihr]

variable {bit : α → Nat → Bool} {depth i : Nat} {xs ys : List α}

theorem build_perm (h : xs.Perm ys) : build bit depth i xs = build bit depth i ys := by
  induction depth generalizing i xs ys with
  | zero =>
    match xs, ys, h with
    | [], _, h => rw [nil_perm.mp h]
    | [a], _, h => rw [singleton_perm.mp h]
    | _ :: _ :: _, [], h => cases h.length_eq
    | _ :: _ :: _, [_], h => cases h.length_eq
    | _ :: _ :: _, _ :: _ :: _, _ => rfl
  | succ depth ih =>
    match xs, ys, h with
    | [], _, h => rw [nil_perm.mp h]
    | [a], _, h => rw [singleton_perm.mp h]
    | _ :: _ :: _, [], h => cases h.length_eq
    | _ :: _ :: _, [_], h => cases h.length_eq
    | _ :: _ :: _, _ :: _ :: _, h =>
      rw [build, build, ih (h.filter fun x => !bit x i), ih (h.filter fun x => bit x i)]

def Separated (bit : α → Nat → Bool) (depth i : Nat) (xs : List α) : Prop :=
  xs.Pairwise fun a b => ∃ j, i ≤ j ∧ j < i + depth ∧ bit a j ≠ bit b j

theorem Separated.filter {p : α → Bool} (h : Separated bit (depth + 1) i xs)
    (hp : ∀ a b, p a → p b → bit a i = bit b i) :
    Separated bit depth (i + 1) (xs.filter p) := by
  refine (List.Pairwise.filter p h).imp_of_mem ?_
  rintro a b ha hb ⟨j, hij, hj, hne⟩
  have hbit := hp a b (mem_filter.mp ha).2 (mem_filter.mp hb).2
  have hji : j ≠ i := by
    rintro rfl
    exact hne hbit
  exact ⟨j, by omega, by omega, hne⟩

theorem Separated.left (h : Separated bit (depth + 1) i xs) :
    Separated bit depth (i + 1) (xs.filter fun x => !bit x i) := by
  apply h.filter
  intro a b ha hb
  simp only [Bool.not_eq_true'] at ha hb
  rw [ha, hb]

theorem Separated.right (h : Separated bit (depth + 1) i xs) :
    Separated bit depth (i + 1) (xs.filter fun x => bit x i) := by
  apply h.filter
  intro a b ha hb
  rw [ha, hb]

theorem Separated.length_le_one (h : Separated bit 0 i xs) : xs.length ≤ 1 := by
  match xs, h with
  | [], _ => exact Nat.zero_le 1
  | [_], _ => exact Nat.le_refl 1
  | a :: b :: xs, h =>
    obtain ⟨j, hij, hj, -⟩ := rel_of_pairwise_cons h mem_cons_self
    omega

theorem items_build (h : Separated bit depth i xs) : (build bit depth i xs).items.Perm xs := by
  induction depth generalizing i xs with
  | zero =>
    match xs, h.length_le_one with
    | [], _ => exact List.Perm.nil
    | [a], _ => exact List.Perm.refl [a]
  | succ depth ih =>
    match xs, h with
    | [], _ => exact List.Perm.nil
    | [a], _ => exact List.Perm.refl [a]
    | a :: b :: xs, h =>
      rw [build, items]
      refine ((ih h.left).append (ih h.right)).trans ?_
      refine perm_append_comm.trans ?_
      exact filter_append_perm (fun x => bit x i) (a :: b :: xs)

end BitTrie

end Strawberry
