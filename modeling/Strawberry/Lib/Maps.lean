import Mathlib.Algebra.BigOperators.Group.Finset.Basic
import Mathlib.Algebra.BigOperators.Group.Multiset.Basic
import Mathlib.Algebra.Order.BigOperators.Group.Multiset
import Mathlib.Data.Finmap
import Mathlib.Data.Finset.Sort
import Strawberry.Lib.Outcome

/-!
# Finite maps

A missing key yields the zero value; a sum over all values does not depend on the order.
-/

namespace Strawberry

open List Finmap

abbrev GoMap (K V : Type) := Finmap fun _ : K => V

namespace GoMap

variable {K V : Type} [DecidableEq K]

def getD (m : GoMap K V) (k : K) (zero : V) : V := (m.lookup k).getD zero

def len (m : GoMap K V) : Nat := m.keys.card

def sumBy (f : V → Nat) (m : GoMap K V) : Nat := (m.entries.map fun e => f e.2).sum

variable {m : GoMap K V} {k k' : K} {v v' : V} {f : V → Nat}

omit [DecidableEq K] in
variable {zero : V} {src : GoMap K V} {α : Type}

theorem getD_of_lookup (h : m.lookup k = some v) : m.getD k zero = v := by
  rw [getD, h, Option.getD_some]

theorem getD_of_notMem (h : k ∉ m) : m.getD k zero = zero := by
  rw [getD, lookup_eq_none.mpr h, Option.getD_none]

theorem getD_insert : getD (m.insert k v) k zero = v := by
  rw [getD, lookup_insert, Option.getD_some]

theorem getD_insert_of_ne (h : k' ≠ k) :
    getD (m.insert k v) k' zero = m.getD k' zero := by
  rw [getD, lookup_insert_of_ne _ h, getD]

theorem lookup_insert_eq_some : (m.insert k v).lookup k' = some v' ↔
      (k' = k ∧ v = v') ∨ (k' ≠ k ∧ m.lookup k' = some v') := by
  by_cases hk : k' = k
  · rw [hk, lookup_insert, Option.some.injEq]
    simp
  · rw [lookup_insert_of_ne _ hk]
    simp [hk]

theorem lookup_erase_eq_some : (m.erase k).lookup k' = some v ↔ k' ≠ k ∧ m.lookup k' = some v := by
  by_cases hk : k' = k
  · rw [hk, lookup_erase]
    simp
  · rw [lookup_erase_ne hk]
    simp [hk]

theorem insert_erase : (m.erase k).insert k v = m.insert k v := by
  apply ext_lookup
  intro x
  by_cases hx : x = k
  · subst hx
    rw [lookup_insert, lookup_insert]
  · rw [lookup_insert_of_ne _ hx, lookup_insert_of_ne _ hx, lookup_erase_ne hx]

theorem insert_of_lookup (h : m.lookup k = some v) : m.insert k v = m := by
  apply ext_lookup
  intro x
  by_cases hx : x = k
  · subst hx
    rw [lookup_insert, h]
  · rw [lookup_insert_of_ne _ hx]

theorem insert_eq_self_iff : m.insert k v = m ↔ m.lookup k = some v := by
  constructor
  · intro h
    rw [← h, lookup_insert]
  · exact insert_of_lookup

theorem erase_eq_self_iff : m.erase k = m ↔ m.lookup k = none := by
  constructor
  · intro h
    rw [← h, lookup_erase]
  · intro h
    apply ext_lookup
    intro k'
    by_cases hk : k' = k
    · rw [hk, lookup_erase, h]
    · rw [lookup_erase_ne hk]

def copy (dst src : GoMap K V) : GoMap K V := src ∪ dst

def filterKeys (p : K → Bool) (m : GoMap K V) : GoMap K V where
  entries := m.entries.filter fun e => p e.1
  nodupKeys := by
    rw [← Multiset.nodup_keys]
    exact Multiset.nodup_of_le (Multiset.map_le_map (Multiset.filter_le _ _))
      (Multiset.nodup_keys.mpr m.nodupKeys)

theorem lookup_copy :
    (copy m src).lookup k = if k ∈ src then src.lookup k else m.lookup k := by
  unfold copy
  split
  · next h => exact lookup_union_left h
  · next h => exact lookup_union_right h

theorem mem_copy : k ∈ copy m src ↔ k ∈ src ∨ k ∈ m := mem_union

theorem copy_comm {src' : GoMap K V} (h : ∀ k ∈ src, k ∉ src') :
    copy (copy m src) src' = copy (copy m src') src := by
  apply ext_lookup
  intro k
  rw [lookup_copy, lookup_copy, lookup_copy, lookup_copy]
  by_cases hk : k ∈ src
  · rw [if_neg (h k hk), if_pos hk, if_pos hk]
  · rw [if_neg hk, if_neg hk]

theorem lookup_foldl_insert {key : α → K} {value : α → V} {l : List α}
    (h : (l.foldl (fun m a => m.insert (key a) (value a)) m).lookup k = some v) :
    m.lookup k = some v ∨ ∃ a ∈ l, key a = k ∧ value a = v := by
  induction l generalizing m with
  | nil => exact .inl h
  | cons a l ih =>
    rcases ih h with hfirst | ⟨b, hb, hkey⟩
    · rcases lookup_insert_eq_some.mp hfirst with ⟨hk, hv⟩ | ⟨-, hold⟩
      · exact .inr ⟨a, mem_cons_self, hk.symm, hv⟩
      · exact .inl hold
    · exact .inr ⟨b, mem_cons_of_mem _ hb, hkey⟩

theorem lookup_foldl_copy {src : α → GoMap K V} {l : List α}
    (h : (l.foldl (fun m a => copy m (src a)) m).lookup k = some v) :
    m.lookup k = some v ∨ ∃ a ∈ l, (src a).lookup k = some v := by
  induction l generalizing m with
  | nil => exact .inl h
  | cons a l ih =>
    rcases ih h with hfirst | ⟨b, hb, hkey⟩
    · rw [lookup_copy] at hfirst
      split at hfirst
      · exact .inr ⟨a, mem_cons_self, hfirst⟩
      · exact .inl hfirst
    · exact .inr ⟨b, mem_cons_of_mem _ hb, hkey⟩

theorem mem_foldl_copy {src : α → GoMap K V} {l : List α} :
    k ∈ l.foldl (fun m a => copy m (src a)) m ↔ k ∈ m ∨ ∃ a ∈ l, k ∈ src a := by
  induction l generalizing m with
  | nil => simp
  | cons a l ih =>
    simp only [foldl_cons, ih, mem_copy, mem_cons, exists_eq_or_imp]
    rw [or_comm (a := k ∈ src a), or_assoc]

theorem lookup_filterKeys {p : K → Bool} :
    (m.filterKeys p).lookup k = if p k then m.lookup k else none := by
  ext v
  rw [← Option.mem_def, mem_lookup_iff, filterKeys, Multiset.mem_filter]
  split
  · next h => rw [← Option.mem_def, mem_lookup_iff, and_iff_left h]
  · next h => simp [h]

theorem mem_filterKeys {p : K → Bool} : k ∈ m.filterKeys p ↔ p k ∧ k ∈ m := by
  rw [← lookup_isSome, lookup_filterKeys, ← lookup_isSome]
  split
  · next h => simp [h]
  · next h => simp [h]

omit [DecidableEq K] in
@[simp] theorem sumBy_empty : sumBy f (∅ : GoMap K V) = 0 := rfl

theorem sumBy_insert_of_notMem (h : k ∉ m) : sumBy f (m.insert k v) = f v + sumBy f m := by
  rw [sumBy, entries_insert_of_notMem h, Multiset.map_cons, Multiset.sum_cons, sumBy]

theorem sumBy_erase (h : m.lookup k = some v) : f v + sumBy f (m.erase k) = sumBy f m := by
  have hm : (m.erase k).insert k v = m := by rw [insert_erase, insert_of_lookup h]
  rw [← sumBy_insert_of_notMem notMem_erase_self, hm]

theorem sumBy_erase_le : sumBy f (m.erase k) ≤ sumBy f m := by
  cases h : m.lookup k with
  | none => rw [erase_eq_self_iff.mpr h]
  | some v =>
    rw [← sumBy_erase h]
    exact Nat.le_add_left _ _

theorem sumBy_insert : sumBy f (m.insert k v) + (m.lookup k).elim 0 f = sumBy f m + f v := by
  cases h : m.lookup k with
  | none =>
    rw [sumBy_insert_of_notMem (lookup_eq_none.mp h), Option.elim_none]
    omega
  | some old =>
    rw [← insert_erase, sumBy_insert_of_notMem notMem_erase_self, Option.elim_some,
      ← sumBy_erase h]
    omega

structure Traversal (s : Finset K) where
  keys : List K
  nodup : keys.Nodup
  mem_iff : ∀ k, k ∈ keys ↔ k ∈ s

noncomputable def Traversal.listed (s : Finset K) : Traversal s :=
  ⟨s.toList, s.nodup_toList, fun _ => Finset.mem_toList⟩

theorem Traversal.sum_eq {s : Finset K} (order : Traversal s) (f : K → Nat) :
    ∑ k ∈ s, f k = (order.keys.map f).sum := by
  have hkeys : s = order.keys.toFinset := by
    ext k
    rw [mem_toFinset, order.mem_iff]
  rw [← sum_toFinset f order.nodup]
  exact Finset.sum_congr hkeys fun _ _ => rfl

def Traversal.sorted (toNat : K → Nat) (ofNat : Nat → K) (h : Function.LeftInverse ofNat toNat)
    (s : Finset K) : Traversal s where
  keys := (s.image toNat).sort.map ofNat
  nodup := by
    refine (Finset.sort_nodup _ _).map_on ?_
    simp only [Finset.mem_sort, Finset.mem_image]
    rintro _ ⟨a, -, rfl⟩ _ ⟨b, -, rfl⟩ hab
    rw [h a, h b] at hab
    rw [hab]
  mem_iff k := by simp [h _]

def fillFrom (f : K → Outcome V) (keys : List K) (m : GoMap K V) : Outcome (GoMap K V) :=
  keys.foldlM (fun m k => do return m.insert k (← f k)) m

theorem fillFrom_returns {f : K → Outcome V} {keys : List K} {m : GoMap K V}
    (h : ∀ k ∈ keys, (f k).Returns) : (fillFrom f keys m).Returns := by
  apply foldlM_returns
  intro k hk m
  obtain ⟨v, hv⟩ := h k hk
  rw [hv]
  exact returns_ret (m.insert k v)

theorem fillFrom_eq_ret {f : K → Outcome V} {keys : List K} {m m' : GoMap K V}
    (h : fillFrom f keys m = .ret m') :
    (∀ k ∈ keys, ∃ v, f k = .ret v ∧ m'.lookup k = some v) ∧
      ∀ k, k ∉ keys → m'.lookup k = m.lookup k := by
  induction keys generalizing m with
  | nil =>
    cases h
    exact ⟨fun k hk => absurd hk (not_mem_nil), fun k _ => rfl⟩
  | cons k₀ keys ih =>
    rw [fillFrom, foldlM_cons, bind_eq_ret] at h
    obtain ⟨m₁, hm₁, h⟩ := h
    rw [bind_eq_ret] at hm₁
    obtain ⟨v₀, hv₀, hm₁⟩ := hm₁
    cases hm₁
    obtain ⟨hin, hout⟩ := ih h
    constructor
    · intro k hk
      by_cases hmem : k ∈ keys
      · exact hin k hmem
      · have hk₀ : k = k₀ := (mem_cons.mp hk).resolve_right hmem
        subst hk₀
        exact ⟨v₀, hv₀, by rw [hout k hmem, lookup_insert]⟩
    · intro k hk
      rw [mem_cons, not_or] at hk
      rw [hout k hk.2, lookup_insert_of_ne _ hk.1]

end GoMap

end Strawberry
