import Mathlib.Data.List.Basic
import Strawberry.Lib.Maps

/-!
# Maps that are kept by reference

An assignment through one copy of a reference is seen through all of them.
-/

namespace Strawberry

abbrev MapRef := Option Nat

abbrev MapStore (K V : Type) := List (GoMap K V)

namespace MapStore

variable {K V : Type}

def view (store : MapStore K V) (ref : MapRef) : GoMap K V := (ref.bind (store[·]?)).getD ∅

def Valid (store : MapStore K V) (ref : MapRef) : Prop := ∀ i ∈ ref, i < store.length

variable [DecidableEq K]

def assign (store : MapStore K V) (i : Nat) (k : K) (v : V) : MapStore K V :=
  store.modify i fun m => m.insert k v

def put (store : MapStore K V) (ref : MapRef) (k : K) (v : V) : MapStore K V × Nat :=
  match ref with
  | some i => (store.assign i k v, i)
  | none => (assign (store ++ [∅]) store.length k v, store.length)

variable {store : MapStore K V} {ref ref' : MapRef} {k : K} {v : V} {i : Nat}

omit [DecidableEq K] in
@[simp] theorem view_nil : store.view none = ∅ := rfl

@[simp] theorem length_assign : (store.assign i k v).length = store.length := by
  simp [assign]

theorem view_assign_self (h : i < store.length) :
    (store.assign i k v).view (some i) = (store.view (some i)).insert k v := by
  simp [view, assign, h]

theorem view_assign_of_ne (h : ref ≠ some i) : (store.assign i k v).view ref = store.view ref := by
  cases ref with
  | none => rfl
  | some j =>
    have hne : i ≠ j := fun heq => h (heq ▸ rfl)
    simp [view, assign, hne]

omit [DecidableEq K] in
theorem view_append_empty : view (store ++ [∅]) ref = store.view ref := by
  cases ref with
  | none => rfl
  | some j =>
    simp only [view, Option.bind_some]
    rcases Nat.lt_trichotomy j store.length with hlt | rfl | hlt
    · rw [List.getElem?_append_left hlt]
    · simp
    · rw [List.getElem?_eq_none (by simp; omega), List.getElem?_eq_none (by omega)]

omit [DecidableEq K] in
theorem Valid.ne_length (h : store.Valid ref) : ref ≠ some store.length := by
  intro heq
  exact Nat.lt_irrefl _ (h _ heq)

theorem view_put (h : store.Valid ref) :
    (store.put ref k v).1.view (some (store.put ref k v).2) = (store.view ref).insert k v := by
  cases ref with
  | some i => exact view_assign_self (h i rfl)
  | none =>
    unfold put
    rw [view_assign_self (by simp), view_append_empty]
    simp [view]

theorem view_put_old (h : store.Valid ref) : (store.put ref k v).1.view ref =
      if ref.isSome then (store.view ref).insert k v else store.view ref := by
  cases ref with
  | some i => exact view_assign_self (h i rfl)
  | none => rfl

theorem view_put_of_apart (h : store.Valid ref') (hapart : ∀ i ∈ ref, ref' ≠ some i) :
    (store.put ref k v).1.view ref' = store.view ref' := by
  cases ref with
  | some i => exact view_assign_of_ne (hapart i rfl)
  | none =>
    unfold put
    rw [view_assign_of_ne h.ne_length, view_append_empty]

theorem length_le_put : store.length ≤ (store.put ref k v).1.length := by
  cases ref with
  | some | none => simp [put]

theorem Valid.put (h : store.Valid ref') : (store.put ref k v).1.Valid ref' :=
  fun i hi => Nat.lt_of_lt_of_le (h i hi) length_le_put

theorem valid_put (h : store.Valid ref) :
    (store.put ref k v).1.Valid (some (store.put ref k v).2) := by
  rintro _ ⟨⟩
  cases ref with
  | some i => simpa [MapStore.put] using h i rfl
  | none => simp [MapStore.put]

theorem put_apart (h : store.Valid ref') (hapart : ∀ i ∈ ref, ref' ≠ some i) :
    ref' ≠ some (store.put ref k v).2 := by
  cases ref with
  | some i => exact hapart i rfl
  | none => exact h.ne_length

theorem lookup_assign {k' : K} {v' : V} (h : ((store.assign i k v).view ref).lookup k' = some v') :
    v' = v ∨ (store.view ref).lookup k' = some v' := by
  by_cases href : ref = some i
  · subst href
    by_cases hi : i < store.length
    · rw [view_assign_self hi] at h
      rcases GoMap.lookup_insert_eq_some.mp h with ⟨-, hv⟩ | ⟨-, hold⟩
      · exact .inl hv.symm
      · exact .inr hold
    · have hnone : store.assign i k v = store := List.modify_eq_self (Nat.not_lt.mp hi)
      rw [hnone] at h
      exact .inr h
  · rw [view_assign_of_ne href] at h
    exact .inr h

theorem lookup_put {k' : K} {v' : V} (h : ((store.put ref k v).1.view ref').lookup k' = some v') :
    v' = v ∨ (store.view ref').lookup k' = some v' := by
  cases ref with
  | some i => exact lookup_assign h
  | none =>
    rcases lookup_assign h with hv | hold
    · exact .inl hv
    · rw [view_append_empty] at hold
      exact .inr hold

theorem lookup_put_self {k' : K} {v' : V}
    (h : ((store.put ref k v).1.view (some (store.put ref k v).2)).lookup k' = some v') :
    v' = v ∨ (store.view ref).lookup k' = some v' := by
  rcases lookup_put h with hv | hold
  · exact .inl hv
  · cases ref with
    | some i => exact .inr hold
    | none =>
      have hempty : store.view (some store.length) = ∅ := by simp [view]
      rw [put, hempty] at hold
      cases hold

end MapStore

namespace GoMap

variable {K V W : Type}

def mapValues (f : V → W) (m : GoMap K V) : GoMap K W where
  entries := m.entries.map fun e => ⟨e.1, f e.2⟩
  nodupKeys := by
    rw [← Multiset.nodup_keys, Multiset.keys, Multiset.map_map]
    exact Multiset.nodup_keys.mpr m.nodupKeys

variable [DecidableEq K] {f : V → W} {m : GoMap K V}

theorem lookup_mapValues {k : K} : (m.mapValues f).lookup k = (m.lookup k).map f := by
  ext w
  rw [← Option.mem_def, Finmap.mem_lookup_iff, mapValues, Multiset.mem_map, Option.map_eq_some_iff]
  constructor
  · rintro ⟨⟨k', v⟩, hmem, heq⟩
    cases heq
    exact ⟨v, Finmap.mem_lookup_iff.mpr hmem, rfl⟩
  · rintro ⟨v, hv, rfl⟩
    exact ⟨⟨k, v⟩, Finmap.mem_lookup_iff.mp hv, rfl⟩

end GoMap

end Strawberry
