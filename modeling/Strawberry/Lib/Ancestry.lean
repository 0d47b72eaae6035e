import Mathlib.Logic.Basic

/-!
# Ancestors

Nodes with at most one parent each.  `ancestor parent k a` is the node that `k` steps lead to.
-/

namespace Strawberry.Ancestry

open Option

variable {α : Type}

def ancestor (parent : α → Option α) : Nat → α → Option α
  | 0, a => some a
  | k + 1, a => (parent a).bind (ancestor parent k)

def Descends (parent : α → Option α) (a b : α) : Prop := ∃ k, ancestor parent k a = some b

variable {parent parent' : α → Option α} {a b c : α} {j k : Nat}

theorem ancestor_succ (h : parent a = some b) : ancestor parent (k + 1) a = ancestor parent k b := by
  rw [ancestor, h, bind_some]

theorem ancestor_add (h : ancestor parent j a = some b) :
    ancestor parent (j + k) a = ancestor parent k b := by
  induction j generalizing a with
  | zero =>
    cases h
    rw [Nat.zero_add]
  | succ j ih =>
    obtain ⟨p, hp, h⟩ := bind_eq_some_iff.mp h
    rw [Nat.succ_add, ancestor_succ hp, ih h]

theorem ancestor_succ_eq_some :
    ancestor parent (k + 1) a = some c ↔ ∃ b, ancestor parent k a = some b ∧ parent b = some c := by
  induction k generalizing a with
  | zero =>
    constructor
    · intro h
      obtain ⟨p, hp, h⟩ := bind_eq_some_iff.mp h
      cases h
      exact ⟨a, rfl, hp⟩
    · rintro ⟨b, hb, hp⟩
      cases hb
      rw [ancestor_succ hp, ancestor]
  | succ k ih =>
    constructor
    · intro h
      obtain ⟨p, hp, h⟩ := bind_eq_some_iff.mp h
      obtain ⟨b, hb, hc⟩ := ih.mp h
      exact ⟨b, by rw [ancestor_succ hp, hb], hc⟩
    · rintro ⟨b, hb, hc⟩
      obtain ⟨p, hp, hb⟩ := bind_eq_some_iff.mp hb
      rw [ancestor_succ hp]
      exact ih.mpr ⟨b, hb, hc⟩

theorem exists_ancestor_of_le (h : ancestor parent k a = some c) (hj : j ≤ k) :
    ∃ b, ancestor parent j a = some b ∧ ancestor parent (k - j) b = some c := by
  cases hb : ancestor parent j a with
  | none =>
    have hnone : ancestor parent (j + (k - j)) a = none := by
      clear h
      generalize k - j = n
      induction j generalizing a with
      | zero => cases hb
      | succ j ih =>
        rw [Nat.succ_add, ancestor]
        cases hp : parent a with
        | none => rfl
        | some p =>
          rw [ancestor_succ hp] at hb
          exact ih (by omega) hb
    rw [Nat.add_sub_cancel' hj, h] at hnone
    cases hnone
  | some b =>
    refine ⟨b, rfl, ?_⟩
    rw [← ancestor_add hb, Nat.add_sub_cancel' hj, h]

theorem Descends.refl (parent : α → Option α) (a : α) : Descends parent a a := ⟨0, rfl⟩

theorem Descends.trans (h : Descends parent a b) (h' : Descends parent b c) :
    Descends parent a c := by
  obtain ⟨j, hj⟩ := h
  obtain ⟨k, hk⟩ := h'
  exact ⟨j + k, by rw [ancestor_add hj, hk]⟩

theorem ancestor_mono (hsub : ∀ a b, parent a = some b → parent' a = some b)
    (h : ancestor parent k a = some b) : ancestor parent' k a = some b := by
  induction k generalizing a with
  | zero => exact h
  | succ k ih =>
    obtain ⟨p, hp, h⟩ := bind_eq_some_iff.mp h
    rw [ancestor_succ (hsub a p hp), ih h]

theorem Descends.mono (hsub : ∀ a b, parent a = some b → parent' a = some b)
    (h : Descends parent a b) : Descends parent' a b := by
  obtain ⟨k, hk⟩ := h
  exact ⟨k, ancestor_mono hsub hk⟩

def Acyclic (parent : α → Option α) : Prop := ∀ a k, ancestor parent (k + 1) a ≠ some a

theorem Acyclic.extend {n : α} (h : Acyclic parent) (hsame : ∀ a, a ≠ n → parent' a = parent a)
    (hn : ∀ a, parent' a ≠ some n) : Acyclic parent' := by
  have hold : ∀ {j : Nat} {a b : α}, a ≠ n → ancestor parent' j a = some b →
      ancestor parent j a = some b := by
    intro j
    induction j with
    | zero => exact fun _ hb => hb
    | succ j ih =>
      intro a b ha hb
      obtain ⟨p, hp, hb⟩ := bind_eq_some_iff.mp hb
      have hpn : p ≠ n := fun heq => hn a (heq ▸ hp)
      rw [ancestor_succ ((hsame a ha).symm.trans hp), ih hpn hb]
  intro a k hcycle
  by_cases ha : a = n
  · obtain ⟨b, -, hb⟩ := ancestor_succ_eq_some.mp hcycle
    rw [ha] at hb
    exact hn b hb
  · exact h a k (hold ha hcycle)

end Strawberry.Ancestry
