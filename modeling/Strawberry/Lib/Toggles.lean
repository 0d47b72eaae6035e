import Mathlib.Algebra.Ring.Parity
import Mathlib.Order.Lattice

/-!
# Toggles

Something switched at the times of a list is on if an odd number of them has passed.
-/

namespace Strawberry

variable {τ : Type} [LinearOrder τ] {times later : List τ} {t x y : τ}

def OnAt (times : List τ) (t : τ) : Prop := Odd (times.countP (· ≤ t))

theorem not_onAt_nil : ¬ OnAt [] t := by
  unfold OnAt
  rw [List.countP_nil, Nat.not_odd_iff_even]
  exact Even.zero

theorem onAt_append (h : ∀ u ∈ later, t < u) : OnAt (times ++ later) t ↔ OnAt times t := by
  have hnone : later.countP (· ≤ t) = 0 := by
    apply List.countP_eq_zero.mpr
    intro u hu hle
    exact absurd (of_decide_eq_true hle) (not_le_of_gt (h u hu))
  unfold OnAt
  rw [List.countP_append, hnone, Nat.add_zero]

theorem onAt_cons_of_le (h : x ≤ t) : OnAt (x :: times) t ↔ ¬ OnAt times t := by
  unfold OnAt
  rw [List.countP_cons, if_pos (decide_eq_true h), Nat.odd_add_one]

theorem onAt_cons_cons (hx : x ≤ t) (hy : y ≤ t) : OnAt (x :: y :: times) t ↔ OnAt times t := by
  rw [onAt_cons_of_le hx, onAt_cons_of_le hy, not_not]

theorem onAt_cons (h : (x :: times).Pairwise (· ≤ ·)) :
    OnAt (x :: times) t ↔ x ≤ t ∧ ¬ OnAt times t := by
  by_cases hx : x ≤ t
  · rw [onAt_cons_of_le hx, and_iff_right hx]
  · have hlater : ∀ u ∈ x :: times, t < u := by
      intro u hu
      rcases List.mem_cons.mp hu with rfl | hmem
      · exact lt_of_not_ge hx
      · exact (lt_of_not_ge hx).trans_le (List.rel_of_pairwise_cons h hmem)
    have happend : OnAt ([] ++ x :: times) t ↔ OnAt [] t := onAt_append hlater
    rw [← List.nil_append (x :: times), happend]
    constructor
    · intro hon
      exact absurd hon not_onAt_nil
    · rintro ⟨hle, -⟩
      exact absurd hle hx

end Strawberry
