import Mathlib.Data.List.Basic
import Mathlib.Data.List.GetD
import Mathlib.Data.List.Perm.Basic

/-!
# Tables

Arrays of a fixed length, read by `Vector.get`, and a loop that writes them entry by
entry: an entry has the value of the last round that wrote it.
-/

namespace Strawberry

variable {α β ι : Type} {n : Nat}

theorem get_ofFn (f : Fin n → α) (i : Fin n) : (Vector.ofFn f).get i = f i := by
  change (Vector.ofFn f)[i.val] = f i
  simp

theorem ext_get {v w : Vector α n} (h : ∀ i, v.get i = w.get i) : v = w := by
  apply Vector.ext
  intro i hi
  exact h ⟨i, hi⟩

theorem get_map (f : α → β) (v : Vector α n) (i : Fin n) : (v.map f).get i = f (v.get i) := by
  simp [Vector.get]

theorem get_replicate (a : α) (i : Fin n) : (Vector.replicate n a).get i = a := by
  change (Vector.replicate n a)[i.val] = a
  simp

theorem get_set (v : Vector α n) (i j : Fin n) (a : α) :
    (v.set i a).get j = if j = i then a else v.get j := by
  change (v.set i a)[j.val] = if j = i then a else v[j.val]
  rw [Vector.getElem_set]
  simp only [Fin.ext_iff, eq_comm]

section

def writeAll (index : ι → Fin n) (value : ι → α) (rounds : List ι) (v : Vector α n) : Vector α n :=
  rounds.foldl (fun v i => v.set (index i) (value i)) v

variable {index : ι → Fin n} {value : ι → α} {rounds : List ι} {v : Vector α n} {j : Fin n}

theorem get_writeAll_of_notMem (h : ∀ i ∈ rounds, index i ≠ j) :
    (writeAll index value rounds v).get j = v.get j := by
  induction rounds generalizing v with
  | nil => rfl
  | cons i rounds ih =>
    rw [List.forall_mem_cons] at h
    obtain ⟨hi, hrounds⟩ := h
    have hrest : (writeAll index value rounds (v.set (index i) (value i))).get j = _ := ih hrounds
    rw [get_set, if_neg hi.symm] at hrest
    exact hrest

theorem get_writeAll_last {before after : List ι} {i : ι} (h : ∀ k ∈ after, index k ≠ index i) :
    (writeAll index value (before ++ i :: after) v).get (index i) = value i := by
  have hsplit : writeAll index value (before ++ i :: after) v =
      writeAll index value after ((writeAll index value before v).set (index i) (value i)) := by
    unfold writeAll
    rw [List.foldl_append, List.foldl_cons]
  rw [hsplit, get_writeAll_of_notMem h, get_set, if_pos rfl]

end

open List

variable {α : Type}

theorem draw_perm {l : List α} {i : Nat} (hi : i < l.length) (zero : α) :
    (l.getD i zero :: (l.set i (l.getD (l.length - 1) zero)).take (l.length - 1)).Perm l := by
  rcases eq_nil_or_concat l with rfl | ⟨l, last, rfl⟩
  · cases hi
  · rw [concat_eq_append] at *
    have hlast : (l ++ [last]).getD l.length zero = last := by
      rw [getD_append_right _ _ _ _ (Nat.le_refl _), Nat.sub_self]
      rfl
    rw [length_append, length_singleton, Nat.add_sub_cancel, hlast]
    rw [length_append, length_singleton] at hi
    refine List.Perm.trans ?_ (perm_append_singleton last l).symm
    by_cases hlt : i < l.length
    · rw [getD_append _ _ _ _ hlt, getD_eq_getElem _ _ hlt, set_append_left _ _ hlt,
        take_left' (by rw [length_set])]
      have hset := (set_perm_cons_eraseIdx hlt last).cons l[i]
      have hget := (getElem_cons_eraseIdx_perm hlt).cons last
      exact hset.trans ((List.Perm.swap ..).trans hget)
    · have heq : i = l.length := by omega
      rw [heq, hlast, set_append_right _ _ (Nat.le_refl _), take_left]

theorem countP_div_range {m : Nat} (hm : 0 < m) (n c : Nat) :
    (List.range (m * n)).countP (fun i => i / m = c) = if c < n then m else 0 := by
  induction n with
  | zero => simp
  | succ n ih =>
    rw [Nat.mul_succ, range_add, countP_append, ih, countP_map]
    have hrun : (List.range m).countP ((fun i => decide (i / m = c)) ∘ fun x => m * n + x) =
        if c = n then m else 0 := by
      split
      · next hc =>
        rw [countP_eq_length.mpr, length_range]
        intro x hx
        rw [mem_range] at hx
        simp only [Function.comp_apply, decide_eq_true_eq]
        rw [Nat.mul_add_div hm, Nat.div_eq_of_lt hx, Nat.add_zero, hc]
      · next hc =>
        rw [countP_eq_zero]
        intro x hx
        rw [mem_range] at hx
        simp only [Function.comp_apply, decide_eq_true_eq]
        rw [Nat.mul_add_div hm, Nat.div_eq_of_lt hx, Nat.add_zero]
        exact Ne.symm hc
    rw [hrun]
    split <;> split <;> split <;> omega

end Strawberry

namespace Strawberry

open List Option

variable {α : Type u}

def window (xs : List α) (start n : Nat) : List α := (xs.drop start).take n

def splice (xs : List α) (start : Nat) (ys : List α) : List α :=
  xs.take start ++ ys ++ xs.drop (start + ys.length)

def overlay (a : Nat) (ys : List α) (b : Nat) (old : List α) : List α :=
  old.mapIdx fun k x => if a ≤ b + k then (ys[b + k - a]?).getD x else x

theorem getElem?_window (xs : List α) (start n k : Nat) :
    (window xs start n)[k]? = if k < n then xs[start + k]? else none := by
  simp [window, List.getElem?_take, List.getElem?_drop]

variable {xs ys : List α} {start : Nat}

theorem length_window {n : Nat} (h : start + n ≤ xs.length) :
    (window xs start n).length = n := by
  simp only [window, length_take, length_drop]
  omega

theorem length_splice (h : start + ys.length ≤ xs.length) :
    (splice xs start ys).length = xs.length := by
  simp only [splice, length_append, length_take, length_drop]
  omega

theorem getElem?_splice (h : start + ys.length ≤ xs.length)
    (k : Nat) :
    (splice xs start ys)[k]? =
      if start ≤ k ∧ k < start + ys.length then ys[k - start]? else xs[k]? := by
  have htake : (xs.take start).length = start := by
    rw [length_take]
    omega
  have hboth : (xs.take start ++ ys).length = start + ys.length := by
    rw [length_append, htake]
  rw [splice]
  by_cases hend : k < start + ys.length
  · rw [List.getElem?_append_left (by omega)]
    by_cases hstart : start ≤ k
    · rw [if_pos ⟨hstart, hend⟩, List.getElem?_append_right (by omega), htake]
    · rw [if_neg (by omega), List.getElem?_append_left (by omega), List.getElem?_take,
        if_pos (by omega)]
  · rw [if_neg (by omega), List.getElem?_append_right (by omega), hboth, List.getElem?_drop]
    congr 1
    omega

theorem getElem?_overlay (a : Nat) (ys : List α) (b : Nat) (old : List α) (k : Nat) :
    (overlay a ys b old)[k]? =
      (old[k]?).map fun x => if a ≤ b + k then (ys[b + k - a]?).getD x else x := by
  simp [overlay, List.getElem?_mapIdx]

theorem overlay_of_apart {a b : Nat} {old : List α}
    (h : ∀ k < old.length, b + k < a ∨ a + ys.length ≤ b + k) : overlay a ys b old = old := by
  apply ext_getElem?
  intro k
  rw [getElem?_overlay]
  rcases Nat.lt_or_ge k old.length with hk | hk
  · rw [List.getElem?_eq_getElem hk, map_some]
    rcases h k hk with hlt | hge
    · rw [if_neg (by omega)]
    · rw [List.getElem?_eq_none (by omega), getD_none, ite_self]
  · rw [List.getElem?_eq_none hk, map_none]

theorem window_splice {base a b n : Nat} (ha : base ≤ a) (hb : base ≤ b)
    (h : a - base + ys.length ≤ xs.length) :
    window (splice xs (a - base) ys) (b - base) n = overlay a ys b (window xs (b - base) n) := by
  apply ext_getElem?
  intro k
  rw [getElem?_window, getElem?_overlay, getElem?_window]
  by_cases hk : k < n
  · rw [if_pos hk, if_pos hk, getElem?_splice h]
    by_cases hin : a ≤ b + k ∧ b + k < a + ys.length
    · have hpos : b - base + k - (a - base) = b + k - a := by omega
      rw [if_pos (by omega), hpos, List.getElem?_eq_getElem (by omega),
        List.getElem?_eq_getElem (by omega), map_some, if_pos hin.1, getD_some]
    · rw [if_neg (by omega)]
      cases hx : xs[b - base + k]? with
      | none => rfl
      | some x =>
        rw [map_some]
        by_cases hlt : a ≤ b + k
        · rw [if_pos hlt, List.getElem?_eq_none (by omega), getD_none]
        · rw [if_neg hlt]
  · rw [if_neg hk, if_neg hk, map_none]

end Strawberry
