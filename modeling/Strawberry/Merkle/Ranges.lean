import Mathlib.Data.Nat.Size
import Strawberry.Merkle

/-!
# Ranges of leaves

The mountain range: peaks, their sizes and the root over them.
-/

namespace Strawberry.Merkle

open List

variable (H : HashData)

def perfectRoot (leaf : Nat → Hash) : Nat → Nat → Hash
  | 0, start => leaf start
  | i + 1, start =>
    H ((perfectRoot leaf i start).toList ++ (perfectRoot leaf i (start + 2 ^ i)).toList)

def peaksFrom (leaf : Nat → Hash) (i m : Nat) : List (Option Hash) :=
  if m = 0 then []
  else (if m % 2 = 1 then some (perfectRoot H leaf i ((m - 1) * 2 ^ i)) else none) ::
    peaksFrom leaf (i + 1) (m / 2)
termination_by m

variable {H} {leaf : Nat → Hash}

theorem placePeak_peaksFrom (i m : Nat) :
    placePeak H (peaksFrom H leaf i m) (perfectRoot H leaf i (m * 2 ^ i)) =
      peaksFrom H leaf i (m + 1) := by
  induction m using Nat.strongRecOn generalizing i with
  | _ m ih =>
    rw [peaksFrom, peaksFrom.eq_1 _ _ i (m + 1), if_neg (Nat.succ_ne_zero m)]
    by_cases hm : m = 0
    · subst hm
      rw [if_pos rfl, if_pos rfl, placePeak, peaksFrom, if_pos (by decide)]
    · rw [if_neg hm]
      by_cases hodd : m % 2 = 1
      · have hstart : (m - 1) * 2 ^ i = m / 2 * 2 ^ (i + 1) := by
          rw [Nat.pow_succ', ← Nat.mul_assoc, show m - 1 = m / 2 * 2 by omega]
        have hnext : m * 2 ^ i = m / 2 * 2 ^ (i + 1) + 2 ^ i := by
          rw [← hstart, ← Nat.succ_mul, show (m - 1).succ = m by omega]
        rw [if_pos hodd, if_neg (by omega), placePeak, show (m + 1) / 2 = m / 2 + 1 by omega,
          ← ih (m / 2) (by omega) (i + 1), hstart, hnext]
        rfl
      · rw [if_neg hodd, if_pos (by omega), placePeak, Nat.add_sub_cancel,
          show (m + 1) / 2 = m / 2 by omega]

theorem length_peaksFrom (i m : Nat) : (peaksFrom H leaf i m).length = m.size := by
  induction m using Nat.strongRecOn generalizing i with
  | _ m ih =>
    rw [peaksFrom]
    split
    · next hm => rw [hm, Nat.size_zero, length_nil]
    · next hm =>
      have hbit : Nat.bit m.bodd (m / 2) = m := by rw [← Nat.div2_val, Nat.bit_bodd_div2]
      have hsize := Nat.size_bit (b := m.bodd) (n := m / 2) (by rwa [hbit])
      rw [hbit] at hsize
      rw [length_cons, ih _ (by omega), hsize]

theorem getElem?_peaksFrom (j i m : Nat) (h : 2 ^ j ≤ m) : (peaksFrom H leaf i m)[j]? =
    some (if m.testBit j then
      some (perfectRoot H leaf (i + j) (m / 2 ^ (j + 1) * 2 ^ (j + 1) * 2 ^ i))
    else none) := by
  have hpos := Nat.two_pow_pos j
  rw [peaksFrom, if_neg (by omega)]
  induction j generalizing i m with
  | zero =>
    rw [List.getElem?_cons_zero, Nat.testBit_zero]
    by_cases hodd : m % 2 = 1
    · simp [hodd, show m - 1 = m / 2 * 2 by omega]
    · simp [hodd]
  | succ j ih =>
    have hhalf : 2 ^ j ≤ m / 2 := by
      rw [Nat.pow_succ] at h
      omega
    have hpos' := Nat.two_pow_pos j
    rw [List.getElem?_cons_succ, peaksFrom, if_neg (by omega), ih (i + 1) (m / 2) hhalf hpos',
      Nat.testBit_succ, Nat.div_div_eq_div_mul, ← Nat.pow_succ', Nat.add_right_comm i 1 j]
    congr 4
    rw [Nat.pow_succ' (n := j + 1), Nat.pow_succ' (n := i), Nat.mul_assoc, Nat.mul_assoc,
      Nat.mul_assoc 2, Nat.mul_left_comm (2 ^ (j + 1))]

theorem foldl_append_eq (leaves : List Hash) (n : Nat) (hn : n ≤ leaves.length) :
    (leaves.take n).foldl (append H) [] = peaksFrom H (leaves.getD · (.replicate 32 0)) 0 n := by
  induction n with
  | zero =>
    rw [peaksFrom]
    rfl
  | succ n ih =>
    rw [take_add_one, List.getElem?_eq_getElem hn, foldl_append, ih (by omega),
      ← placePeak_peaksFrom]
    simp [append, perfectRoot, List.getElem?_eq_getElem hn]

structure Slice where
  array : Nat
  len : Nat

def Slice.read (mem : List (List (Option Hash))) (s : Slice) : List (Option Hash) :=
  (mem[s.array]?.getD []).take s.len

def replacePeakAt (mem : List (List (Option Hash))) (peaks : Slice) (index : Nat)
    (value : Option Hash) : List (List (Option Hash)) × Slice :=
  (mem ++ [(peaks.read mem).set index value], ⟨mem.length, peaks.len⟩)

def appendPeak (spare : Nat) (mem : List (List (Option Hash))) (peaks : Slice) (item : Hash) :
    List (List (Option Hash)) × Slice :=
  let array := mem[peaks.array]?.getD []
  if peaks.len < array.length then
    (mem.set peaks.array (array.set peaks.len (some item)), ⟨peaks.array, peaks.len + 1⟩)
  else
    (mem ++ [peaks.read mem ++ some item :: .replicate spare none], ⟨mem.length, peaks.len + 1⟩)

variable (H) in
def placePeakIn (spare : Nat) (mem : List (List (Option Hash))) (peaks : Slice) (item : Hash)
    (position : Nat) : List (List (Option Hash)) × Slice :=
  if position < peaks.len then
    match (peaks.read mem).getD position none with
    | none => replacePeakAt mem peaks position (some item)
    | some peak =>
      let copied := replacePeakAt mem peaks position none
      placePeakIn spare copied.1 copied.2 (H (peak.toList ++ item.toList)) (position + 1)
  else appendPeak spare mem peaks item
termination_by peaks.len - position
decreasing_by
  dsimp only [replacePeakAt]
  omega

def Slice.Fits (mem : List (List (Option Hash))) (s : Slice) : Prop :=
  s.len ≤ (mem[s.array]?.getD []).length

variable {mem : List (List (Option Hash))} {s peaks : Slice}

theorem Slice.Fits.read_alloc (h : s.Fits mem) (array : List (Option Hash)) :
    s.read (mem ++ [array]) = s.read mem := by
  unfold Fits read at *
  by_cases hs : s.array < mem.length
  · rw [List.getElem?_append_left hs]
  · rw [List.getElem?_eq_none (Nat.not_lt.mp hs)] at h
    rw [Nat.le_zero.mp h, take_zero, take_zero]

theorem read_of_alloc (array : List (Option Hash)) (len : Nat) :
    (Slice.mk mem.length len).read (mem ++ [array]) = array.take len := by
  simp [Slice.read]

theorem Slice.Fits.alloc (h : s.Fits mem) (array : List (Option Hash)) :
    s.Fits (mem ++ [array]) := by
  unfold Fits at *
  by_cases hs : s.array < mem.length
  · rwa [List.getElem?_append_left hs]
  · rw [List.getElem?_eq_none (Nat.not_lt.mp hs)] at h
    exact Nat.le_trans h (Nat.zero_le _)

theorem Slice.Fits.length_read (h : s.Fits mem) : (s.read mem).length = s.len :=
  length_take_of_le h

theorem Slice.Fits.read_appendPeak (h : s.Fits mem) (hs : s.array = peaks.array → s.len ≤ peaks.len)
    (spare : Nat) (item : Hash) : s.read (appendPeak spare mem peaks item).1 = s.read mem := by
  unfold appendPeak
  dsimp only
  split
  · unfold read
    by_cases harray : s.array = peaks.array
    · by_cases hlt : peaks.array < mem.length
      · rw [harray, List.getElem?_set_self hlt, Option.getD_some, take_set_of_le (hs harray)]
      · rw [set_eq_of_length_le (Nat.not_lt.mp hlt)]
    · rw [List.getElem?_set_ne (Ne.symm harray)]
  · exact h.read_alloc _

theorem read_appendPeak_self (h : peaks.Fits mem) (spare : Nat) (item : Hash) :
    (appendPeak spare mem peaks item).2.read (appendPeak spare mem peaks item).1 =
      peaks.read mem ++ [some item] := by
  unfold appendPeak
  dsimp only
  split
  · next hroom =>
    have hlt : peaks.array < mem.length := by
      refine Nat.lt_of_not_le fun hge => ?_
      rw [List.getElem?_eq_none hge] at hroom
      exact Nat.not_lt_zero _ hroom
    simp only [Slice.read]
    rw [List.getElem?_set_self hlt, Option.getD_some, take_add_one,
      take_set_of_le (Nat.le_refl _), List.getElem?_set_self hroom]
    rfl
  · rw [read_of_alloc, take_append, h.length_read, Nat.add_sub_cancel_left,
      take_of_length_le (by rw [h.length_read]; exact Nat.le_succ _)]
    rfl

theorem placePeakIn_spec {spare : Nat} {item : Hash} {position : Nat} (h : peaks.Fits mem)
    (hposition : position ≤ peaks.len) :
    (placePeakIn H spare mem peaks item position).2.read
        (placePeakIn H spare mem peaks item position).1 =
      (peaks.read mem).take position ++ placePeak H ((peaks.read mem).drop position) item ∧
    ∀ s : Slice, s.Fits mem → (s.array = peaks.array → s.len ≤ peaks.len) →
      s.read (placePeakIn H spare mem peaks item position).1 = s.read mem := by
  induction hn : peaks.len - position generalizing mem peaks item position with
  | zero =>
    have hend : peaks.len ≤ position := by omega
    have hlength := h.length_read
    rw [placePeakIn, if_neg (Nat.not_lt.mpr hend), take_of_length_le (by omega),
      drop_of_length_le (by omega)]
    exact ⟨read_appendPeak_self h spare item, fun s hs hother => hs.read_appendPeak hother _ _⟩
  | succ n ih =>
    have hlt : position < (peaks.read mem).length := by
      rw [h.length_read]
      omega
    have hcopy (value : Option Hash) : (replacePeakAt mem peaks position value).2.read
        (replacePeakAt mem peaks position value).1 = (peaks.read mem).set position value := by
      have hlen : ((peaks.read mem).set position value).length ≤ peaks.len :=
        Nat.le_of_eq (length_set.trans h.length_read)
      rw [replacePeakAt, read_of_alloc, take_of_length_le hlen]
    rw [placePeakIn, if_pos (h.length_read ▸ hlt), drop_eq_getElem_cons hlt,
      getD_eq_getElem?_getD, List.getElem?_eq_getElem hlt, Option.getD_some]
    cases hpeak : (peaks.read mem)[position] with
    | none =>
      refine ⟨?_, fun s hs _ => hs.read_alloc _⟩
      rw [hcopy, set_eq_take_append_cons_drop, if_pos hlt]
      rfl
    | some peak =>
      have hfits : (replacePeakAt mem peaks position none).2.Fits
          (replacePeakAt mem peaks position none).1 := by
        simp [replacePeakAt, Slice.Fits, h.length_read]
      have hlen : (replacePeakAt mem peaks position none).2.len = peaks.len := rfl
      obtain ⟨hread, hkeep⟩ := @ih _ _ (H (peak.toList ++ item.toList)) (position + 1) hfits
        (by omega) (by omega)
      refine ⟨?_, ?_⟩
      · dsimp only
        rw [hread, hcopy, take_add_one, take_set_of_le (Nat.le_refl _),
          List.getElem?_set_self hlt, drop_set_of_lt (Nat.lt_succ_self _)]
        simp [placePeak]
      · intro s hs _
        refine (hkeep s (hs.alloc _) ?_).trans (hs.read_alloc _)
        intro harray
        have hnone : s.len ≤ 0 := by
          simpa [Slice.Fits, show s.array = mem.length from harray] using hs
        omega

/-- The peaks are the roots of the perfect parts. -/
theorem mountain_range (H : HashData) (leaves : List Hash) :
    (leaves.foldl (append H) []).length = leaves.length.size ∧
    (∀ i < leaves.length.size, (leaves.foldl (append H) [])[i]? =
      some (if leaves.length.testBit i then
        some (perfectRoot H (leaves.getD · (.replicate 32 0)) i
          (leaves.length / 2 ^ (i + 1) * 2 ^ (i + 1)))
      else none)) ∧
    ∀ spare mem peaks item, Slice.Fits mem peaks → (placePeakIn H spare mem peaks item 0).2.read
          (placePeakIn H spare mem peaks item 0).1 =
        append H (peaks.read mem) item ∧
      peaks.read (placePeakIn H spare mem peaks item 0).1 = peaks.read mem := by
  have hpeaks := @foldl_append_eq H leaves leaves.length (Nat.le_refl _)
  rw [take_length] at hpeaks
  rw [hpeaks]
  refine ⟨length_peaksFrom 0 _, ?_, ?_⟩
  · intro i hi
    rw [getElem?_peaksFrom i 0 _ (Nat.lt_size.mp hi), Nat.zero_add, Nat.pow_zero, Nat.mul_one]
  · intro spare mem peaks item h
    obtain ⟨hread, hkeep⟩ := @placePeakIn_spec H mem peaks spare item 0 h (Nat.zero_le _)
    exact ⟨hread, hkeep peaks h fun _ => Nat.le_refl _⟩

end Strawberry.Merkle
