import Mathlib.Data.List.Basic
import Mathlib.Data.List.GetD

/-!
# Rows in a flat list

Copying rows to their places and cutting at the multiples of the size undo each other.
-/

namespace Strawberry

open List

variable {α β : Type u}

def copyAt (dst : List α) (start : Nat) (src : List α) : List α :=
  dst.take start ++ (src.take (dst.length - start) ++ dst.drop (start + src.length))

def rowsOf (size count : Nat) (l : List α) : List (List α) :=
  (List.range count).map fun i => (l.drop (i * size)).take size

@[simp] theorem length_rowsOf (size count : Nat) (l : List α) :
    (rowsOf size count l).length = count := by
  simp [rowsOf]

theorem rowsOf_succ (size count : Nat) (l : List α) :
    rowsOf size (count + 1) l = l.take size :: rowsOf size count (l.drop size) := by
  unfold rowsOf
  rw [range_succ_eq_map, map_cons, map_map, Nat.zero_mul, drop_zero]
  refine congrArg _ (map_congr_left ?_)
  intro i _
  rw [Function.comp_apply, Nat.succ_mul, Nat.add_comm, drop_drop]

variable {size count : Nat} {rows : List (List α)} {l dst src done rest : List α}
  {m : Type u → Type v}

theorem rowsOf_flatten (h : ∀ row ∈ rows, row.length = size) :
    rowsOf size rows.length rows.flatten = rows := by
  induction rows with
  | nil => rfl
  | cons row rows ih =>
    rw [forall_mem_cons] at h
    rw [length_cons, rowsOf_succ, flatten_cons, ← h.1, take_left, drop_left,
      h.1, ih h.2]

theorem flatten_rowsOf (h : l.length = count * size) : (rowsOf size count l).flatten = l := by
  induction count generalizing l with
  | zero =>
    rw [Nat.zero_mul, length_eq_zero_iff] at h
    rw [h]
    rfl
  | succ count ih =>
    rw [rowsOf_succ, flatten_cons, ih, take_append_drop]
    rw [length_drop, h, Nat.succ_mul, Nat.add_sub_cancel]

theorem length_of_mem_rowsOf {row : List α} (h : l.length = count * size)
    (hrow : row ∈ rowsOf size count l) : row.length = size := by
  obtain ⟨i, hi, rfl⟩ := mem_map.mp hrow
  have hle : (i + 1) * size ≤ count * size :=
    Nat.mul_le_mul_right _ (mem_range.mp hi)
  rw [Nat.succ_mul] at hle
  rw [length_take, length_drop]
  omega

theorem take_drop_flatten (h : ∀ row ∈ rows, row.length = size) {i : Nat} (hi : i < rows.length) :
    (rows.flatten.drop (i * size)).take size = rows[i] := by
  have hget : (rowsOf size rows.length rows.flatten)[i]? = rows[i]? := by rw [rowsOf_flatten h]
  rw [List.getElem?_eq_getElem hi] at hget
  simpa [rowsOf, hi] using hget

theorem length_flatten_of_forall
    (h : ∀ row ∈ rows, row.length = size) : rows.flatten.length = rows.length * size := by
  induction rows with
  | nil => simp
  | cons row rows ih =>
    rw [forall_mem_cons] at h
    rw [flatten_cons, length_append, h.1, ih h.2, length_cons, Nat.succ_mul,
      Nat.add_comm]

theorem length_copyAt {start : Nat} (h : start + src.length ≤ dst.length) :
    (copyAt dst start src).length = dst.length := by
  simp only [copyAt, length_append, length_take, length_drop]
  omega

theorem copyAt_whole (h : src.length = dst.length) : copyAt dst 0 src = src := by
  rw [copyAt, Nat.zero_add, h, drop_length, take_zero, Nat.sub_zero, ← h,
    take_length, nil_append, append_nil]

theorem copyAt_append (h : src.length ≤ rest.length) :
    copyAt (done ++ rest) done.length src = done ++ src ++ rest.drop src.length := by
  rw [copyAt, take_left, length_append, Nat.add_sub_cancel_left, take_of_length_le h,
    ← drop_drop, drop_left, append_assoc]

theorem foldl_copyAt (h : ∀ row ∈ rows, row.length = size)
    {n : Nat} (hdone : done.length = n * size)
    (hrest : rest.length = rows.length * size) :
    (rows.zipIdx n).foldl (fun out p => copyAt out (p.2 * size) p.1) (done ++ rest) =
      done ++ rows.flatten := by
  induction rows generalizing n done rest with
  | nil =>
    rw [length_nil, Nat.zero_mul, length_eq_zero_iff] at hrest
    rw [hrest]
    rfl
  | cons row rows ih =>
    rw [forall_mem_cons] at h
    rw [length_cons, Nat.succ_mul] at hrest
    have hle : row.length ≤ rest.length := by
      rw [h.1, hrest]
      exact Nat.le_add_left _ _
    rw [zipIdx_cons, foldl_cons]
    dsimp only
    rw [← hdone, copyAt_append hle, ih h.2, flatten_cons, append_assoc]
    · rw [length_append, hdone, h.1, Nat.succ_mul]
    · rw [length_drop, hrest, h.1, Nat.add_sub_cancel]

section

variable (zero : α)

def columns (rows size : Nat) (l : List α) : List (List α) :=
  (List.range rows).map fun row => (List.range size).map fun column =>
    l.getD (column * rows + row) zero

@[simp] theorem length_columns (rows size : Nat) (l : List α) :
    (columns zero rows size l).length = rows := by
  simp [columns]

variable {rows size row i : Nat} {l : List α}

theorem length_of_mem_columns {row : List α}
    (h : row ∈ columns zero rows size l) : row.length = size := by
  obtain ⟨i, -, rfl⟩ := mem_map.mp h
  simp

theorem columns_nil (rows size : Nat) :
    columns zero rows size [] = .replicate rows (.replicate size zero) := by
  unfold columns
  simp

theorem getElem?_columns (h : row < rows) : (columns zero rows size l)[row]? =
      some ((List.range size).map fun column => l.getD (column * rows + row) zero) := by
  simp [columns, h]

theorem column_row_iff {column : Nat} (hrow : row < rows) :
    column * rows + row = i ↔ row = i % rows ∧ column = i / rows := by
  constructor
  · rintro rfl
    rw [Nat.mul_comm, Nat.mul_add_mod, Nat.mod_eq_of_lt hrow,
      Nat.mul_add_div (Nat.zero_lt_of_lt hrow), Nat.div_eq_of_lt hrow]
    exact ⟨rfl, rfl⟩
  · rintro ⟨rfl, rfl⟩
    exact Nat.div_add_mod' i rows

theorem columns_concat (l : List α) (a : α) :
    columns zero rows size (l ++ [a]) = (columns zero rows size l).set (l.length % rows)
      (((List.range size).map fun column =>
        l.getD (column * rows + l.length % rows) zero).set (l.length / rows) a) := by
  have hget : ∀ i, (l ++ [a]).getD i zero = if i = l.length then a else l.getD i zero := by
    intro i
    rcases Nat.lt_trichotomy i l.length with hlt | rfl | hgt
    · rw [getD_append _ _ _ _ hlt, if_neg (Nat.ne_of_lt hlt)]
    · simp
    · rw [if_neg (Nat.ne_of_gt hgt), getD_eq_default, getD_eq_default]
      · exact Nat.le_of_lt hgt
      · rw [length_append, length_singleton]
        exact hgt
  apply ext_getElem
  · simp
  intro row hrow hrow'
  rw [length_columns] at hrow
  rw [getElem_set]
  split
  · next heq =>
    subst heq
    apply ext_getElem
    · simp [columns]
    intro column hcolumn hcolumn'
    rw [getElem_set]
    simp only [columns, getElem_map, getElem_range, hget, column_row_iff hrow, true_and]
    by_cases hc : l.length / rows = column
    · rw [if_pos hc, if_pos hc.symm]
    · rw [if_neg hc, if_neg (Ne.symm hc)]
  · next hne =>
    simp only [columns, getElem_map, getElem_range, hget, column_row_iff hrow,
      if_neg (fun h : row = l.length % rows ∧ _ => hne h.1.symm)]

theorem getD_columns (hrows : 0 < rows) (hi : i < rows * size) :
    (((columns zero rows size l)[i % rows]?).bind fun row => row[i / rows]?) =
      some (l.getD i zero) := by
  have hrow : i % rows < rows := Nat.mod_lt _ hrows
  have hcolumn : i / rows < size := Nat.div_lt_of_lt_mul hi
  rw [getElem?_columns zero hrow, Option.bind_some, List.getElem?_map,
    List.getElem?_range hcolumn, Option.map_some, (column_row_iff hrow).mpr ⟨rfl, rfl⟩]

end

theorem foldlM_eq_pure [Monad m] [LawfulMonad m] {f : β → α → m β}
    {g : β → α → β} {P : β → Prop} {b : β} (hb : P b)
    (h : ∀ a ∈ l, ∀ b, P b → f b a = pure (g b a) ∧ P (g b a)) :
    l.foldlM f b = pure (l.foldl g b) := by
  induction l generalizing b with
  | nil => rfl
  | cons a l ih =>
    rw [forall_mem_cons] at h
    obtain ⟨hround, hkept⟩ := h.1 b hb
    rw [foldlM_cons, hround, pure_bind, ih hkept h.2, foldl_cons]

theorem mapM_eq_pure [Monad m] [LawfulMonad m] {f : α → m β} {g : α → β}
    (h : ∀ a ∈ l, f a = pure (g a)) : l.mapM f = pure (l.map g) := by
  induction l with
  | nil => rw [mapM_nil, map_nil]
  | cons a l ih =>
    rw [forall_mem_cons] at h
    rw [mapM_cons, h.1, ih h.2, pure_bind, pure_bind, map_cons]

end Strawberry
