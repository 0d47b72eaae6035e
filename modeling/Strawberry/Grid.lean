import Mathlib.Data.Nat.Sqrt
import Strawberry.State.State

/-!
# The grid of validators

Neighbours in the grid of one epoch and across epochs.
-/

namespace Strawberry.Validator

open State

def countFrom (stop step : UInt16) : Nat → UInt16 → Outcome (List UInt16)
  | 0, _ => .hang
  | fuel + 1, i => do
    if i < stop then return i :: (← countFrom stop step fuel (i + step)) else return []

variable (numberOfValidators : UInt16)

def getGridWidth : UInt16 := UInt16.ofNat (Nat.sqrt numberOfValidators.toNat)

def getCurrentEpochNeighborIndices (validatorIndex : UInt16) : Outcome (List UInt16) := do
  let gridWidth := getGridWidth numberOfValidators
  let rowStart := validatorIndex / gridWidth * gridWidth
  let rowEnd := min (rowStart + gridWidth) numberOfValidators
  let row ← countFrom rowEnd 1 (2 ^ 16) rowStart
  let column ← countFrom numberOfValidators gridWidth (2 ^ 16) (validatorIndex % gridWidth)
  return row.filter (· ≠ validatorIndex) ++ column.filter (· ≠ validatorIndex)

def areGridNeighbors (validatorIndex1 validatorIndex2 : UInt16) : Bool :=
  let gridWidth := getGridWidth numberOfValidators
  validatorIndex1 / gridWidth = validatorIndex2 / gridWidth ∨
    validatorIndex1 % gridWidth = validatorIndex2 % gridWidth

structure GridMapper where
  currentValidators : Vector (Option ValidatorKey) numberOfValidators.toNat
  archivedValidators : Vector (Option ValidatorKey) numberOfValidators.toNat
  queuedValidators : Vector (Option ValidatorKey) numberOfValidators.toNat

variable {numberOfValidators}

def findValidatorIndexInSlice (validators : List (Option ValidatorKey)) (key : Ed25519Key) :
    Option UInt16 :=
  (validators.findIdx? fun validator => validator.any (·.ed25519 = key)).map UInt16.ofNat

namespace GridMapper

variable (m : GridMapper numberOfValidators)

def getValidatorIndices (key : Ed25519Key) : Finset UInt16 :=
  (findValidatorIndexInSlice m.archivedValidators.toList key).toFinset ∪
    (findValidatorIndexInSlice m.currentValidators.toList key).toFinset ∪
    (findValidatorIndexInSlice m.queuedValidators.toList key).toFinset

def isNeighbor (key1 key2 : Ed25519Key) (sameEpoch : Bool) : Bool :=
  if key1 = key2 then false
  else if sameEpoch then
    match findValidatorIndexInSlice m.currentValidators.toList key1,
      findValidatorIndexInSlice m.currentValidators.toList key2 with
    | some idx1, some idx2 => areGridNeighbors numberOfValidators idx1 idx2
    | _, _ => false
  else if m.getValidatorIndices key1 = ∅ then false
  else ∃ idx ∈ m.getValidatorIndices key2, idx ∈ m.getValidatorIndices key1

end GridMapper

variable {n : UInt16}

theorem countFrom_eq {stop step : UInt16} (hstep : 0 < step.toNat)
    (hroom : stop.toNat + step.toNat ≤ 2 ^ 16) {fuel : Nat} {i : UInt16}
    (hfuel : stop.toNat - i.toNat < fuel) :
    ∃ l, countFrom stop step fuel i = .ret l ∧ l.Nodup ∧
      ∀ j, j ∈ l ↔ i.toNat ≤ j.toNat ∧ j.toNat < stop.toNat ∧ step.toNat ∣ j.toNat - i.toNat := by
  induction fuel generalizing i with
  | zero => omega
  | succ fuel ih =>
    rw [countFrom]
    split
    · next hi =>
      have hlt : i.toNat < stop.toNat := UInt16.lt_iff_toNat_lt.mp hi
      have hnext : (i + step).toNat = i.toNat + step.toNat := by
        rw [UInt16.toNat_add]
        omega
      obtain ⟨l, hl, hnodup, hmem⟩ := ih (i := i + step) (by omega)
      refine ⟨i :: l, by rw [hl]; rfl, List.nodup_cons.mpr ⟨?_, hnodup⟩, ?_⟩
      · rw [hmem]
        omega
      · intro j
        rw [List.mem_cons, hmem, hnext, ← UInt16.toNat_inj]
        constructor
        · rintro (heq | ⟨hle, hstop, hdvd⟩)
          · rw [heq, Nat.sub_self]
            exact ⟨Nat.le_refl _, hlt, Nat.dvd_zero _⟩
          · refine ⟨by omega, hstop, ?_⟩
            have hsum := Nat.dvd_add hdvd (Nat.dvd_refl step.toNat)
            rwa [← Nat.sub_sub, Nat.sub_add_cancel (by omega)] at hsum
        · rintro ⟨hle, hstop, hdvd⟩
          rcases Nat.eq_or_lt_of_le hle with heq | hgt
          · exact .inl heq.symm
          · have hbeyond := Nat.le_of_dvd (Nat.sub_pos_of_lt hgt) hdvd
            rw [← Nat.sub_sub]
            exact .inr ⟨by omega, hstop, Nat.dvd_sub hdvd (Nat.dvd_refl _)⟩
    · next hi =>
      have hge : stop.toNat ≤ i.toNat := UInt16.le_iff_toNat_le.mp (UInt16.not_lt.mp hi)
      refine ⟨[], rfl, List.nodup_nil, fun j => ?_⟩
      rw [iff_false_left List.not_mem_nil]
      omega

theorem toNat_min (a b : UInt16) : (min a b).toNat = min a.toNat b.toNat := by
  change (if a ≤ b then a else b).toNat = _
  split
  · next h => exact (Nat.min_eq_left (UInt16.le_iff_toNat_le.mp h)).symm
  · next h =>
    rw [UInt16.le_iff_toNat_le, Nat.not_le] at h
    exact (Nat.min_eq_right h.le).symm

section

variable {i width : UInt16} (hi : i < n) (hwidth : 0 < width.toNat)
  (hroom : n.toNat + width.toNat < 2 ^ 16)

include hi hwidth hroom in
theorem row_eq : ∃ l, countFrom (min (i / width * width + width) n) 1 (2 ^ 16)
      (i / width * width) = .ret l ∧ l.Nodup ∧
    ∀ j, j ∈ l ↔ j < n ∧ i / width = j / width := by
  have hi' := UInt16.lt_iff_toNat_lt.mp hi
  have hfloor := Nat.div_mul_le_self i.toNat width.toNat
  have hstart : (i / width * width).toNat = i.toNat / width.toNat * width.toNat := by
    rw [UInt16.toNat_mul, UInt16.toNat_div]
    omega
  have hend : (min (i / width * width + width) n).toNat =
      min (i.toNat / width.toNat * width.toNat + width.toNat) n.toNat := by
    rw [toNat_min, UInt16.toNat_add, hstart]
    omega
  have hone : 0 < (1 : UInt16).toNat := Nat.one_pos
  obtain ⟨l, hl, hnodup, hmem⟩ := countFrom_eq hone
    (show (min (i / width * width + width) n).toNat + 1 ≤ 2 ^ 16 by
      rw [hend]; omega)
    (show _ - (i / width * width).toNat < 2 ^ 16 by rw [hend]; omega)
  refine ⟨l, hl, hnodup, fun j => ?_⟩
  have hdvd : (1 : UInt16).toNat ∣ j.toNat - (i / width * width).toNat := Nat.one_dvd _
  rw [hmem, and_iff_left hdvd, hend, hstart, UInt16.lt_iff_toNat_lt, ← UInt16.toNat_inj, UInt16.toNat_div,
    UInt16.toNat_div, eq_comm (b := j.toNat / width.toNat), Nat.div_eq_iff hwidth]
  omega

include hwidth hroom in
theorem column_eq : ∃ l, countFrom n width (2 ^ 16) (i % width) = .ret l ∧
    l.Nodup ∧ ∀ j, j ∈ l ↔ j < n ∧ i % width = j % width := by
  obtain ⟨l, hl, hnodup, hmem⟩ := countFrom_eq hwidth hroom.le
    (show n.toNat - (i % width).toNat < 2 ^ 16 by omega)
  refine ⟨l, hl, hnodup, fun j => ?_⟩
  rw [hmem, UInt16.lt_iff_toNat_lt, ← UInt16.toNat_inj, UInt16.toNat_mod, UInt16.toNat_mod]
  constructor
  · rintro ⟨hle, hlt, c, hc⟩
    have hj : j.toNat = i.toNat % width.toNat + width.toNat * c := by omega
    rw [hj, Nat.add_mul_mod_self_left, Nat.mod_mod]
    exact ⟨hj ▸ hlt, rfl⟩
  · rintro ⟨hlt, heq⟩
    rw [heq]
    exact ⟨Nat.mod_le _ _, hlt, Nat.dvd_sub_mod _⟩

end

section

variable (hpos : 0 < n.toNat)
  (hroom : n.toNat + (getGridWidth n).toNat < 2 ^ 16)

include hpos in
theorem gridWidth_pos : 0 < (getGridWidth n).toNat := by
  have hle := Nat.sqrt_le_self n.toNat
  have hsqrt := Nat.sqrt_pos.mpr hpos
  have hlt := n.toNat_lt
  rw [getGridWidth, UInt16.toNat_ofNat']
  omega

include hpos hroom in
theorem neighborIndices_eq {i : UInt16} (hi : i < n) :
    ∃ l, getCurrentEpochNeighborIndices n i = .ret l ∧ l.Nodup ∧
      ∀ j, j ∈ l ↔ j ≠ i ∧ j < n ∧ areGridNeighbors n i j := by
  obtain ⟨row, hrow, hnodup, hmem⟩ := row_eq hi (gridWidth_pos hpos) hroom
  obtain ⟨column, hcolumn, hnodup', hmem'⟩ := column_eq (i := i) (gridWidth_pos hpos) hroom
  refine ⟨row.filter (· ≠ i) ++ column.filter (· ≠ i), ?_, ?_, ?_⟩
  · rw [getCurrentEpochNeighborIndices, hrow, hcolumn]
    rfl
  · -- an index in the row and in the column is the index itself
    refine (hnodup.filter _).append (hnodup'.filter _) ?_
    intro j hj hj'
    rw [List.mem_filter, decide_eq_true_eq] at hj hj'
    apply hj.2
    have hquotient := congrArg UInt16.toNat ((hmem j).mp hj.1).2
    have hremainder := congrArg UInt16.toNat ((hmem' j).mp hj'.1).2
    rw [UInt16.toNat_div, UInt16.toNat_div] at hquotient
    rw [UInt16.toNat_mod, UInt16.toNat_mod] at hremainder
    apply UInt16.toNat_inj.mp
    rw [← Nat.div_add_mod j.toNat (getGridWidth n).toNat, ← hquotient,
      ← hremainder, Nat.div_add_mod]
  · intro j
    rw [List.mem_append, List.mem_filter, List.mem_filter, hmem, hmem', ← or_and_right, ← and_or_left,
      and_comm, decide_eq_true_eq, areGridNeighbors, decide_eq_true_eq]

theorem areGridNeighbors_comm (i j : UInt16) : areGridNeighbors n i j = areGridNeighbors n j i := by
  simp only [areGridNeighbors, eq_comm]

end

def DistinctKeys (validators : List (Option ValidatorKey)) : Prop :=
  ∀ (i j : Nat) (a b : ValidatorKey), validators[i]? = some (some a) →
    validators[j]? = some (some b) → a.ed25519 = b.ed25519 → i = j

theorem findValidatorIndexInSlice_eq {validators : List (Option ValidatorKey)}
    (hdistinct : DistinctKeys validators) {i : UInt16} {a : ValidatorKey}
    (ha : validators[i.toNat]? = some (some a)) :
    findValidatorIndexInSlice validators a.ed25519 = some i := by
  obtain ⟨hlt, hget⟩ := List.getElem?_eq_some_iff.mp ha
  have hfirst : (validators.findIdx? fun validator => validator.any (·.ed25519 = a.ed25519)) =
      some i.toNat := by
    rw [List.findIdx?_eq_some_iff_getElem]
    refine ⟨hlt, by simp [hget], fun j hj hany => ?_⟩
    obtain ⟨b, hb, hkey⟩ := (Option.any_eq_true _ _).mp hany
    have hsame := hdistinct j i.toNat b a (List.getElem?_eq_some_iff.mpr ⟨by omega, hb⟩) ha
      (of_decide_eq_true hkey)
    omega
  rw [findValidatorIndexInSlice, hfirst, Option.map_some, UInt16.ofNat_toNat]

section

variable {m : GridMapper n} {key1 key2 : Ed25519Key}

theorem GridMapper.isNeighbor_same : m.isNeighbor key1 key2 true ↔ key1 ≠ key2 ∧ ∃ idx1 idx2,
    findValidatorIndexInSlice m.currentValidators.toList key1 = some idx1 ∧
    findValidatorIndexInSlice m.currentValidators.toList key2 = some idx2 ∧
    areGridNeighbors n idx1 idx2 := by
  unfold isNeighbor
  split
  · next heq => simp [heq]
  · next hne =>
    rw [if_pos rfl]
    split
    · next idx1 idx2 hidx1 hidx2 => simp [hne, hidx1, hidx2]
    · next hnone =>
      refine iff_of_false Bool.false_ne_true ?_
      rintro ⟨-, idx1, idx2, hidx1, hidx2, -⟩
      exact hnone idx1 idx2 hidx1 hidx2

theorem GridMapper.isNeighbor_other : m.isNeighbor key1 key2 false ↔ key1 ≠ key2 ∧
    ∃ idx, idx ∈ m.getValidatorIndices key1 ∧ idx ∈ m.getValidatorIndices key2 := by
  unfold isNeighbor
  split
  · next heq => simp [heq]
  · next hne =>
    rw [if_neg Bool.false_ne_true]
    split
    · next hempty => simp [hempty]
    · simp [hne, and_comm]

theorem GridMapper.isNeighbor_comm (sameEpoch : Bool) :
    m.isNeighbor key1 key2 sameEpoch = m.isNeighbor key2 key1 sameEpoch := by
  rw [Bool.eq_iff_iff]
  cases sameEpoch with
  | false =>
    rw [isNeighbor_other, isNeighbor_other, ne_comm]
    simp only [and_comm]
  | true =>
    rw [isNeighbor_same, isNeighbor_same, ne_comm, exists_comm]
    simp only [areGridNeighbors_comm, and_left_comm]

end

/-- Neighbours share a row or a column. -/
theorem grid_neighbourhood (n : UInt16) (hpos : 0 < n.toNat)
    (hroom : n.toNat + (getGridWidth n).toNat < 2 ^ 16) :
    (∀ i < n, ∃ l, getCurrentEpochNeighborIndices n i = .ret l ∧
      l.Nodup ∧ ∀ j, j ∈ l ↔ j ≠ i ∧ j < n ∧ (i / getGridWidth n = j / getGridWidth n ∨
          i % getGridWidth n = j % getGridWidth n)) ∧
    (∀ i < n, ∀ j < n, ∀ l l', getCurrentEpochNeighborIndices n i = .ret l →
      getCurrentEpochNeighborIndices n j = .ret l' → (j ∈ l ↔ i ∈ l')) ∧
    ∀ m : GridMapper n, DistinctKeys m.currentValidators.toList →
      DistinctKeys m.archivedValidators.toList → DistinctKeys m.queuedValidators.toList →
      (∀ key1 key2 sameEpoch, m.isNeighbor key1 key2 sameEpoch = m.isNeighbor key2 key1 sameEpoch) ∧
      ∀ (i j : UInt16) (a b : ValidatorKey) (l : List UInt16),
        m.currentValidators.toList[i.toNat]? = some (some a) →
        m.currentValidators.toList[j.toNat]? = some (some b) →
        getCurrentEpochNeighborIndices n i = .ret l →
        (m.isNeighbor a.ed25519 b.ed25519 true ↔ j ∈ l) := by
  have hmem : ∀ {i l}, i < n → getCurrentEpochNeighborIndices n i = .ret l → ∀ j, j ∈ l ↔
        j ≠ i ∧ j < n ∧ areGridNeighbors n i j := by
    intro i l hi hl
    obtain ⟨l', hl', -, hmem⟩ := neighborIndices_eq hpos hroom hi
    rw [hl] at hl'
    cases hl'
    exact hmem
  refine ⟨fun i hi => ?_, fun i hi j hj l l' hl hl' => ?_,
    fun m hcur _ _ => ⟨fun key1 key2 sameEpoch => GridMapper.isNeighbor_comm sameEpoch, ?_⟩⟩
  · simpa only [areGridNeighbors, decide_eq_true_eq] using neighborIndices_eq hpos hroom hi
  · rw [hmem hi hl, hmem hj hl', ne_comm, areGridNeighbors_comm]
    simp [hi, hj]
  · intro i j a b l ha hb hl
    have hlt : ∀ {i : UInt16} {a : ValidatorKey},
        m.currentValidators.toList[i.toNat]? = some (some a) → i < n := by
      intro i a ha
      have hlt := (List.getElem?_eq_some_iff.mp ha).1
      rwa [Vector.length_toList, ← UInt16.lt_iff_toNat_lt] at hlt
    have hkeys : a.ed25519 = b.ed25519 ↔ j = i := by
      constructor
      · intro h
        exact UInt16.toNat_inj.mp (hcur _ _ a b ha hb h).symm
      · rintro rfl
        rw [hb, Option.some.injEq, Option.some.injEq] at ha
        rw [ha]
    rw [GridMapper.isNeighbor_same, findValidatorIndexInSlice_eq hcur ha,
      findValidatorIndexInSlice_eq hcur hb, hmem (hlt ha) hl, ne_eq, hkeys]
    simp [hlt hb]

theorem grid_of_all_validators : ∃ l, getCurrentEpochNeighborIndices 1023 0 = .ret l ∧ l.Nodup ∧
    31 ∈ l ∧ 32 ∉ l := by
  have hwidth : getGridWidth 1023 = 31 := by
    have hsqrt : 31 = Nat.sqrt 1023 := Nat.eq_sqrt.mpr (by decide)
    exact congrArg UInt16.ofNat hsqrt.symm
  have hgrid := grid_neighbourhood 1023 (by decide) (by rw [hwidth]; decide)
  rw [hwidth] at hgrid
  obtain ⟨l, hl, hnodup, hmem⟩ := hgrid.1 0 (by decide)
  exact ⟨l, hl, hnodup, (hmem 31).mpr (by decide), fun h => absurd ((hmem 32).mp h) (by decide)⟩

end Strawberry.Validator
