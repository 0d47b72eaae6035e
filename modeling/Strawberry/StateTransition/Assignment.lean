import Strawberry.StateTransition.Guarantees

/-!
# The assignment of guarantors

`PermuteAssignments` deals out the cores evenly, shuffles them and rotates them with time.
-/

namespace Strawberry.StateTransition

open Constants List

variable {prims : Primitives}

structure FairAssignment (assignment : List UInt32) : Prop where
  length : assignment.length = numberOfValidators
  inRange : ∀ core ∈ assignment, core.toNat < totalNumberOfCores
  even : ∀ core < totalNumberOfCores,
    assignment.countP (fun c => c.toNat = core) = numberOfValidators / totalNumberOfCores

def rotationOf (timeslot : Timeslot) : Nat := timeslot.toNat / validatorRotationPeriod.toNat

theorem recursiveShuffle_perm {s r : List UInt32} (h : s.length ≤ r.length) :
    (recursiveShuffle s r).Perm s := by
  induction r generalizing s with
  | nil =>
    rw [length_nil, Nat.le_zero, length_eq_zero_iff] at h
    rw [h]
    exact .nil
  | cons r₀ r ih =>
    cases s with
    | nil => exact .nil
    | cons s₀ s =>
      have hi : r₀.toNat % (s.length + 1) < (s₀ :: s).length := Nat.mod_lt _ (Nat.succ_pos _)
      have hrest := ih (s := ((s₀ :: s).set (r₀.toNat % (s.length + 1))
        ((s₀ :: s).getD (s.length + 1 - 1) 0)).take (s.length + 1 - 1)) (by
          rw [length_take, length_set, length_cons]
          rw [length_cons, length_cons] at h
          omega)
      exact (hrest.cons _).trans (draw_perm hi 0)

theorem length_generateRandomNumbers (h : Hash) (l : Nat) :
    (generateRandomNumbers prims h l).length = l := by
  rw [generateRandomNumbers, length_map, length_range]

theorem deterministicShuffle_perm (prims : Primitives) (s : List UInt32) (h : Hash) :
    (deterministicShuffle prims s h).Perm s :=
  recursiveShuffle_perm (length_generateRandomNumbers h s.length).ge

def coreIndices : List UInt32 :=
  (List.range numberOfValidators).map fun i =>
    UInt32.ofNat (totalNumberOfCores * i / numberOfValidators)

theorem permuteAssignments_eq (entropy : Hash) (timeslot : Timeslot) :
    permuteAssignments prims entropy timeslot =
      rotateSequence (deterministicShuffle prims coreIndices entropy)
        (timeslotInEpoch timeslot / validatorRotationPeriod) := rfl

theorem coreIndex_toNat {i : Nat} (hi : i < numberOfValidators) :
    (UInt32.ofNat (totalNumberOfCores * i / numberOfValidators)).toNat = i / 3 := by
  unfold numberOfValidators totalNumberOfCores at *
  rw [UInt32.toNat_ofNat']
  omega

theorem mem_coreIndices {core : UInt32} (h : core ∈ coreIndices) : core.toNat < 341 := by
  obtain ⟨i, hi, rfl⟩ := mem_map.mp h
  rw [mem_range] at hi
  rw [coreIndex_toNat hi]
  unfold numberOfValidators at hi
  omega

theorem rotationAmount_toNat (timeslot : Timeslot) :
    (timeslotInEpoch timeslot / validatorRotationPeriod).toNat = timeslot.toNat % 600 / 10 := by
  rw [UInt32.toNat_div, timeslotInEpoch_toNat]
  rfl

theorem rotated_toNat {core n : UInt32} (hcore : core.toNat < 341) (hn : n.toNat < 60) :
    ((core + n) % UInt32.ofNat totalNumberOfCores).toNat = (core.toNat + n.toNat) % 341 := by
  have hcores : (UInt32.ofNat totalNumberOfCores).toNat = 341 := rfl
  rw [UInt32.toNat_mod, UInt32.toNat_add, hcores]
  omega

theorem countP_coreIndices {n core : Nat} (hn : n < 60) (hcore : core < 341) :
    coreIndices.countP (fun c => (c.toNat + n) % 341 = core) = 3 := by
  have hshift : ∀ i ∈ List.range numberOfValidators,
      ((UInt32.ofNat (totalNumberOfCores * i / numberOfValidators)).toNat + n) % 341 = core ↔
        i / 3 = (core + 341 - n) % 341 := by
    intro i hi
    rw [mem_range] at hi
    rw [coreIndex_toNat hi]
    unfold numberOfValidators at hi
    omega
  rw [coreIndices, countP_map]
  have hcount := countP_div_range (m := 3) (by decide) 341 ((core + 341 - n) % 341)
  rw [if_pos (Nat.mod_lt _ (by decide))] at hcount
  rw [← hcount]
  apply countP_congr
  intro i hi
  simp only [Function.comp_apply, decide_eq_true_eq]
  exact hshift i hi

section

variable {entropy : Hash} {timeslot timeslot' : Timeslot}

theorem permuteAssignments_fair : FairAssignment (permuteAssignments prims entropy timeslot) := by
  have hperm := deterministicShuffle_perm prims coreIndices entropy
  have hamount := rotationAmount_toNat timeslot
  have hrotated : ∀ core ∈ deterministicShuffle prims coreIndices entropy,
      ((core + timeslotInEpoch timeslot / validatorRotationPeriod) %
        UInt32.ofNat totalNumberOfCores).toNat =
          (core.toNat + timeslot.toNat % 600 / 10) % 341 := by
    intro core hcore
    have hsmall := mem_coreIndices (hperm.mem_iff.mp hcore)
    rw [rotated_toNat hsmall (by omega), hamount]
  rw [permuteAssignments_eq, rotateSequence]
  refine ⟨?_, ?_, ?_⟩
  · rw [length_map, hperm.length_eq, coreIndices, length_map, length_range]
  · intro core hcore
    obtain ⟨before, hbefore, rfl⟩ := mem_map.mp hcore
    rw [hrotated before hbefore]
    exact Nat.mod_lt _ (by decide)
  · intro core hcore
    have hshare : numberOfValidators / totalNumberOfCores = 3 := rfl
    have hcount := countP_coreIndices (n := timeslot.toNat % 600 / 10) (by omega) hcore
    rw [countP_map, hshare, ← hcount, ← hperm.countP_eq]
    apply countP_congr
    intro before hbefore
    simp only [Function.comp_apply, decide_eq_true_eq]
    rw [hrotated before hbefore]

theorem rotationAmount_later {k : Nat} (hepoch : toEpoch timeslot' = toEpoch timeslot)
    (hk : rotationOf timeslot' = rotationOf timeslot + k) :
    (timeslotInEpoch timeslot' / validatorRotationPeriod).toNat =
      (timeslotInEpoch timeslot / validatorRotationPeriod).toNat + k := by
  have hquotient := congrArg UInt32.toNat hepoch
  rw [toEpoch_toNat, toEpoch_toNat] at hquotient
  have hperiod : validatorRotationPeriod.toNat = 10 := rfl
  rw [rotationOf, rotationOf, hperiod] at hk
  rw [rotationAmount_toNat, rotationAmount_toNat]
  omega

theorem permuteAssignments_same (hepoch : toEpoch timeslot' = toEpoch timeslot)
    (h : rotationOf timeslot' = rotationOf timeslot) :
    permuteAssignments prims entropy timeslot' = permuteAssignments prims entropy timeslot := by
  have hamount := UInt32.toNat_inj.mp (rotationAmount_later (k := 0) hepoch h)
  rw [permuteAssignments_eq, permuteAssignments_eq, hamount]

theorem permuteAssignments_later {k : Nat} (hepoch : toEpoch timeslot' = toEpoch timeslot)
    (hk : rotationOf timeslot' = rotationOf timeslot + k) :
    permuteAssignments prims entropy timeslot' =
      (permuteAssignments prims entropy timeslot).map fun core =>
        UInt32.ofNat ((core.toNat + k) % totalNumberOfCores) := by
  have hamount := rotationAmount_later hepoch hk
  have hbound := rotationAmount_toNat timeslot
  have hbound' := rotationAmount_toNat timeslot'
  have hperm := deterministicShuffle_perm prims coreIndices entropy
  rw [permuteAssignments_eq, permuteAssignments_eq, rotateSequence, rotateSequence, map_map]
  apply map_congr_left
  intro core hcore
  have hsmall := mem_coreIndices (hperm.mem_iff.mp hcore)
  apply UInt32.toNat_inj.mp
  rw [Function.comp_apply, rotated_toNat hsmall (by omega), rotated_toNat hsmall (by omega),
    UInt32.toNat_ofNat']
  unfold totalNumberOfCores
  omega

end

/-- Every core gets the same number of validators. -/
theorem fair_guarantor_assignment (prims : Primitives) (entropy : Hash) (timeslot : Timeslot) :
    FairAssignment (permuteAssignments prims entropy timeslot) ∧
      ∀ timeslot', toEpoch timeslot' = toEpoch timeslot →
        (rotationOf timeslot' = rotationOf timeslot →
          permuteAssignments prims entropy timeslot' = permuteAssignments prims entropy timeslot) ∧
        ∀ k, rotationOf timeslot' = rotationOf timeslot + k →
          permuteAssignments prims entropy timeslot' =
            (permuteAssignments prims entropy timeslot).map fun core =>
              UInt32.ofNat ((core.toNat + k) % totalNumberOfCores) := by
  refine ⟨permuteAssignments_fair, ?_⟩
  intro timeslot' hepoch
  exact ⟨permuteAssignments_same hepoch, fun k hk => permuteAssignments_later hepoch hk⟩

end Strawberry.StateTransition
