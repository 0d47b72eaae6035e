import Mathlib.Data.Nat.Bitwise
import Mathlib.Data.UInt

/-!
# Machine words as numbers

When wrap-around can be ruled out, the arithmetic of `UInt64` and `Int64` is that of
the numbers they stand for.
-/

namespace Strawberry

open List

theorem toNat_add_of_lt {a b : UInt64} (h : a.toNat + b.toNat < 2 ^ 64) :
    (a + b).toNat = a.toNat + b.toNat := by
  rw [UInt64.toNat_add, Nat.mod_eq_of_lt h]

section

variable {α β : Type} [Add β] {toNat : β → Nat} {size : Nat} {f : α → β}

theorem foldl_add_mod (hadd : ∀ a b, toNat (a + b) = (toNat a + toNat b) % size)
    (hlt : ∀ b, toNat b < size) (l : List α) (b : β) :
    toNat (l.foldl (fun sum x => sum + f x) b) =
      (toNat b + (l.map fun x => toNat (f x)).sum) % size := by
  induction l generalizing b with
  | nil => rw [foldl_nil, map_nil, sum_nil, Nat.add_zero, Nat.mod_eq_of_lt (hlt b)]
  | cons x l ih =>
    rw [foldl_cons, ih, map_cons, sum_cons, hadd, Nat.mod_add_mod, Nat.add_assoc]

end

theorem foldl_add_toNat {α : Type} (f : α → UInt64) (l : List α) (b : UInt64) :
    (l.foldl (fun sum x => sum + f x) b).toNat =
      (b.toNat + (l.map fun x => (f x).toNat).sum) % 2 ^ 64 :=
  foldl_add_mod UInt64.toNat_add UInt64.toNat_lt l b

theorem toNat_ofNat_of_lt {n : Nat} (h : n < 2 ^ 64) : (UInt64.ofNat n).toNat = n := by
  rw [UInt64.toNat_ofNat', Nat.mod_eq_of_lt h]

theorem toInt_sub_of_le {a b : Int64} (hlo : -2 ^ 63 ≤ a.toInt - b.toInt)
    (hhi : a.toInt - b.toInt < 2 ^ 63) : (a - b).toInt = a.toInt - b.toInt := by
  rw [Int64.toInt_sub]
  exact Int.bmod_eq_of_le (by omega) (by omega)

theorem toInt_toInt64 (a : UInt64) :
    a.toInt64.toInt = if a.toNat < 2 ^ 63 then (a.toNat : Int) else (a.toNat : Int) - 2 ^ 64 := by
  have hlt := a.toNat_lt
  have hbmod : a.toInt64.toInt = (a.toNat : Int).bmod (2 ^ 64) := by
    change a.toBitVec.toInt = _
    rw [BitVec.toInt_eq_toNat_bmod]
    rfl
  rw [hbmod, Int.bmod_def]
  split <;> split <;> omega

theorem toInt_sub_wrap {a b : Int64} (ha : 0 ≤ a.toInt) (hb : b.toInt ≤ 0) :
    (a - b).toInt = if a.toInt - b.toInt < 2 ^ 63 then a.toInt - b.toInt
      else a.toInt - b.toInt - 2 ^ 64 := by
  have hlt := a.toInt_lt
  have hge := b.le_toInt
  rw [Int64.toInt_sub, Int.bmod_def]
  split <;> split <;> omega

theorem counter_foldl {σ α : Type} {counter : σ → Nat} {step : σ → α → σ} {counts : α → Bool}
    {size : Nat} {l : List α} {s : σ}
    (hstep : ∀ s a, counter s + 1 < size →
      counter (step s a) = counter s + if counts a then 1 else 0)
    (hsize : counter s + l.length < size) :
    counter (l.foldl step s) = counter s + l.countP counts := by
  induction l generalizing s with
  | nil => rfl
  | cons a l ih =>
    rw [length_cons] at hsize
    have hhead := hstep s a (by omega)
    have hle : counter (step s a) ≤ counter s + 1 := by
      rw [hhead]
      split <;> omega
    rw [foldl_cons, ih (by omega), hhead, countP_cons]
    omega

def rotl {w : Nat} (x : BitVec w) (j : Nat) : BitVec w := x <<< j ||| x >>> ((w - j) % w)

theorem rotl_back {w j : Nat} (x : BitVec w) (hj : j < w) : rotl (rotl x j) ((w - j) % w) = x := by
  unfold rotl
  rcases Nat.eq_zero_or_pos j with rfl | hpos
  · simp
  rw [Nat.mod_eq_of_lt (show w - j < w by omega), Nat.sub_sub_self hj.le, Nat.mod_eq_of_lt hj]
  apply BitVec.eq_of_getLsbD_eq
  intro z hz
  have hout : x.getLsbD (w - j + (j + z)) = false := BitVec.getLsbD_of_ge _ _ (by omega)
  simp only [BitVec.getLsbD_or, BitVec.getLsbD_shiftLeft, BitVec.getLsbD_ushiftRight, hout]
  by_cases h : z < w - j
  · simp [h, hz, show j + z < w by omega]
  · simp [h, hz, show z - (w - j) < w by omega, show z - (w - j) < j by omega,
      show ¬ j + z < w by omega, show w - j + (z - (w - j)) = z by omega]

theorem toNat_smod_of_lt {w : Nat} {s m : BitVec w} (hs : s.toNat < m.toNat)
    (hm : 2 * m.toNat < 2 ^ w) : (s.smod m).toNat = s.toNat := by
  have hs' : s.msb = false := BitVec.msb_eq_false_iff_two_mul_lt.mpr (by omega)
  have hm' : m.msb = false := BitVec.msb_eq_false_iff_two_mul_lt.mpr hm
  rw [BitVec.smod_eq, hs', hm']
  exact Nat.mod_eq_of_lt hs

theorem sshiftRight_sign {w s : Nat} (x : BitVec w) (h : w ≤ s + 1) :
    x.sshiftRight s = if x.msb then BitVec.allOnes w else 0 := by
  apply BitVec.eq_of_getLsbD_eq
  intro z hz
  rw [BitVec.getLsbD_sshiftRight]
  by_cases hs : s + z < w
  · have hlast : s + z = w - 1 := by omega
    cases hmsb : x.msb <;> simp [hz, hlast, ← BitVec.msb_eq_getLsbD_last, hmsb]
  · cases hmsb : x.msb <;> simp [hz, hs]

theorem abs_of_sign {w : Nat} (x : BitVec w) :
    (x ^^^ x.sshiftRight (w - 1)) - x.sshiftRight (w - 1) = x.abs := by
  rw [sshiftRight_sign x (by omega), BitVec.abs_eq]
  cases x.msb with
  | false => simp
  | true =>
    rw [if_pos rfl, if_pos rfl, BitVec.xor_allOnes, ← BitVec.neg_one_eq_allOnes,
      BitVec.sub_neg, BitVec.neg_eq_not_add]

structure DividesRight (m a b q r : Int) : Prop where
  zero : b = 0 → q = -1 ∧ r = a
  overflow : a = m → b = -1 → q = m ∧ r = 0
  identity : b ≠ 0 → ¬ (a = m ∧ b = -1) →
    a = q * b + r ∧ r.natAbs < b.natAbs ∧ (r = 0 ∨ r.sign = a.sign)

theorem dividesRight_iff {m a b q r : Int}
    (hq : q = if b = 0 then -1 else if a = m ∧ b = -1 then m else a.tdiv b)
    (hr : r = if b = 0 then a else if a = m then -a.tmod b else a.tmod b) :
    DividesRight m a b q r ↔ b = 0 ∨ a ≠ m ∨ b ∣ a := by
  by_cases hb : b = 0
  · rw [if_pos hb] at hq hr
    exact iff_of_true ⟨fun _ => ⟨hq, hr⟩, by omega, fun hb' => absurd hb hb'⟩ (.inl hb)
  rw [if_neg hb] at hq hr
  have hsum : a = a.tdiv b * b + a.tmod b := by
    rw [Int.mul_comm]
    exact (Int.mul_tdiv_add_tmod a b).symm
  constructor
  · intro h
    by_cases ha : a = m
    · refine .inr (.inr (Int.dvd_of_tmod_eq_zero ?_))
      by_cases hone : b = -1
      · rw [hone, Int.tmod_neg, Int.tmod_one]
      · rw [if_neg (by omega)] at hq
        rw [if_pos ha] at hr
        have := (h.identity hb (by omega)).1
        rw [hq, hr] at this
        omega
    · exact .inr (.inl ha)
  · intro h
    have hr' : r = a.tmod b := by
      rw [hr]
      split
      · next ha =>
        rw [Int.tmod_eq_zero_of_dvd (by tauto)]
        rfl
      · rfl
    refine ⟨fun hb' => absurd hb' hb, fun ha hone => ?_, fun _ hno => ?_⟩
    · rw [hq, if_pos ⟨ha, hone⟩, hr', hone, Int.tmod_neg, Int.tmod_one]
      exact ⟨rfl, rfl⟩
    · rw [hq, if_neg hno, hr', Int.natAbs_tmod, Int.sign_tmod]
      refine ⟨hsum, Nat.mod_lt _ (Int.natAbs_pos.mpr hb), ?_⟩
      split
      · next hdvd => exact .inl (Int.tmod_eq_zero_of_dvd hdvd)
      · exact .inr rfl

def remainder {w : Nat} (a b : BitVec w) : BitVec w :=
  if b = 0#w then a else if a.msb then -(a.abs.srem b.abs) else a.abs.srem b.abs

theorem tmod_abs {w : Nat} (x : Int) (b : BitVec w) : x.tmod b.abs.toInt = x.tmod b.toInt := by
  rw [BitVec.toInt_abs_eq_ite]
  split
  · next h => rw [h]
  · split
    · exact Int.tmod_neg _ _
    · rfl

theorem toInt_remainder {w : Nat} (hw : 0 < w) (a b : BitVec w) : (remainder a b).toInt =
    if b.toInt = 0 then a.toInt
    else if a.toInt = -2 ^ (w - 1) then -a.toInt.tmod b.toInt else a.toInt.tmod b.toInt := by
  have hb : b.toInt = 0 ↔ b = 0#w := by rw [← BitVec.toInt_inj, BitVec.toInt_zero]
  by_cases hb0 : b = 0#w
  · rw [remainder, if_pos hb0, if_pos (hb.mpr hb0)]
  have hmin := BitVec.toInt_intMin_of_pos hw
  have hpow : (0 : Int) < 2 ^ (w - 1) := Int.pow_pos (by decide)
  have hrem : (a.abs.srem b.abs).toInt = a.abs.toInt.tmod b.toInt := by
    rw [BitVec.toInt_srem, tmod_abs]
  have hne : a.abs.srem b.abs ≠ BitVec.intMin w := by
    intro h
    have hlt : (a.abs.toInt.tmod b.toInt).natAbs < b.toInt.natAbs := by
      rw [Int.natAbs_tmod]
      exact Nat.mod_lt _ (Int.natAbs_pos.mpr (mt hb.mp hb0))
    rw [← hrem, h, hmin] at hlt
    have hlo := b.le_toInt
    have hhi := b.toInt_lt
    omega
  simp only [BitVec.toInt_abs_eq_ite, BitVec.msb_eq_toInt, ← BitVec.toInt_inj, hmin] at hrem
  rw [remainder, if_neg hb0, if_neg (mt hb.mp hb0), BitVec.msb_eq_toInt]
  by_cases hneg : a.toInt < 0
  · rw [if_pos (decide_eq_true hneg)] at hrem ⊢
    rw [BitVec.toInt_neg_of_ne_intMin hne, hrem]
    split
    · next h => rw [h]
    · rw [Int.neg_tmod, Int.neg_neg]
  · have hne : a.toInt ≠ -2 ^ (w - 1) := by omega
    rw [if_neg hne, if_neg (by simpa using hneg)] at hrem
    rw [if_neg hne, if_neg (by simpa using hneg)]
    exact hrem

theorem toInt_sdiv {w : Nat} (hw : 0 < w) (a b : BitVec w) : (a.sdiv b).toInt =
    if a.toInt = -2 ^ (w - 1) ∧ b.toInt = -1 then -2 ^ (w - 1) else a.toInt.tdiv b.toInt := by
  have hmin : a = BitVec.intMin w ↔ a.toInt = -2 ^ (w - 1) := by
    rw [← BitVec.toInt_inj, BitVec.toInt_intMin_of_pos hw]
  have hone : b = -1#w ↔ b.toInt = -1 := by
    rw [← BitVec.toInt_inj, BitVec.neg_one_eq_allOnes, BitVec.toInt_allOnes, if_pos hw]
  split
  · next h =>
    rw [hmin.mpr h.1, hone.mpr h.2, BitVec.intMin_sdiv_neg_one, BitVec.toInt_intMin_of_pos hw]
  · next h =>
    apply BitVec.toInt_sdiv_of_ne_or_ne
    rw [Ne, Ne, hmin, hone]
    exact not_and_or.mp h

def alignUp (u x : Nat) : Nat := (x + u - 1) / u * u

theorem alignUp_mod (u x : Nat) : alignUp u x % u = 0 := Nat.mul_mod_left ..

theorem le_alignUp {u : Nat} (hu : 0 < u) (x : Nat) : x ≤ alignUp u x := by
  have hdiv := Nat.div_add_mod (x + u - 1) u
  have hmod := Nat.mod_lt (x + u - 1) hu
  rw [Nat.mul_comm] at hdiv
  unfold alignUp
  omega

theorem alignUp_lt {u : Nat} (hu : 0 < u) (x : Nat) : alignUp u x < x + u := by
  have hle := Nat.div_mul_le_self (x + u - 1) u
  unfold alignUp
  omega

theorem alignUp_mono (u : Nat) {x y : Nat} (h : x ≤ y) : alignUp u x ≤ alignUp u y :=
  Nat.mul_le_mul_right u (Nat.div_le_div_right (by omega))

theorem alignUp_le_of_mod {u x y : Nat} (hu : 0 < u) (h : x ≤ y) (hy : y % u = 0) :
    alignUp u x ≤ y := by
  obtain ⟨k, rfl⟩ := Nat.dvd_of_mod_eq_zero hy
  have hlt : (x + u - 1) / u < k + 1 := by
    rw [Nat.div_lt_iff_lt_mul hu, Nat.succ_mul, Nat.mul_comm]
    omega
  rw [alignUp, Nat.mul_comm]
  exact Nat.mul_le_mul_left u (Nat.le_of_lt_succ hlt)

theorem alignUp_add_mul {u : Nat} (hu : 0 < u) (x k : Nat) :
    alignUp u (x + k * u) = alignUp u x + k * u := by
  have hsum : x + k * u + u - 1 = x + u - 1 + k * u := by omega
  rw [alignUp, hsum, Nat.add_mul_div_right _ _ hu, Nat.add_mul, alignUp]

theorem alignUp_add_of_mod {u a : Nat} (hu : 0 < u) (ha : a % u = 0) (x : Nat) :
    alignUp u (a + x) = a + alignUp u x := by
  obtain ⟨k, rfl⟩ := Nat.dvd_of_mod_eq_zero ha
  rw [Nat.add_comm, Nat.mul_comm, alignUp_add_mul hu, Nat.add_comm]

theorem alignUp_alignUp {s l : Nat} (hs : 0 < s) (hl : 0 < l)
    (hdvd : s ∣ l) (x : Nat) : alignUp l (alignUp s x) = alignUp l x := by
  have hmod : alignUp l x % s = 0 := by
    obtain ⟨k, rfl⟩ := hdvd
    rw [alignUp, ← Nat.mul_assoc, Nat.mul_right_comm]
    exact Nat.mul_mod_left ..
  apply Nat.le_antisymm
  · apply alignUp_le_of_mod hl
    · exact alignUp_le_of_mod hs (le_alignUp hl x) hmod
    · exact alignUp_mod l x
  · exact alignUp_mono l (le_alignUp hs x)

theorem sub_div_mul {u c x : Nat} (hu : 0 < u) (hc : c % u = 0) (hx : x ≤ c) :
    (c - x) / u * u = c - alignUp u x := by
  have hle := alignUp_le_of_mod hu hx hc
  have hlo := le_alignUp hu x
  have hhi := alignUp_lt hu x
  have hmod : (c - alignUp u x) % u = 0 :=
    Nat.mod_eq_zero_of_dvd (Nat.dvd_sub (Nat.dvd_of_mod_eq_zero hc)
      (Nat.dvd_of_mod_eq_zero (alignUp_mod u x)))
  obtain ⟨k, hk⟩ := Nat.dvd_of_mod_eq_zero hmod
  have hquot : (c - x) / u = k := by
    refine Nat.div_eq_of_lt_le ?_ ?_
    · rw [Nat.mul_comm, ← hk]
      omega
    · rw [Nat.succ_mul, Nat.mul_comm, ← hk]
      omega
  rw [hquot, Nat.mul_comm, hk]

section

variable {x unit : UInt64} {k : Nat}

theorem toNat_and_mask (hunit : unit.toNat = 2 ^ k) :
    (x &&& (unit - 1)).toNat = x.toNat % 2 ^ k := by
  have hpos : 0 < 2 ^ k := Nat.two_pow_pos k
  have hone : (1 : UInt64) ≤ unit := by
    rw [UInt64.le_iff_toNat_le, hunit]
    exact hpos
  rw [UInt64.toNat_and, UInt64.toNat_sub_of_le _ _ hone, hunit]
  exact Nat.and_two_pow_sub_one_eq_mod x.toNat k

theorem toNat_split_mask (x mask : UInt64) :
    x.toNat = (x &&& ~~~mask).toNat + (x &&& mask).toNat := by
  have hapart : (x &&& ~~~mask).toBitVec &&& (x &&& mask).toBitVec = 0#64 := by
    ext i hi
    simp only [UInt64.toBitVec_and, UInt64.toBitVec_not, BitVec.getElem_and, BitVec.getElem_not,
      BitVec.getElem_zero]
    cases mask.toBitVec[i] <;> simp
  have hall : (x &&& ~~~mask).toBitVec ||| (x &&& mask).toBitVec = x.toBitVec := by
    ext i hi
    simp only [UInt64.toBitVec_and, UInt64.toBitVec_not, BitVec.getElem_and, BitVec.getElem_not,
      BitVec.getElem_or]
    cases mask.toBitVec[i] <;> simp
  have hsum := BitVec.toNat_add_of_and_eq_zero hapart
  rw [BitVec.add_eq_or_of_and_eq_zero _ _ hapart, hall] at hsum
  exact hsum

theorem toNat_and_not_mask (hunit : unit.toNat = 2 ^ k) :
    (x &&& ~~~(unit - 1)).toNat = x.toNat / 2 ^ k * 2 ^ k := by
  have hsum := toNat_split_mask x (unit - 1)
  rw [toNat_and_mask hunit] at hsum
  have hdiv := Nat.div_add_mod x.toNat (2 ^ k)
  rw [Nat.mul_comm] at hdiv
  omega

theorem toNat_alignUp (hunit : unit.toNat = 2 ^ k) (hx : x.toNat + 2 ^ k < 2 ^ 64) :
    (if x &&& (unit - 1) = 0 then x else (x + unit) &&& ~~~(unit - 1)).toNat =
      alignUp (2 ^ k) x.toNat := by
  have hpos : 0 < 2 ^ k := Nat.two_pow_pos k
  have hdiv := Nat.div_add_mod x.toNat (2 ^ k)
  rw [Nat.mul_comm] at hdiv
  have hmask : x &&& (unit - 1) = 0 ↔ x.toNat % 2 ^ k = 0 := by
    rw [← UInt64.toNat_inj, toNat_and_mask hunit]
    rfl
  rw [alignUp]
  split
  · next h =>
    rw [hmask] at h
    have hquot : (x.toNat + 2 ^ k - 1) / 2 ^ k = x.toNat / 2 ^ k := by
      refine Nat.div_eq_of_lt_le ?_ ?_
      · omega
      · rw [Nat.succ_mul]
        omega
    rw [hquot]
    omega
  · next h =>
    rw [hmask] at h
    have hlt := Nat.mod_lt x.toNat hpos
    have hquot : (x.toNat + 2 ^ k - 1) / 2 ^ k = x.toNat / 2 ^ k + 1 := by
      refine Nat.div_eq_of_lt_le ?_ ?_
      · rw [Nat.succ_mul]
        omega
      · rw [Nat.succ_mul, Nat.succ_mul]
        omega
    rw [toNat_and_not_mask hunit, toNat_add_of_lt (by omega), hunit, Nat.add_div_right _ hpos,
      hquot]

end

end Strawberry
