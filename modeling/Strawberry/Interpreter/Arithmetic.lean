import Strawberry.Interpreter.Mutations

/-!
# What the arithmetic instructions compute
-/

namespace Strawberry.Interpreter

open Polkavm Jam UInt64 Reg

theorem toUInt32_ofInt32 (x : Int32) : (ofInt32 x).toUInt32 = x.toUInt32 := by
  apply UInt32.toBitVec_inj.mp
  change BitVec.setWidth 32 (x.toBitVec.signExtend 64) = x.toBitVec
  apply BitVec.eq_of_getLsbD_eq
  intro z hz
  rw [BitVec.getLsbD_setWidth, BitVec.getLsbD_signExtend]
  simp [hz, show z < 64 by omega]

theorem toUInt32_sext (x : UInt32) : (sext x.toUInt64 4).toUInt32 = x := by
  rw [sext, toUInt32_ofInt32, UInt32.toUInt32_toUInt64]
  rfl

theorem sext_inj {x y : UInt32} : sext x.toUInt64 4 = sext y.toUInt64 4 ↔ x = y :=
  (Function.LeftInverse.injective toUInt32_sext).eq_iff

theorem toInt_ofInt32 (x : Int32) : (ofInt32 x).toInt64.toInt = x.toInt := Int32.toInt_toInt64 x

theorem ofInt32_inj {x y : Int32} : ofInt32 x = ofInt32 y ↔ x = y := by
  constructor
  · intro h
    rw [← Int32.toInt_inj, ← toInt_ofInt32 x, ← toInt_ofInt32 y, h]
  · exact congrArg _

theorem toUInt64_inj {x y : Int64} : x.toUInt64 = y.toUInt64 ↔ x = y :=
  ⟨fun h => by simpa using congrArg UInt64.toInt64 h, congrArg _⟩

theorem toBitVec_sar64 (x : Int64) (s : UInt64) :
    (sar64 x s).toBitVec = x.toBitVec.sshiftRight s.toNat := by
  unfold sar64
  split
  · next h =>
    rw [Int64.toBitVec_shiftRight, BitVec.sshiftRight_eq']
    exact congrArg _ (toNat_smod_of_lt (m := 64) h (by decide))
  · next h =>
    rw [lt_iff_toNat_lt] at h
    rw [sshiftRight_sign _ (by simp at h; omega), ← BitVec.slt_zero_eq_msb]
    split <;> next hx =>
      rw [Int64.lt_iff_toBitVec_slt] at hx
      simp_all

theorem toBitVec_sar32 (x : Int32) (s : UInt64) :
    (sar32 x s).toBitVec = x.toBitVec.sshiftRight s.toNat := by
  unfold sar32
  split
  · next h =>
    rw [lt_iff_toNat_lt] at h
    have hs : s.toUInt32.toNat = s.toNat := by
      exact Nat.mod_eq_of_lt (by simp at h; omega)
    rw [← hs] at h ⊢
    rw [Int32.toBitVec_shiftRight, BitVec.sshiftRight_eq']
    exact congrArg _ (toNat_smod_of_lt (m := 32) h (by decide))
  · next h =>
    rw [lt_iff_toNat_lt] at h
    rw [sshiftRight_sign _ (by simp at h; omega), ← BitVec.slt_zero_eq_msb]
    split <;> next hx =>
      rw [Int32.lt_iff_toBitVec_slt] at hx
      simp_all

theorem toUInt32_shl64 (a n : UInt64) : (shl64 a n).toUInt32 = shl32 a.toUInt32 n := by
  apply UInt32.toNat_inj.mp
  unfold shl64 shl32
  simp only [lt_iff_toNat_lt]
  by_cases hn : n.toNat < 32
  · have h64 : n.toNat < 64 := by omega
    simp [hn, h64, Nat.shiftLeft_eq, Nat.mod_eq_of_lt]
  · by_cases h64 : n.toNat < 64
    · have hdvd : 2 ^ 32 ∣ a.toNat * 2 ^ n.toNat :=
        Dvd.dvd.mul_left (Nat.pow_dvd_pow 2 (by omega)) _
      simp [hn, h64, Nat.shiftLeft_eq, Nat.mod_eq_of_lt]
      omega
    · simp [hn, h64]

theorem amount_iff {α : Type} {f : UInt64 → α} {z : α} {w n : UInt64} (hbig : ¬ n < w → f n = z) :
    f n = f (n % w) ↔ n < w ∨ f (n % w) = z := by
  by_cases h : n < w
  · simp [h, UInt64.mod_eq_of_lt h]
  · rw [hbig h]
    simp [h, eq_comm]

theorem toInt_smod64 (a b : Int64) : (smod64 a b).toInt =
    if b.toInt = 0 then a.toInt
    else if a.toInt = -2 ^ 63 then -a.toInt.tmod b.toInt else a.toInt.tmod b.toInt := by
  have habs (v : Int64) : (abs64 v).toBitVec = v.toBitVec.abs := by
    exact abs_of_sign _
  have hrem : (smod64 a b).toBitVec = remainder a.toBitVec b.toBitVec := by
    simp only [smod64, remainder, ← Int64.toBitVec_inj, Int64.lt_iff_toBitVec_slt,
      ← BitVec.slt_zero_eq_msb, apply_ite Int64.toBitVec, Int64.toBitVec_neg, Int64.toBitVec_mod,
      habs]
    rfl
  rw [← Int64.toInt_toBitVec, hrem]
  exact toInt_remainder (by decide) _ _

theorem toInt_smod32 (a b : Int32) : (smod32 a b).toInt =
    if b.toInt = 0 then a.toInt
    else if a.toInt = -2 ^ 31 then -a.toInt.tmod b.toInt else a.toInt.tmod b.toInt := by
  have habs (v : Int32) : (abs32 v).toBitVec = v.toBitVec.abs := by
    exact abs_of_sign _
  have hrem : (smod32 a b).toBitVec = remainder a.toBitVec b.toBitVec := by
    simp only [smod32, remainder, ← Int32.toBitVec_inj, Int32.lt_iff_toBitVec_slt,
      ← BitVec.slt_zero_eq_msb, apply_ite Int32.toBitVec, Int32.toBitVec_neg, Int32.toBitVec_mod,
      habs]
    rfl
  rw [← Int32.toInt_toBitVec, hrem]
  exact toInt_remainder (by decide) _ _

theorem toBitVec_rotateLeft64 (x k : UInt64) :
    (rotateLeft64 x k).toBitVec = rotl x.toBitVec (k.toNat % 64) := by
  have hright : (18446744073709551616 - k.toNat % 64) % 64 = (64 - k.toNat % 64) % 64 := by omega
  simp [rotateLeft64, rotl, hright]

theorem rotateLeft64_back (x n : UInt64) : rotateLeft64 (rotateLeft64 x n) (0 - n) = x := by
  have hneg : (0 - n).toNat % 64 = (64 - n.toNat % 64) % 64 := by
    have := n.toNat_lt
    rw [UInt64.toNat_sub, UInt64.toNat_zero]
    omega
  apply UInt64.toBitVec_inj.mp
  rw [toBitVec_rotateLeft64, toBitVec_rotateLeft64, hneg]
  exact rotl_back _ (Nat.mod_lt _ (by decide))

theorem toBitVec_rotateLeft32 (x : UInt32) (k : UInt64) :
    (rotateLeft32 x k).toBitVec = rotl x.toBitVec (k.toNat % 32) := by
  have hright : (4294967296 - k.toNat % 32 % 4294967296) % 32 = (32 - k.toNat % 32) % 32 := by
    omega
  simp [rotateLeft32, rotl, hright]

theorem rotateLeft32_back (x : UInt32) (n : UInt64) :
    rotateLeft32 (rotateLeft32 x n) (0 - n) = x := by
  have hneg : (0 - n).toNat % 32 = (32 - n.toNat % 32) % 32 := by
    have := n.toNat_lt
    rw [UInt64.toNat_sub, UInt64.toNat_zero]
    omega
  apply UInt32.toBitVec_inj.mp
  rw [toBitVec_rotateLeft32, toBitVec_rotateLeft32, hneg]
  exact rotl_back _ (Nat.mod_lt _ (by decide))

theorem rotateLeft32_low (x : UInt32) (n : UInt64) :
    rotateLeft32 x (0 - n.toUInt32.toUInt64) = rotateLeft32 x (0 - n) := by
  have hmod : (0 - n.toUInt32.toUInt64).toNat % 32 = (0 - n).toNat % 32 := by
    have hlt := n.toNat_lt
    rw [UInt64.toNat_sub, UInt64.toNat_sub, UInt32.toNat_toUInt64, UInt64.toNat_toUInt32]
    omega
  apply UInt32.toBitVec_inj.mp
  rw [toBitVec_rotateLeft32, toBitVec_rotateLeft32, hmod]

abbrev Operation := Instance → Reg → Reg → Reg → Exec

def SameOn (a b : UInt64) (op op' : Operation) : Prop :=
  ∀ i dst r s, i.reg r = a → i.reg s = b → op i dst r s = op' i dst r s

def Computes (a b : UInt64) (op : Operation) (v : UInt64) : Prop :=
  SameOn a b op fun i dst _ _ => i.setAndSkip dst v

def twoNumbers (a b : UInt64) : Instance :=
  { Instance.bare 1 [0, 0] [true, true] with
    regs := Registers.set (Registers.set (.replicate _ 0) A0 a) A1 b }

theorem setAndSkip_inj {i : Instance} {s : UInt64}
    (hs : Polkavm.skip i.instructionCounter i.bitmask = .ret s) {dst : Reg} {v w : UInt64} :
    i.setAndSkip dst v = i.setAndSkip dst w ↔ v = w := by
  constructor
  · intro heq
    simp [Instance.setAndSkip, Instance.done, Instance.skip, Instance.setReg, hs] at heq
    have hget := congrArg (fun regs : Registers => regs.get dst) heq
    exact (Vector.getElem_set_self _).symm.trans (hget.trans (Vector.getElem_set_self _))
  · exact congrArg _

theorem sameOn_iff {a b v w : UInt64} {op op' : Operation} (h : Computes a b op v)
    (h' : Computes a b op' w) : SameOn a b op op' ↔ v = w := by
  constructor
  · intro hsame
    have hsame := hsame (twoNumbers a b) 0 A0 A1 rfl rfl
    rw [h _ _ _ _ rfl rfl, h' _ _ _ _ rfl rfl] at hsame
    exact (setAndSkip_inj rfl).mp hsame
  · rintro rfl i dst r s hr hs
    rw [h i dst r s hr hs, h' i dst r s hr hs]

theorem toUInt64_mod32 (n : UInt64) : (n.toUInt32 % 32).toUInt64 = n % 32 := by
  apply UInt64.toNat_inj.mp
  simp

theorem mod32_toUInt64 (n : UInt64) : n.toUInt32.toUInt64 % 32 = n % 32 := by
  rw [← toUInt64_mod32 n]
  rfl

theorem sameOn_shift_iff {α : Type} {a n m w : UInt64} {op op' : Operation} {f : UInt64 → α}
    {o : α → UInt64} {z : α} (ho : ∀ {x y}, o x = o y ↔ x = y) (hbig : ¬ m < w → f m = z)
    (hop' : Computes a n op' (o (f (m % w)))) (hop : Computes a n op (o (f m))) :
    SameOn a n op op' ↔ m < w ∨ f (m % w) = z := by
  rw [sameOn_iff hop hop', ho]
  exact amount_iff hbig

section

variable (a n : UInt64)

theorem computes_shl32 : Computes a n Instance.shiftLogicalLeft32
    (sext (shl32 a.toUInt32 (n % 32)).toUInt64 4) := by
  rintro i dst r s rfl rfl
  rw [← toUInt64_mod32]
  rfl

theorem computes_shr32 : Computes a n Instance.shiftLogicalRight32
    (sext (shr32 a.toUInt32 (n % 32)).toUInt64 4) := by
  rintro i dst r s rfl rfl
  rw [← toUInt64_mod32]
  rfl

theorem computes_sar32 : Computes a n Instance.shiftArithmeticRight32
    (ofInt32 (sar32 a.toUInt32.toInt32 (n % 32))) := by
  rintro i dst r s rfl rfl
  rw [← toUInt64_mod32]
  rfl

theorem computes_shl64 : Computes a n Instance.shiftLogicalLeft64 (shl64 a (n % 64)) := by
  rintro i dst r s rfl rfl
  rfl

theorem computes_shr64 : Computes a n Instance.shiftLogicalRight64 (shr64 a (n % 64)) := by
  rintro i dst r s rfl rfl
  rfl

theorem computes_sar64 : Computes a n Instance.shiftArithmeticRight64
    (sar64 a.toInt64 (n % 64)).toUInt64 := by
  rintro i dst r s rfl rfl
  rfl

end

theorem shiftRight_eq_iff {x q : Int} {m : Nat} :
    x >>> m = q ↔ q * 2 ^ m ≤ x ∧ x < q * 2 ^ m + 2 ^ m := by
  rw [Int.shiftRight_eq_div_pow, Int.natCast_pow]
  exact Int.ediv_eq_iff_of_pos (Int.pow_pos (by decide))

/-- When the low half of a number, sign-extended and shifted by the whole amount, is what the whole
number gives when it is shifted by the amount modulo 64. -/
theorem low_shift_iff {low whole : Int} {n : Nat} (hle : -2 ^ 31 ≤ low) (hlt : low < 2 ^ 31)
    (hlow : (2 ^ 32 : Int) ∣ low - whole) :
    low >>> n = whole >>> (n % 64) ↔
      if n < 32 then low = whole
      else if low < 0 then -2 ^ (n % 64) ≤ whole ∧ whole < 0
      else 0 ≤ whole ∧ whole < 2 ^ (n % 64) := by
  split
  · next hn =>
    obtain ⟨k, hk⟩ := hlow
    rw [Nat.mod_eq_of_lt (by omega)]
    refine ⟨fun heq => ?_, fun heq => by rw [heq]⟩
    obtain ⟨hle', hlt'⟩ := shiftRight_eq_iff.mp heq
    obtain ⟨hle'', hlt''⟩ := shiftRight_eq_iff.mp (Eq.refl (whole >>> n))
    have hpow : (2 : Int) ^ n ≤ 2 ^ 31 := by exact_mod_cast Nat.pow_le_pow_right (n := 2) (by decide) (by omega)
    omega
  · next hn =>
    have hpow : (2 : Int) ^ 31 ≤ 2 ^ n := by exact_mod_cast Nat.pow_le_pow_right (n := 2) (by decide) (by omega)
    split
    · next hneg =>
      have hout : low >>> n = -1 := shiftRight_eq_iff.mpr (by omega)
      rw [hout, eq_comm, shiftRight_eq_iff]
      omega
    · next hneg =>
      have hout : low >>> n = 0 := shiftRight_eq_iff.mpr (by omega)
      rw [hout, eq_comm, shiftRight_eq_iff]
      omega

theorem toInt_low (a : UInt64) :
    a.toUInt32.toInt32.toInt = a.toInt64.toInt.bmod (2 ^ 32) := by
  have hlow : a.toUInt32.toInt32 = a.toInt64.toInt32 := by
    apply Int32.toBitVec_inj.mp
    exact (BitVec.signExtend_eq_setWidth_of_le _ (show 32 ≤ 64 by decide)).symm
  rw [hlow, Int64.toInt_toInt32]

/-- When the forms of a shift agree. -/
theorem shifts_agree_iff (a n : UInt64) :
    (SameOn a n (fun i dst r _ => i.shiftLogicalLeftImm32 dst r n) Instance.shiftLogicalLeft32 ↔
      n < 32 ∨ shl32 a.toUInt32 (n % 32) = 0) ∧
    (SameOn a n (fun i dst r _ => i.shiftLogicalRightImm32 dst r n) Instance.shiftLogicalRight32 ↔
      n < 32 ∨ shr32 a.toUInt32 (n % 32) = 0) ∧
    (SameOn a n (fun i dst r _ => i.shiftArithmeticRightImm32 dst r n)
        Instance.shiftArithmeticRight32 ↔
      n < 32 ∨ sar32 a.toUInt32.toInt32 (n % 32) = if a.toUInt32.toInt32 < 0 then -1 else 0) ∧
    (SameOn a n (fun i dst r _ => i.shiftLogicalLeftImm64 dst r n) Instance.shiftLogicalLeft64 ↔
      n < 64 ∨ shl64 a (n % 64) = 0) ∧
    (SameOn a n (fun i dst r _ => i.shiftLogicalRightImm64 dst r n) Instance.shiftLogicalRight64 ↔
      n < 64 ∨ shr64 a (n % 64) = 0) ∧
    (SameOn a n (fun i dst r _ => i.shiftArithmeticRightImm64 dst r n)
        Instance.shiftArithmeticRight64 ↔
      n < 64 ∨ sar64 a.toInt64 (n % 64) = if a.toInt64 < 0 then -1 else 0) ∧
    (SameOn a n (fun i dst _ s => i.shiftLogicalLeftImmAlt32 dst s a) Instance.shiftLogicalLeft32 ↔
      n < 32 ∨ shl32 a.toUInt32 (n % 32) = 0) ∧
    (SameOn a n (fun i dst _ s => i.shiftLogicalRightImmAlt32 dst s a)
        Instance.shiftLogicalRight32 ↔
      n.toUInt32.toUInt64 < 32 ∨ shr32 a.toUInt32 (n % 32) = 0) ∧
    (SameOn a n (fun i dst _ s => i.shiftArithmeticRightImmAlt32 dst s a)
        Instance.shiftArithmeticRight32 ↔
      n.toUInt32.toUInt64 < 32 ∨
        sar32 a.toUInt32.toInt32 (n % 32) = if a.toUInt32.toInt32 < 0 then -1 else 0) ∧
    (SameOn a n (fun i dst _ s => i.shiftLogicalLeftImmAlt64 dst s a) Instance.shiftLogicalLeft64 ↔
      n < 64 ∨ shl64 a (n % 64) = 0) ∧
    (SameOn a n (fun i dst _ s => i.shiftLogicalRightImmAlt64 dst s a)
        Instance.shiftLogicalRight64 ↔
      n < 64 ∨ shr64 a (n % 64) = 0) ∧
    (SameOn a n (fun i dst _ s => i.shiftArithmeticRightImmAlt64 dst s a)
        Instance.shiftArithmeticRight64 ↔
      if n.toNat < 32 then a.toUInt32.toInt32.toInt = a.toInt64.toInt
      else if a.toUInt32.toInt32.toInt < 0 then
        -2 ^ (n.toNat % 64) ≤ a.toInt64.toInt ∧ a.toInt64.toInt < 0
      else 0 ≤ a.toInt64.toInt ∧ a.toInt64.toInt < 2 ^ (n.toNat % 64)) := by
  have hshr := computes_shr32 a n
  have hsar := computes_sar32 a n
  rw [← mod32_toUInt64] at hshr hsar
  refine ⟨sameOn_shift_iff sext_inj (fun h => if_neg h) (computes_shl32 a n) ?_,
    sameOn_shift_iff sext_inj (fun h => if_neg h) (computes_shr32 a n) ?_,
    sameOn_shift_iff ofInt32_inj (fun h => if_neg h) (computes_sar32 a n) ?_,
    sameOn_shift_iff (o := id) (f := shl64 a) Iff.rfl (fun h => if_neg h) (computes_shl64 a n) ?_,
    sameOn_shift_iff (o := id) (f := shr64 a) Iff.rfl (fun h => if_neg h) (computes_shr64 a n) ?_,
    sameOn_shift_iff toUInt64_inj (fun h => if_neg h) (computes_sar64 a n) ?_,
    sameOn_shift_iff sext_inj (fun h => if_neg h) (computes_shl32 a n) ?_, ?_, ?_,
    sameOn_shift_iff (o := id) (f := shl64 a) Iff.rfl (fun h => if_neg h) (computes_shl64 a n) ?_,
    sameOn_shift_iff (o := id) (f := shr64 a) Iff.rfl (fun h => if_neg h) (computes_shr64 a n) ?_, ?_⟩
  case refine_8 =>
    rw [← mod32_toUInt64]
    refine sameOn_shift_iff sext_inj (fun h => if_neg h) hshr ?_
    rintro i dst r s rfl rfl
    rfl
  case refine_9 =>
    rw [← mod32_toUInt64]
    refine sameOn_shift_iff ofInt32_inj (fun h => if_neg h) hsar ?_
    rintro i dst r s rfl rfl
    rfl
  case refine_12 =>
    have hop : Computes a n (fun i dst _ s => i.shiftArithmeticRightImmAlt64 dst s a)
        (ofInt32 (sar32 a.toUInt32.toInt32 n)) := by
      rintro i dst r s rfl rfl
      rfl
    have hlow : (2 ^ 32 : Int) ∣ a.toUInt32.toInt32.toInt - a.toInt64.toInt := by
      rw [toInt_low]
      exact Int.dvd_bmod_sub_self
    rw [sameOn_iff hop (computes_sar64 a n), ofInt32, toUInt64_inj, ← Int64.toInt_inj,
      Int32.toInt_toInt64, ← Int32.toInt_toBitVec, ← Int64.toInt_toBitVec, toBitVec_sar32,
      toBitVec_sar64, BitVec.toInt_sshiftRight, BitVec.toInt_sshiftRight, UInt64.toNat_mod]
    exact low_shift_iff (Int32.le_toInt _) (Int32.toInt_lt _) hlow
  case refine_7 =>
    rw [← toUInt32_shl64]
    rintro i dst r s rfl rfl
    rfl
  all_goals
    rintro i dst r s rfl rfl
    rfl

theorem shift_by_width_differs : (twoNumbers 1 32).shiftLogicalLeftImm32 0 A0 32 ≠
      (twoNumbers 1 32).shiftLogicalLeft32 0 A0 A1 := by
  decide

theorem toInt_quotient64 (a b : Int64) : (if b = 0 then -1 else a / b).toInt =
    if b.toInt = 0 then -1
    else if a.toInt = -2 ^ 63 ∧ b.toInt = -1 then -2 ^ 63 else a.toInt.tdiv b.toInt := by
  simp only [apply_ite Int64.toInt, ← Int64.toInt_inj, Int64.toInt_zero]
  rw [← Int64.toInt_toBitVec (a / b), Int64.toBitVec_div, toInt_sdiv (by decide)]
  rfl

theorem toInt_quotient32 (a b : Int32) : (if b = 0 then -1 else a / b).toInt =
    if b.toInt = 0 then -1
    else if a.toInt = -2 ^ 31 ∧ b.toInt = -1 then -2 ^ 31 else a.toInt.tdiv b.toInt := by
  simp only [apply_ite Int32.toInt, ← Int32.toInt_inj, Int32.toInt_zero]
  rw [← Int32.toInt_toBitVec (a / b), Int32.toBitVec_div, toInt_sdiv (by decide)]
  rfl

/-- When quotient and remainder fit together. -/
theorem signed_division_iff (a b : UInt64) :
    (∃ q r : Int64, Computes a b Instance.divSigned64 q.toUInt64 ∧
      Computes a b Instance.remSigned64 r.toUInt64 ∧
      (DividesRight (-2 ^ 63) a.toInt64.toInt b.toInt64.toInt q.toInt r.toInt ↔
        b.toInt64.toInt = 0 ∨ a.toInt64.toInt ≠ -2 ^ 63 ∨ b.toInt64.toInt ∣ a.toInt64.toInt)) ∧
    ∃ q r : Int32, Computes a b Instance.divSigned32 (ofInt32 q) ∧
      Computes a b Instance.remSigned32 (ofInt32 r) ∧
      (DividesRight (-2 ^ 31) a.toUInt32.toInt32.toInt b.toUInt32.toInt32.toInt q.toInt r.toInt ↔
        b.toUInt32.toInt32.toInt = 0 ∨ a.toUInt32.toInt32.toInt ≠ -2 ^ 31 ∨
          b.toUInt32.toInt32.toInt ∣ a.toUInt32.toInt32.toInt) := by
  constructor
  · refine ⟨if b.toInt64 = 0 then -1 else a.toInt64 / b.toInt64, smod64 a.toInt64 b.toInt64,
      ?_, ?_, dividesRight_iff (toInt_quotient64 _ _) (toInt_smod64 _ _)⟩
    · rintro i dst r s rfl rfl
      by_cases h : (i.reg r).toInt64 = Int64.minValue ∧ (i.reg s).toInt64 = -1
      · simp only [Instance.divSigned64, Instance.sreg, h.1, h.2]
        rfl
      · simp only [Instance.divSigned64, Instance.sreg, h, if_false, apply_ite Int64.toUInt64,
          apply_ite (i.setAndSkip dst)]
        rfl
    · rintro i dst r s rfl rfl
      by_cases hb : (i.reg s).toInt64 = 0
      · simp [Instance.remSigned64, Instance.sreg, smod64, hb]
      by_cases h : (i.reg r).toInt64 = Int32.minValue.toInt64 ∧ (i.reg s).toInt64 = -1
      · simp only [Instance.remSigned64, Instance.sreg, h.1, h.2]
        rfl
      · simp only [Instance.remSigned64, Instance.sreg, hb, h, if_false]
  · refine ⟨if b.toUInt32.toInt32 = 0 then -1 else a.toUInt32.toInt32 / b.toUInt32.toInt32,
      smod32 a.toUInt32.toInt32 b.toUInt32.toInt32, ?_, ?_,
      dividesRight_iff (toInt_quotient32 _ _) (toInt_smod32 _ _)⟩
    · rintro i dst r s rfl rfl
      by_cases h : (i.reg r).toUInt32.toInt32 = Int32.minValue ∧ (i.reg s).toUInt32.toInt32 = -1
      · simp only [Instance.divSigned32, Instance.reg32, h.1, h.2]
        rfl
      · simp only [Instance.divSigned32, Instance.reg32, h, if_false, apply_ite ofInt32,
          apply_ite (i.setAndSkip dst)]
        rfl
    · rintro i dst r s rfl rfl
      by_cases hb : (i.reg s).toUInt32.toInt32 = 0
      · simp [Instance.remSigned32, Instance.reg32, smod32, hb]
      by_cases h : (i.reg r).toUInt32.toInt32 = Int32.minValue ∧ (i.reg s).toUInt32.toInt32 = -1
      · simp only [Instance.remSigned32, Instance.reg32, h.1, h.2]
        rfl
      · simp only [Instance.remSigned32, Instance.reg32, hb, h, if_false]

theorem remainder_of_smallest : ∃ q r : Int64,
      (twoNumbers 0x8000000000000000 3).divSigned64 0 A0 A1 =
        (twoNumbers 0x8000000000000000 3).setAndSkip 0 q.toUInt64 ∧
      (twoNumbers 0x8000000000000000 3).remSigned64 0 A0 A1 =
        (twoNumbers 0x8000000000000000 3).setAndSkip 0 r.toUInt64 ∧
      q.toInt * 3 + r.toInt ≠ -2 ^ 63 :=
  ⟨-3074457345618258602, 2, by decide, by decide, by decide⟩

theorem toInt64_emod (x : UInt64) : x.toInt64.toInt % 2 ^ 64 = x.toNat := by
  have hlt := x.toNat_lt
  rw [toInt_toInt64]
  split <;> omega

theorem upper_product {x y : Int} {low : UInt64} (hx : x.natAbs ≤ 2 ^ 63) (hy : y.natAbs < 2 ^ 64)
    (hlow : (low.toNat : Int) = x * y % 2 ^ 64) :
    (UInt64.ofBitVec (.ofInt 64 ((x * y) >>> 64))).toInt64.toInt * 2 ^ 64 + low.toNat = x * y := by
  have hle : (x * y).natAbs ≤ 2 ^ 63 * (2 ^ 64 - 1) := by
    rw [Int.natAbs_mul]
    exact Nat.mul_le_mul hx (by omega)
  have hup : (UInt64.ofBitVec (.ofInt 64 ((x * y) >>> 64))).toInt64.toInt = x * y / 2 ^ 64 := by
    change (BitVec.ofInt 64 ((x * y) >>> 64)).toInt = _
    rw [BitVec.toInt_ofInt,
      show (x * y) >>> (64 : Int) = (x * y) >>> (64 : Nat) from Int.shiftRight_natCast_right _ 64,
      Int.shiftRight_eq_div_pow]
    exact Int.bmod_eq_of_le (by omega) (by omega)
  rw [hup, hlow, Int.mul_comm]
  exact Int.mul_ediv_add_emod (x * y) (2 ^ 64)

/-- Upper products and rotations are exact. -/
theorem wide_multiplication_and_rotation (a b : UInt64) :
    (∃ low ss uu su : UInt64, Computes a b Instance.mul64 low ∧
      Computes a b Instance.mulUpperSignedSigned ss ∧
      Computes a b Instance.mulUpperUnsignedUnsigned uu ∧
      Computes a b Instance.mulUpperSignedUnsigned su ∧
      ss.toInt64.toInt * 2 ^ 64 + low.toNat = a.toInt64.toInt * b.toInt64.toInt ∧
      uu.toNat * 2 ^ 64 + low.toNat = a.toNat * b.toNat ∧
      su.toInt64.toInt * 2 ^ 64 + low.toNat = a.toInt64.toInt * b.toNat) ∧
    (∃ left, Computes a b Instance.rotateLeft64 left ∧ Computes left b Instance.rotateRight64 a) ∧
    (∃ left, Computes a b Instance.rotateLeft32 left ∧
      Computes left b Instance.rotateRight32 (sext a.toUInt32.toUInt64 4)) ∧
    SameOn a b (fun i dst r _ => i.rotateRight64Imm dst r b) Instance.rotateRight64 ∧
    SameOn a b (fun i dst _ s => i.rotateRight64ImmAlt dst s a) Instance.rotateRight64 ∧
    SameOn a b (fun i dst r _ => i.rotateRight32Imm dst r b) Instance.rotateRight32 ∧
    SameOn a b (fun i dst _ s => i.rotateRight32ImmAlt dst s a) Instance.rotateRight32 := by
  have hsigned (x : UInt64) : x.toInt64.toInt.natAbs ≤ 2 ^ 63 := by
    have hlo := x.toInt64.le_toInt
    have hhi := x.toInt64.toInt_lt
    omega
  have hlow : ((a * b).toNat : Int) = (a.toNat * b.toNat : Int) % 2 ^ 64 := by
    rfl
  have hss : ((a * b).toNat : Int) = a.toInt64.toInt * b.toInt64.toInt % 2 ^ 64 := by
    rw [Int.mul_emod, toInt64_emod, toInt64_emod, hlow]
  have hsu : ((a * b).toNat : Int) = a.toInt64.toInt * b.toNat % 2 ^ 64 := by
    have hb : (b.toNat : Int) % 2 ^ 64 = b.toNat := by
      have hlt := b.toNat_lt
      omega
    rw [Int.mul_emod, toInt64_emod, hb, hlow]
  refine ⟨⟨a * b, .ofBitVec (.ofInt 64 ((a.toInt64.toInt * b.toInt64.toInt) >>> 64)),
    .ofNat ((a.toNat * b.toNat) >>> 64),
    .ofBitVec (.ofInt 64 ((a.toInt64.toInt * b.toNat) >>> 64)), ?_, ?_, ?_, ?_,
    upper_product (hsigned a) ((hsigned b).trans_lt (by decide)) hss, ?_,
    upper_product (hsigned a) b.toNat_lt hsu⟩,
    ⟨rotateLeft64 a b, ?_, ?_⟩, ⟨sext (rotateLeft32 a.toUInt32 b).toUInt64 4, ?_, ?_⟩,
    ?_, ?_, ?_, ?_⟩
  case refine_5 =>
    have hlt : a.toNat * b.toNat < 2 ^ 64 * 2 ^ 64 :=
      Nat.mul_lt_mul'' a.toNat_lt b.toNat_lt
    rw [UInt64.toNat_mul, toNat_ofNat_of_lt (by omega), Nat.shiftRight_eq_div_pow]
    omega
  case refine_7 =>
    rintro i dst r s hr rfl
    rw [Instance.rotateRight64, hr, rotateLeft64_back]
  case refine_9 =>
    rintro i dst r s hr rfl
    rw [Instance.rotateRight32, Instance.reg32, hr, toUInt32_sext, rotateLeft32_back]
  case refine_13 =>
    rintro i dst r s rfl rfl
    simp only [Instance.rotateRight32ImmAlt, Instance.reg32, rotateLeft32_low]
    rfl
  all_goals
    rintro i dst r s rfl rfl
    rfl

/-- When the signed comparisons agree. -/
theorem signed_comparisons_iff (a b : UInt64) :
    (∀ (i : Instance) r s target, i.reg r = a → i.reg s = b →
      i.branchLessSigned r s target = i.branch (a.toInt64 < b.toInt64) target ∧
      i.branchGreaterOrEqualSigned r s target = i.branch (¬ a.toInt64 < b.toInt64) target ∧
      i.branchLessSignedImm r b target = i.branch (a.toInt64 < b.toInt64) target ∧
      i.branchGreaterOrEqualSignedImm r b target = i.branch (¬ a.toInt64 < b.toInt64) target) ∧
    Computes a b (fun i dst r _ => i.setLessThanSignedImm dst r b)
      (if a.toInt64 < b.toInt64 then 1 else 0) ∧
    (∃ u v, Computes a b Instance.min u ∧ Computes a b Instance.max v ∧
      (u = a ∧ v = b ∧ a ≠ b ↔ a.toInt64 < b.toInt64)) ∧
    (Computes a b Instance.setLessThanSigned (if a.toInt64 < b.toInt64 then 1 else 0) ↔
      (a.toUInt32.toInt32 < b.toUInt32.toInt32 ↔ a.toInt64 < b.toInt64)) := by
  have hite (c : Prop) [Decidable c] {x y : UInt64} :
      (if c then x.toInt64 else y.toInt64).toUInt64 = if c then x else y := by
    split <;> rfl
  refine ⟨?_, ?_, ⟨if b.toInt64 < a.toInt64 then b else a, if a.toInt64 < b.toInt64 then b else a,
    ?_, ?_, ?_⟩, ?_⟩
  · rintro i r s target rfl rfl
    have hge : (i.reg s).toInt64 ≤ (i.reg r).toInt64 ↔ ¬ (i.reg r).toInt64 < (i.reg s).toInt64 :=
      Int64.not_lt.symm
    refine ⟨rfl, ?_, rfl, ?_⟩
    · simp only [Instance.branchGreaterOrEqualSigned, Instance.sreg, hge]
    · simp only [Instance.branchGreaterOrEqualSignedImm, Instance.sreg, hge]
  · rintro i dst r s rfl rfl
    change i.setAndSkip dst (bool2uint64 _) = i.setAndSkip dst _
    simp only [bool2uint64, decide_eq_true_eq]
    rfl
  · rintro i dst r s rfl rfl
    exact congrArg (i.setAndSkip dst) (hite _)
  · rintro i dst r s rfl rfl
    exact congrArg (i.setAndSkip dst) (hite _)
  · constructor
    · rintro ⟨-, hv, hne⟩
      by_contra hlt
      rw [if_neg hlt] at hv
      exact hne hv
    · intro hlt
      refine ⟨if_neg (Int64.lt_asymm hlt), if_pos hlt, ?_⟩
      rintro rfl
      exact Int64.lt_irrefl hlt
  · have hset : Computes a b Instance.setLessThanSigned
        (bool2uint64 (a.toUInt32.toInt32 < b.toUInt32.toInt32)) := by
      rintro i dst r s rfl rfl
      rfl
    refine (sameOn_iff hset fun _ _ _ _ _ _ => rfl).trans ?_
    by_cases h : a.toUInt32.toInt32 < b.toUInt32.toInt32 <;>
      by_cases h' : a.toInt64 < b.toInt64 <;> simp [bool2uint64, h, h']

theorem set_less_than_signed_disagrees :
    (twoNumbers 0 0x100000000).setLessThanSigned 0 A0 A1 =
      (twoNumbers 0 0x100000000).setAndSkip 0 0 ∧
    (twoNumbers 0 0x100000000).branchLessSigned A0 A1 0 =
      (twoNumbers 0 0x100000000).branch true 0 := by
  decide

end Strawberry.Interpreter
