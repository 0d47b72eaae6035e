import Strawberry.Codec.Naturals
import Strawberry.Interpreter.Arithmetic
import Strawberry.Interpreter.Frame

/-!
# Operands

When the decoding of an instruction's arguments returns, and what it yields.
-/

namespace Strawberry.Interpreter

open Polkavm Jam UInt64

def signExtended (length v : Nat) : UInt64 :=
  UInt64.ofNat (if 2 * v < 256 ^ length then v else v + (2 ^ 64 - 256 ^ length))

namespace Instance

section

variable (i : Instance)

def zeta (n : Nat) : UInt8 := i.code.getD (i.instructionCounter.toNat + n) 0

def number (n length : Nat) : Nat := leNat ((List.range length).map fun k => i.zeta (n + k))

def signed (n length : Nat) : UInt64 := signExtended length (i.number n length)

def unsigned (n length : Nat) : UInt64 := UInt64.ofNat (i.number n length)

def regValue (skip : Nat) (k : UInt64 → Instruction) : Nat × Instruction :=
  let lX := min 4 (skip - 1)
  (2 + lX, k (i.signed 2 lX))

def twoValues (skip : Nat) (b : UInt8) (k : UInt64 → UInt64 → Instruction) : Nat × Instruction :=
  let lX := min 4 b.toNat
  let lY := min 4 (skip - (lX + 1))
  (2 + lX + lY, k (i.signed 2 lX) (i.signed (2 + lX) lY))

def operands (first : Nat → Nat → UInt64) (skip : Nat) : Opcode → Nat × Instruction
  | .none op => (1, .none op)
  | .imm op => (1 + min 4 skip, .imm op (i.signed 1 (min 4 skip)))
  | .regImmExt op => (10, .regImmExt op (regOf (i.zeta 1 % 16)) (i.unsigned 2 8))
  | .imm2 op => i.twoValues skip (i.zeta 1 % 8) (.imm2 op)
  | .offset op =>
    (1 + min 4 skip, .offset op (i.instructionCounter + i.signed 1 (min 4 skip)))
  | .regImm op => i.regValue skip (.regImm op (regOf (i.zeta 1 % 16)))
  | .regImm2 op =>
    i.twoValues skip (i.zeta 1 / 16 % 8) (.regImm2 op (regOf (i.zeta 1 % 16)))
  | .regImmOffset op =>
    i.twoValues skip (i.zeta 1 / 16 % 8) fun x y =>
      .regImmOffset op (regOf (i.zeta 1 % 16)) x (i.instructionCounter + y)
  | .regReg op => (2, .regReg op (regOf (i.zeta 1 % 16)) (regOf (i.zeta 1 / 16)))
  | .reg2Imm op =>
    i.regValue skip (.reg2Imm op (regOf (i.zeta 1 % 16)) (regOf (i.zeta 1 / 16)))
  | .reg2Offset op =>
    i.regValue skip fun x =>
      .reg2Offset op (regOf (i.zeta 1 % 16)) (regOf (i.zeta 1 / 16)) (i.instructionCounter + x)
  | .reg2Imm2 op =>
    let lX := min 4 (i.zeta 2 % 8).toNat
    let lY := min 4 (skip - (lX + 2))
    (3 + lX + lY, .reg2Imm2 op (regOf (i.zeta 1 % 16)) (regOf (i.zeta 1 / 16)) (first 3 lX)
      (i.signed (3 + lX) lY))
  | .reg3 op => (3, .reg3 op (regOf (i.zeta 2)) (regOf (i.zeta 1 % 16)) (regOf (i.zeta 1 / 16)))

def Covers (n : Nat) : Prop := i.instructionCounter.toNat + n ≤ i.code.length

instance (n : Nat) : Decidable (i.Covers n) := inferInstanceAs (Decidable (_ ≤ _))

def checked (p : Nat × Instruction) : Outcome (Except Err Instruction) :=
  if i.Covers p.1 then .ret (.ok p.2) else outOfBound

end

end Instance

variable {length v : Nat}

theorem toInt_signExtended (hl : length ≤ 4) (hv : v < 256 ^ length) :
    (signExtended length v).toInt64.toInt =
      if 2 * v < 256 ^ length then (v : Int) else v - ((256 ^ length : Nat) : Int) := by
  have hpow : 256 ^ length ≤ 256 ^ 4 := Nat.pow_le_pow_right (by decide) hl
  rw [signExtended, toInt_toInt64, toNat_ofNat']
  split_ifs <;> omega

theorem sext_eq (hl : length ≤ 4) (hv : v < 256 ^ length) :
    sext (UInt64.ofNat v) length = signExtended length v := by
  have hpow : 256 ^ length ≤ 256 ^ 4 := Nat.pow_le_pow_right (by decide) hl
  have hv' : (UInt64.ofNat v).toNat = v := toNat_ofNat_of_lt (by omega)
  suffices h : (sext (UInt64.ofNat v) length).toInt64.toInt =
      (signExtended length v).toInt64.toInt by
    simpa using congrArg Int64.toUInt64 (Int64.toInt_inj.mp h)
  rw [toInt_signExtended hl hv]
  obtain rfl | rfl | rfl | rfl | rfl : length = 0 ∨ length = 1 ∨ length = 2 ∨ length = 3 ∨
    length = 4 := by omega
  · obtain rfl : v = 0 := by omega
    rfl
  · refine (Int8.toInt_toInt64 _).trans ?_
    change (UInt64.ofNat v).toUInt8.toBitVec.toInt = _
    rw [BitVec.toInt_eq_toNat_cond, UInt8.toNat_toBitVec, toNat_toUInt8, hv']
    split_ifs <;> omega
  · refine (Int16.toInt_toInt64 _).trans ?_
    change (UInt64.ofNat v).toUInt16.toBitVec.toInt = _
    rw [BitVec.toInt_eq_toNat_cond, UInt16.toNat_toBitVec, toNat_toUInt16, hv']
    split_ifs <;> omega
  · have hshift : (UInt64.ofNat v <<< 8).toNat = v * 256 := by
      rw [UInt64.toNat_shiftLeft, hv', Nat.shiftLeft_eq]
      exact Nat.mod_eq_of_lt (show v * 256 < 2 ^ 64 by omega)
    refine (toInt_ofInt32 _).trans ?_
    rw [← Int32.toInt_toBitVec, toBitVec_sar32, BitVec.toInt_sshiftRight, Int.shiftRight_eq_div_pow]
    change (UInt64.ofNat v <<< 8).toUInt32.toBitVec.toInt / _ = _
    rw [BitVec.toInt_eq_toNat_cond, UInt32.toNat_toBitVec, toNat_toUInt32, hshift]
    simp only [UInt64.reduceToNat]
    split_ifs <;> omega
  · refine (toInt_ofInt32 _).trans ?_
    change (UInt64.ofNat v).toUInt32.toBitVec.toInt = _
    rw [BitVec.toInt_eq_toNat_cond, UInt32.toNat_toBitVec, toNat_toUInt32, hv']
    split_ifs <;> omega

namespace Instance

structure Fetches (i : Instance) : Prop where
  counter : i.instructionCounter.toNat < i.code.length
  size : i.code.length ≤ 2 ^ 32

variable {i : Instance}

namespace Fetches

variable {n length : UInt64}

theorem add_toNat (h : i.Fetches) (hn : n.toNat ≤ 32) :
    (i.instructionCounter + n).toNat = i.instructionCounter.toNat + n.toNat := by
  have := h.counter
  have := h.size
  rw [UInt64.toNat_add]
  omega

theorem codeEndsBefore_iff (h : i.Fetches) (hn : n.toNat ≤ 32) :
    i.codeEndsBefore n = true ↔ i.code.length < i.instructionCounter.toNat + n.toNat := by
  have := h.size
  rw [codeEndsBefore, decide_eq_true_iff, lt_iff_toNat_lt, h.add_toNat hn,
    toNat_ofNat', Nat.mod_eq_of_lt (by omega)]

theorem codeByte_eq (h : i.Fetches) (hn : n.toNat ≤ 32) :
    i.codeByte n = if i.instructionCounter.toNat + n.toNat < i.code.length
      then .ret (i.zeta n.toNat) else .crash .indexOutOfRange := by
  rw [codeByte, h.add_toNat hn]
  split
  · next hlt => simp [indexAt_of_lt hlt, zeta, hlt]
  · next hlt => simp [indexAt, List.getElem?_eq_none (Nat.not_lt.mp hlt)]

theorem codeValue_eq (h : i.Fetches) (hn : n.toNat ≤ 16) (hl : length.toNat ≤ 8)
    (hle : i.instructionCounter.toNat + n.toNat + length.toNat ≤ i.code.length) :
    i.codeValue n length = .ret (UInt64.ofNat (i.number n.toNat length.toNat)) := by
  have hsum : (n + length).toNat = n.toNat + length.toNat := toNat_add_of_lt (by omega)
  have hlo := h.add_toNat (n := n) (by omega)
  have hhi := h.add_toNat (n := n + length) (by omega)
  rw [codeValue, add_assoc, hlo, hhi, hsum, sliceOf_of_le (by omega) (by omega), ret_bind,
    pure_eq, leUInt64, number, Nat.add_sub_add_left, Nat.add_sub_cancel_left]
  refine congrArg (fun bytes => Outcome.ret (UInt64.ofNat (leNat bytes))) ?_
  apply List.ext_getElem
  · simp
    omega
  · intro k hk hk'
    simp at hk'
    simp [zeta, List.getElem?_eq_getElem
      (show i.instructionCounter.toNat + (n.toNat + k) < i.code.length by omega), Nat.add_assoc]

theorem codeSigned_eq (h : i.Fetches) (hn : n.toNat ≤ 16) (hl : length.toNat ≤ 4)
    (hle : i.instructionCounter.toNat + n.toNat + length.toNat ≤ i.code.length) :
    i.codeSigned n length = .ret (i.signed n.toNat length.toNat) := by
  have hlt : i.number n.toNat length.toNat < 256 ^ length.toNat := by
    simpa [number] using leNat_lt ((List.range length.toNat).map fun k => i.zeta (n.toNat + k))
  rw [codeSigned, h.codeValue_eq hn (by omega) hle, ret_bind, pure_eq, sext_eq hl hlt]
  rfl

end Fetches

theorem restLength_toNat (skip n : UInt64) :
    (restLength skip n).toNat = min 4 (skip.toNat - n.toNat) := by
  unfold restLength
  split
  · next h =>
    rw [lt_iff_toNat_lt] at h
    simp
    omega
  · next h =>
    rw [UInt64.toNat_min, UInt64.toNat_sub_of_le _ _ (UInt64.not_lt.mp h)]
    rfl

theorem firstLength_toNat (b : UInt8) : (min 4 b).toUInt64.toNat = min 4 b.toNat := by
  rw [UInt8.toNat_toUInt64, UInt8.toNat_min]
  rfl

variable {n length : UInt64} {ins : Instruction} {m : Nat}

theorem Fetches.ite_codeEndsBefore {α : Type} (h : i.Fetches) (hn : n.toNat ≤ 32) (a b : α) :
    (if i.codeEndsBefore n then a else b) = if i.Covers n.toNat then b else a := by
  by_cases hc : i.Covers n.toNat
  · rw [if_pos hc, if_neg]
    rw [h.codeEndsBefore_iff hn]
    exact Nat.not_lt.mpr hc
  · rw [if_neg hc, if_pos]
    rw [h.codeEndsBefore_iff hn]
    exact Nat.not_le.mp hc

theorem checked_eq {n : Nat} {x : Outcome (Except Err Instruction)}
    (hx : i.Covers n → x = .ret (.ok ins)) :
    (if i.Covers n then x else outOfBound) = i.checked (n, ins) := by
  unfold checked
  split
  · next hc => exact hx hc
  · rfl

theorem Fetches.codeByte_of_covers (h : i.Fetches) (hn : n.toNat < m)
    (hm : m ≤ 32) (hc : i.Covers m) : i.codeByte n = .ret (i.zeta n.toNat) := by
  have hle : i.instructionCounter.toNat + m ≤ i.code.length := hc
  rw [h.codeByte_eq (by omega), if_pos (by omega)]

theorem Fetches.codeByte_one (h : i.Fetches) (hm : 1 < m) (hm' : m ≤ 32)
    (hc : i.Covers m) : i.codeByte 1 = .ret (i.zeta 1) := h.codeByte_of_covers hm hm' hc

theorem Fetches.codeByte_two (h : i.Fetches) (hm : 2 < m) (hm' : m ≤ 32)
    (hc : i.Covers m) : i.codeByte 2 = .ret (i.zeta 2) := h.codeByte_of_covers hm hm' hc

theorem Fetches.codeSigned_of_covers (h : i.Fetches)
    (hn : n.toNat ≤ 16) (hl : length.toNat ≤ 4) (hm : n.toNat + length.toNat ≤ m)
    (hc : i.Covers m) : i.codeSigned n length = .ret (i.signed n.toNat length.toNat) := by
  have hle : i.instructionCounter.toNat + m ≤ i.code.length := hc
  exact h.codeSigned_eq hn hl (by omega)

theorem Fetches.codeValue_of_covers (h : i.Fetches)
    (hn : n.toNat ≤ 16) (hl : length.toNat ≤ 8) (hm : n.toNat + length.toNat ≤ m)
    (hc : i.Covers m) : i.codeValue n length = .ret (i.unsigned n.toNat length.toNat) := by
  have hle : i.instructionCounter.toNat + m ≤ i.code.length := hc
  exact h.codeValue_eq hn hl (by omega)

theorem Fetches.decodeRegValue_eq (h : i.Fetches) (skip : UInt64)
    (k : UInt8 → UInt64 → Instruction) :
    i.decodeRegValue skip (fun b x => .ret (.ok (k b x))) =
      i.checked (i.regValue skip.toNat (k (i.zeta 1))) := by
  have hl : (restLength skip 1).toNat = min 4 (skip.toNat - 1) := restLength_toNat skip 1
  have hsum : (2 + restLength skip 1).toNat = 2 + min 4 (skip.toNat - 1) := by
    rw [toNat_add_of_lt (by rw [hl]; simp; omega), hl]
    rfl
  rw [decodeRegValue, h.ite_codeEndsBefore (by omega), hsum]
  refine checked_eq fun hc => ?_
  rw [h.codeByte_one (by omega) (by omega) hc, ret_bind,
    h.codeSigned_of_covers (n := 2) (by decide) (by omega) (by simp [hl]) hc, ret_bind, hl]
  rfl

theorem Fetches.readTwo_eq (h : i.Fetches) {lenX lenY : UInt64} {readX : Outcome UInt64}
    {x : UInt64} (hn : n.toNat ≤ 8) (hX : lenX.toNat ≤ 4) (hY : lenY.toNat ≤ 4)
    (hx : i.Covers (n.toNat + lenX.toNat + lenY.toNat) → readX = .ret x)
    (k : UInt64 → UInt64 → Instruction) :
    (if i.codeEndsBefore (n + lenX + lenY) then outOfBound
      else do
        let valueX ← readX
        let valueY ← i.codeSigned (n + lenX) lenY
        return .ok (k valueX valueY)) =
      i.checked (n.toNat + lenX.toNat + lenY.toNat,
        k x (i.signed (n.toNat + lenX.toNat) lenY.toNat)) := by
  have hsum : (n + lenX).toNat = n.toNat + lenX.toNat := toNat_add_of_lt (by omega)
  have hsum' : (n + lenX + lenY).toNat = n.toNat + lenX.toNat + lenY.toNat := by
    rw [toNat_add_of_lt (by omega), hsum]
  rw [h.ite_codeEndsBefore (by omega), hsum']
  refine checked_eq fun hc => ?_
  rw [hx hc, ret_bind, h.codeSigned_of_covers (by omega) hY (by omega) hc, ret_bind, hsum]
  rfl

theorem Covers.mono {n : Nat} (hc : i.Covers n) (h : m ≤ n) : i.Covers m :=
  (Nat.add_le_add_left h _).trans hc

theorem Fetches.decodeTwoValues_eq (h : i.Fetches) (skip : UInt64) (lenX : UInt8 → UInt8)
    (k : UInt8 → UInt64 → UInt64 → Instruction) :
    i.decodeTwoValues skip lenX (fun b x y => .ret (.ok (k b x y))) =
      i.checked (i.twoValues skip.toNat (lenX (i.zeta 1)) (k (i.zeta 1))) := by
  rw [decodeTwoValues, h.ite_codeEndsBefore (by decide)]
  split
  · next hc =>
    have hX := firstLength_toNat (lenX (i.zeta 1))
    have hY := restLength_toNat skip ((min 4 (lenX (i.zeta 1))).toUInt64 + 1)
    rw [toNat_add_of_lt (by rw [hX]; simp; omega), hX] at hY
    rw [h.codeByte_one (by decide) (by decide) hc, ret_bind]
    refine (h.readTwo_eq (by decide) (by omega) (by omega) (fun hc' =>
      h.codeSigned_of_covers (by decide) (by omega) (by omega) hc') (k (i.zeta 1))).trans ?_
    rw [hX, hY]
    rfl
  · next hc =>
    rw [checked, if_neg]
    exact fun hc' => hc (hc'.mono (by simp [twoValues]; omega))

theorem Fetches.decode_reg2Imm2 (h : i.Fetches) (skip : UInt64) (op : Reg2Imm2Op) :
    i.decode skip (.reg2Imm2 op) = i.checked (i.operands i.unsigned skip.toNat (.reg2Imm2 op)) := by
  rw [decode, h.ite_codeEndsBefore (by decide)]
  split
  · next hc =>
    have hX := firstLength_toNat (i.zeta 2 % 8)
    have hY := restLength_toNat skip ((min 4 (i.zeta 2 % 8)).toUInt64 + 2)
    rw [toNat_add_of_lt (by rw [hX]; simp; omega), hX] at hY
    rw [h.codeByte_one (by decide) (by decide) hc, ret_bind,
      h.codeByte_two (by decide) (by decide) hc, ret_bind]
    refine (h.readTwo_eq (by decide) (by omega) (by omega) (fun hc' =>
      h.codeValue_of_covers (by decide) (by omega) (by omega) hc')
      (.reg2Imm2 op (regOf (i.zeta 1 % 16)) (regOf (i.zeta 1 / 16)))).trans ?_
    rw [hX, hY]
    rfl
  · next hc =>
    rw [checked, if_neg]
    exact fun hc' => hc (hc'.mono (by simp [operands]; omega))

theorem Fetches.decode_eq (h : i.Fetches) (skip : UInt64) (op : Opcode)
    (hreg : ∀ o, op ≠ .regReg o) (hreg3 : ∀ o, op ≠ .reg3 o) :
    i.decode skip op = i.checked (i.operands i.unsigned skip.toNat op) := by
  have hmin : (min 4 skip).toNat = min 4 skip.toNat := UInt64.toNat_min 4 skip
  have hsum : (1 + min 4 skip).toNat = 1 + min 4 skip.toNat := by
    rw [toNat_add_of_lt (by rw [hmin]; simp; omega), hmin]
    rfl
  cases op with
  | none op => exact (if_pos (Nat.succ_le_of_lt h.counter)).symm
  | imm op | offset op =>
    rw [decode, h.ite_codeEndsBefore (by omega), hsum]
    refine checked_eq fun hc => ?_
    rw [h.codeSigned_of_covers (n := 1) (by decide) (by omega) (by simp [hmin]) hc, ret_bind, hmin]
    rfl
  | regImmExt op =>
    rw [decode, h.ite_codeEndsBefore (by decide)]
    refine checked_eq fun hc => ?_
    have hvalue : i.codeValue 2 8 = .ret (i.unsigned 2 8) :=
      h.codeValue_of_covers (by decide) (by decide) (by decide) hc
    rw [h.codeByte_one (by decide) (by decide) hc, ret_bind, hvalue, ret_bind]
    rfl
  | regImm op | reg2Imm op | reg2Offset op => exact h.decodeRegValue_eq skip _
  | imm2 op | regImm2 op | regImmOffset op => exact h.decodeTwoValues_eq skip _ _
  | regReg op => exact absurd rfl (hreg op)
  | reg2Imm2 op => exact h.decode_reg2Imm2 skip op
  | reg3 op => exact absurd rfl (hreg3 op)

theorem Fetches.decode_regReg (h : i.Fetches) (skip : UInt64) (op : RegRegOp) :
    i.decode skip (.regReg op) = if i.Covers 2
      then .ret (.ok (i.operands i.unsigned skip.toNat (.regReg op)).2)
      else .crash .indexOutOfRange := by
  have hone : i.Covers (UInt64.toNat 1) := Nat.succ_le_of_lt h.counter
  rw [decode, h.ite_codeEndsBefore (by decide), if_pos hone, h.codeByte_eq (by decide)]
  by_cases hc : i.Covers 2
  · rw [if_pos (show _ < _ from hc), if_pos hc]
    rfl
  · rw [if_neg (show ¬ _ < _ from hc), if_neg hc]
    rfl

theorem Fetches.decode_reg3 (h : i.Fetches) (skip : UInt64) (op : Reg3Op) :
    i.decode skip (.reg3 op) = if i.Covers 2
      then if i.Covers 3
        then .ret (.ok (i.operands i.unsigned skip.toNat (.reg3 op)).2)
        else .crash .indexOutOfRange
      else outOfBound := by
  rw [decode, h.ite_codeEndsBefore (by decide)]
  by_cases hc : i.Covers 2
  · rw [if_pos (show i.Covers (UInt64.toNat 2) from hc), if_pos hc,
      h.codeByte_one (by decide) (by decide) hc, ret_bind, h.codeByte_eq (by decide)]
    by_cases hc' : i.Covers 3
    · rw [if_pos (show _ < _ from hc'), if_pos hc']
      rfl
    · rw [if_neg (show ¬ _ < _ from hc'), if_neg hc']
      rfl
  · rw [if_neg (show ¬ i.Covers (UInt64.toNat 2) from hc), if_neg hc]

theorem checked_ok_iff {p : Nat × Instruction} :
    i.checked p = .ret (.ok ins) ↔ i.Covers p.1 ∧ ins = p.2 := by
  unfold checked
  split
  · next hc => simp [hc, eq_comm]
  · next hc => simp [hc, outOfBound]

theorem Fetches.decode_ok_iff (h : i.Fetches) {skip : UInt64} {op : Opcode} :
    i.decode skip op = .ret (.ok ins) ↔ i.Covers (i.operands i.unsigned skip.toNat op).1 ∧
        ins = (i.operands i.unsigned skip.toNat op).2 := by
  cases op with
  | regReg op =>
    rw [h.decode_regReg]
    by_cases hc : i.Covers 2
    · simp [hc, operands, eq_comm]
    · simp [hc, operands]
  | reg3 op =>
    rw [h.decode_reg3]
    by_cases hc : i.Covers 3
    · simp [hc, hc.mono (m := 2) (by decide), operands, eq_comm]
    · by_cases hc' : i.Covers 2 <;> simp [hc, hc', operands, outOfBound]
  | _ => rw [h.decode_eq _ _ (by simp) (by simp), checked_ok_iff]

theorem operands_length (first : Nat → Nat → UInt64) (skip : Nat) (op : Opcode) :
    (i.operands first skip op).1 = (i.operands i.signed skip op).1 := by
  cases op <;> rfl

/-- When the operands are those that the code holds. -/
theorem operands_right_iff (h : i.Fetches) (skip : UInt64) (op : Opcode) :
    ((∃ ins, i.decode skip op = .ret (.ok ins)) ↔ i.Covers (i.operands i.signed skip.toNat op).1) ∧
      ∀ ins, i.decode skip op = .ret (.ok ins) →
        (ins = (i.operands i.signed skip.toNat op).2 ↔ ∀ o, op = .reg2Imm2 o →
          i.unsigned 3 (min 4 (i.zeta 2 % 8).toNat) = i.signed 3 (min 4 (i.zeta 2 % 8).toNat)) := by
  refine ⟨?_, ?_⟩
  · simp only [h.decode_ok_iff, operands_length i.unsigned, exists_and_left, exists_eq, and_true]
  · intro ins hins
    rw [(h.decode_ok_iff.mp hins).2]
    cases op with
    | reg2Imm2 op =>
      refine ⟨fun heq _ _ => ?_, fun hall => ?_⟩
      · injection heq
      · simp only [operands, hall op rfl]
    | _ => exact ⟨fun _ _ ho => by simp at ho, fun _ => rfl⟩

def loadMinusOne : Instance := bare 1 [180, 0, 1, 0xFF, 0] [true, false, false, false, true]

theorem operands_of_loadMinusOne :
    loadMinusOne.Fetches ∧ ((∃ ins, loadMinusOne.decode 3 (.reg2Imm2 .loadImmAndJumpIndirect) =
      .ret (.ok ins)) ↔ loadMinusOne.Covers
        (loadMinusOne.operands loadMinusOne.signed 3 (.reg2Imm2 .loadImmAndJumpIndirect)).1) :=
  have h : loadMinusOne.Fetches := ⟨by decide, by decide⟩
  ⟨h, (operands_right_iff h 3 (.reg2Imm2 .loadImmAndJumpIndirect)).1⟩

theorem minus_one_loaded_as_255 : loadMinusOne.decode 3 (.reg2Imm2 .loadImmAndJumpIndirect) =
        .ret (.ok (.reg2Imm2 .loadImmAndJumpIndirect 0 0 255 0)) ∧
      (loadMinusOne.operands loadMinusOne.signed 3 (.reg2Imm2 .loadImmAndJumpIndirect)).2 =
        .reg2Imm2 .loadImmAndJumpIndirect 0 0 0xFFFFFFFFFFFFFFFF 0 := by
  decide

end Instance
end Strawberry.Interpreter
