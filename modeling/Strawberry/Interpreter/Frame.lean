import Strawberry.Interpreter.Step

/-!
# What one step can change

`step_cases` says what a step is; the facts about runs are derived from it.
-/

namespace Strawberry.Interpreter

open Polkavm Jam

inductive Effect where
  | quiet
  | touches (address : UInt64) (length : Nat)
  | jumps (target : UInt64)

def Effect.taken (condition : Bool) (target : UInt64) : Effect :=
  if condition then .jumps target else .quiet

def Instruction.effect (i : Instance) : Instruction → Effect
  | .imm2 .storeImmU8 valueX _ => .touches valueX 1
  | .imm2 .storeImmU16 valueX _ => .touches valueX 2
  | .imm2 .storeImmU32 valueX _ => .touches valueX 4
  | .imm2 .storeImmU64 valueX _ => .touches valueX 8
  | .offset .jump valueX => .jumps valueX
  | .regImm .loadU8 _ valueX | .regImm .loadI8 _ valueX | .regImm .storeU8 _ valueX =>
    .touches valueX 1
  | .regImm .loadU16 _ valueX | .regImm .loadI16 _ valueX | .regImm .storeU16 _ valueX =>
    .touches valueX 2
  | .regImm .loadU32 _ valueX | .regImm .loadI32 _ valueX | .regImm .storeU32 _ valueX =>
    .touches valueX 4
  | .regImm .loadU64 _ valueX | .regImm .storeU64 _ valueX => .touches valueX 8
  | .regImm2 .storeImmIndirectU8 regA valueX _ => .touches (i.reg regA + valueX) 1
  | .regImm2 .storeImmIndirectU16 regA valueX _ => .touches (i.reg regA + valueX) 2
  | .regImm2 .storeImmIndirectU32 regA valueX _ => .touches (i.reg regA + valueX) 4
  | .regImm2 .storeImmIndirectU64 regA valueX _ => .touches (i.reg regA + valueX) 8
  | .reg2Imm .loadIndirectU8 _ regB valueX | .reg2Imm .loadIndirectI8 _ regB valueX
  | .reg2Imm .storeIndirectU8 _ regB valueX => .touches (i.reg regB + valueX) 1
  | .reg2Imm .loadIndirectU16 _ regB valueX | .reg2Imm .loadIndirectI16 _ regB valueX
  | .reg2Imm .storeIndirectU16 _ regB valueX => .touches (i.reg regB + valueX) 2
  | .reg2Imm .loadIndirectU32 _ regB valueX | .reg2Imm .loadIndirectI32 _ regB valueX
  | .reg2Imm .storeIndirectU32 _ regB valueX => .touches (i.reg regB + valueX) 4
  | .reg2Imm .loadIndirectU64 _ regB valueX | .reg2Imm .storeIndirectU64 _ regB valueX =>
    .touches (i.reg regB + valueX) 8
  | .regImmOffset .loadImmAndJump _ _ target => .jumps target
  | .regImmOffset .branchEqImm regA valueX target => .taken (i.reg regA == valueX) target
  | .regImmOffset .branchNotEqImm regA valueX target => .taken (i.reg regA != valueX) target
  | .regImmOffset .branchLessUnsignedImm regA valueX target => .taken (i.reg regA < valueX) target
  | .regImmOffset .branchLessOrEqualUnsignedImm regA valueX target =>
    .taken (i.reg regA ≤ valueX) target
  | .regImmOffset .branchGreaterOrEqualUnsignedImm regA valueX target =>
    .taken (valueX ≤ i.reg regA) target
  | .regImmOffset .branchGreaterUnsignedImm regA valueX target =>
    .taken (valueX < i.reg regA) target
  | .regImmOffset .branchLessSignedImm regA valueX target =>
    .taken (i.sreg regA < valueX.toInt64) target
  | .regImmOffset .branchLessOrEqualSignedImm regA valueX target =>
    .taken (i.sreg regA ≤ valueX.toInt64) target
  | .regImmOffset .branchGreaterOrEqualSignedImm regA valueX target =>
    .taken (valueX.toInt64 ≤ i.sreg regA) target
  | .regImmOffset .branchGreaterSignedImm regA valueX target =>
    .taken (valueX.toInt64 < i.sreg regA) target
  | .reg2Offset .branchEq regA regB target => .taken (i.reg regA == i.reg regB) target
  | .reg2Offset .branchNotEq regA regB target => .taken (i.reg regA != i.reg regB) target
  | .reg2Offset .branchLessUnsigned regA regB target => .taken (i.reg regA < i.reg regB) target
  | .reg2Offset .branchLessSigned regA regB target => .taken (i.sreg regA < i.sreg regB) target
  | .reg2Offset .branchGreaterOrEqualUnsigned regA regB target =>
    .taken (i.reg regB ≤ i.reg regA) target
  | .reg2Offset .branchGreaterOrEqualSigned regA regB target =>
    .taken (i.sreg regB ≤ i.sreg regA) target
  | _ => .quiet

namespace Instance

structure Kept (i j : Instance) : Prop where
  code : j.code = i.code
  jumpTable : j.jumpTable = i.jumpTable
  bitmask : j.bitmask = i.bitmask
  basicBlockInstructions : j.basicBlockInstructions = i.basicBlockInstructions
  gasRemaining : j.gasRemaining = i.gasRemaining
  memory : i.memory.Sized → j.memory.Sized

namespace Kept

variable {i j k : Instance}

theorem refl (i : Instance) : Kept i i := ⟨rfl, rfl, rfl, rfl, rfl, id⟩

theorem trans (h₁ : Kept i j) (h₂ : Kept j k) : Kept i k :=
  ⟨h₂.code.trans h₁.code, h₂.jumpTable.trans h₁.jumpTable, h₂.bitmask.trans h₁.bitmask,
    h₂.basicBlockInstructions.trans h₁.basicBlockInstructions,
    h₂.gasRemaining.trans h₁.gasRemaining, fun h => h₂.memory (h₁.memory h)⟩

theorem setReg (i : Instance) (r : Reg) (v : UInt64) : Kept i (i.setReg r v) :=
  ⟨rfl, rfl, rfl, rfl, rfl, id⟩

theorem setCounter (i : Instance) (c : UInt64) : Kept i { i with instructionCounter := c } :=
  ⟨rfl, rfl, rfl, rfl, rfl, id⟩

end Kept

structure KeptExit (i : Instance) (r : Instance × Option Err) : Prop where
  kept : Kept i r.1
  exit : ∀ e, r.2 = some e → e.IsExit

namespace KeptExit

variable {i j : Instance}

theorem ok (h : Kept i j) : KeptExit i (j, none) := ⟨h, by simp⟩

theorem error {e : Err} (he : e.IsExit) : KeptExit i (i, some e) :=
  ⟨.refl i, by rintro _ ⟨⟩; exact he⟩

theorem trans {r : Instance × Option Err} (h₁ : Kept i j) (h₂ : KeptExit j r) : KeptExit i r :=
  ⟨h₁.trans h₂.kept, h₂.exit⟩

end KeptExit

theorem skip_total (i : Instance) : i.skip.Total (Kept i) := by
  rw [skip, total_bind]
  refine Polkavm.skip_total.mono ?_
  intro s _
  simpa using Kept.setCounter i _

theorem done_total (i : Instance) : i.done.Total (KeptExit i) := by
  rw [done, total_bind]
  refine i.skip_total.mono ?_
  intro j hj
  simpa using KeptExit.ok hj

variable {i i' : Instance}

theorem done_total_of_kept {j : Instance} (h : Kept i j) : j.done.Total (KeptExit i) :=
  (done_total j).mono fun _ => .trans h

theorem setAndSkip_total (i : Instance) (dst : Reg) (v : UInt64) :
    (i.setAndSkip dst v).Total (KeptExit i) :=
  done_total_of_kept (.setReg i dst v)

theorem load_total (i : Instance) (dst : Reg) (address length : UInt64) (value : Nat → UInt64) :
    (i.load dst address length value).Total (KeptExit i) := by
  unfold load
  rw [total_bind]
  refine (i.memory.read_total address length).mono ?_
  intro res hres
  cases res with
  | error e => simpa using KeptExit.error (hres e rfl)
  | ok bytes => exact setAndSkip_total i dst _

theorem store_total (i : Instance) (address : UInt64) (length value : Nat) (hl : length ≤ 8) :
    (i.store address length value).Total (KeptExit i) := by
  unfold store
  rw [total_bind]
  refine (i.memory.write_total address (by rw [length_toLE]; omega)).mono ?_
  rintro res ⟨herr, hok⟩
  cases res with
  | error e => simpa using KeptExit.error (herr e rfl)
  | ok m' => exact done_total_of_kept ⟨rfl, rfl, rfl, rfl, rfl, fun hm => hok hm m' rfl⟩

theorem branch_total (i : Instance) (condition : Bool) (target : UInt64) :
    (i.branch condition target).Total (KeptExit i) := by
  unfold branch
  split
  · split
    · simpa using KeptExit.ok (.setCounter i target)
    · rw [total_bind]
      refine indexAt_total.mono ?_
      intro opcode _
      simpa using KeptExit.error (by simp)
  · exact done_total i

theorem djump_total (i : Instance) (address : UInt64) : (i.djump address).Total (KeptExit i) := by
  unfold djump
  simp only
  split
  · simpa using KeptExit.error (by simp)
  · split
    · simpa using KeptExit.error (by simp)
    · rw [total_bind]
      refine indexAt_total.mono ?_
      intro offset _
      split
      · simpa using KeptExit.ok (.setCounter i offset)
      · simpa using KeptExit.error (by simp)

theorem sbrk_total (i : Instance) (dst sizeReg : Reg) : (i.sbrk dst sizeReg).Total (KeptExit i) := by
  unfold sbrk
  rw [total_bind]
  refine (i.memory.sbrk_total (i.reg sizeReg)).mono ?_
  rintro res ⟨herr, hok⟩
  cases res with
  | error e => simpa using KeptExit.error (herr e rfl)
  | ok r =>
    exact done_total_of_kept ⟨rfl, rfl, rfl, rfl, rfl, fun hm => hok hm r.1 r.2 rfl⟩

theorem loadImmAndJump_total (i : Instance) (ra : Reg) (value target : UInt64) :
    (i.loadImmAndJump ra value target).Total (KeptExit i) := by
  unfold loadImmAndJump
  rw [total_bind]
  refine (setAndSkip_total i ra value).mono ?_
  intro r hr
  exact (branch_total r.1 true target).mono fun _ => .trans hr.kept

theorem loadImmAndJumpIndirect_total (i : Instance) (ra base : Reg) (value offset : UInt64) :
    (i.loadImmAndJumpIndirect ra base value offset).Total (KeptExit i) :=
  (djump_total _ _).mono fun _ => .trans (.setReg i ra value)

inductive Shape (i : Instance) : Exec → Effect → Prop where
  | exit {e : Err} (he : e.IsExit) : Shape i (.ret (i, some e)) .quiet
  | stay : Shape i i.done .quiet
  | set (dst : Reg) (v : UInt64) : Shape i (i.setAndSkip dst v) .quiet
  | load (dst : Reg) (address length : UInt64) (value : Nat → UInt64) (hl : length.toNat ≤ 8) :
    Shape i (i.load dst address length value) (.touches address length.toNat)
  | store (address : UInt64) (length value : Nat) (hl : length ≤ 8) :
    Shape i (i.store address length value) (.touches address length)
  | branch (condition : Bool) (target : UInt64) :
    Shape i (i.branch condition target) (.taken condition target)
  | loadImmAndJump (ra : Reg) (value target : UInt64) :
    Shape i (i.loadImmAndJump ra value target) (.jumps target)
  | djump (address : UInt64) : Shape i (i.djump address) .quiet
  | loadImmAndJumpIndirect (ra base : Reg) (value offset : UInt64) :
    Shape i (i.loadImmAndJumpIndirect ra base value offset) .quiet
  | sbrk (dst sizeReg : Reg) : Shape i (i.sbrk dst sizeReg) .quiet

section

variable (i : Instance)

theorem Shape.cmov (c : Prop) [Decidable c] (dst : Reg) (v : UInt64) :
    Shape i (if c then i.setReg dst v else i).done .quiet := by
  split
  · exact .set dst v
  · exact .stay

-- Derives the equations of the two large matches once, for all the lemmas below.
attribute [local simp] exec Instruction.effect

theorem exec_reg3_shape (op : Reg3Op) (d a b : Reg) : Shape i (i.exec (.reg3 op d a b)) .quiet := by
  cases op <;> simp only [exec]
  case divUnsigned32 | remUnsigned32 | divUnsigned64 | remUnsigned64 =>
    simp only [divUnsigned32, remUnsigned32, divUnsigned64, remUnsigned64]
    split <;> exact .set d _
  case divSigned32 | remSigned32 | divSigned64 | remSigned64 =>
    simp only [divSigned32, remSigned32, divSigned64, remSigned64]
    split_ifs <;> exact .set d _
  case cmovIfZero | cmovIfNotZero => exact .cmov i _ d _
  all_goals exact .set d _

theorem exec_reg2Imm_shape (op : Reg2ImmOp) (a b : Reg) (x : UInt64) :
    Shape i (i.exec (.reg2Imm op a b x)) ((Instruction.reg2Imm op a b x).effect i) := by
  cases op <;> simp only [exec, Instruction.effect]
  case cmovIfZeroImm | cmovIfNotZeroImm => exact .cmov i _ a _
  case storeIndirectU8 | storeIndirectU16 | storeIndirectU32 | storeIndirectU64 =>
    exact .store _ _ _ (by decide)
  case loadIndirectU8 | loadIndirectI8 | loadIndirectU16 | loadIndirectI16 | loadIndirectU32 |
      loadIndirectI32 | loadIndirectU64 => exact .load a _ _ _ (by decide)
  all_goals exact .set a _

theorem exec_regImm_shape (op : RegImmOp) (a : Reg) (x : UInt64) :
    Shape i (i.exec (.regImm op a x)) ((Instruction.regImm op a x).effect i) := by
  cases op <;> simp only [exec, Instruction.effect]
  case jumpIndirect => exact .djump _
  case loadImm => exact .set a _
  case storeU8 | storeU16 | storeU32 | storeU64 => exact .store _ _ _ (by decide)
  all_goals exact .load a _ _ _ (by decide)

theorem exec_regReg_shape (op : RegRegOp) (d a : Reg) :
    Shape i (i.exec (.regReg op d a)) .quiet := by
  cases op <;> simp only [exec]
  case sbrk => exact .sbrk d a
  all_goals exact .set d _

theorem exec_regImmOffset_shape (op : RegImmOffsetOp) (a : Reg) (x y : UInt64) :
    Shape i (i.exec (.regImmOffset op a x y)) ((Instruction.regImmOffset op a x y).effect i) := by
  cases op <;> simp only [exec, Instruction.effect]
  case loadImmAndJump => exact .loadImmAndJump a x y
  all_goals exact .branch _ y

theorem exec_shape (ins : Instruction) : Shape i (i.exec ins) (ins.effect i) := by
  cases ins with
  | none op =>
    cases op with
    | trap => exact .exit (by simp)
    | fallthrough => exact .stay
  | imm op x =>
    exact .exit (by simp)
  | regImmExt op a x =>
    exact .set a _
  | imm2 op x y =>
    cases op <;> simp only [exec, Instruction.effect] <;> exact .store _ _ _ (by decide)
  | offset op x =>
    exact .branch true x
  | regImm op a x => exact exec_regImm_shape i op a x
  | regImm2 op a x y =>
    cases op <;> simp only [exec, Instruction.effect] <;> exact .store _ _ _ (by decide)
  | regImmOffset op a x y => exact exec_regImmOffset_shape i op a x y
  | regReg op d a => exact exec_regReg_shape i op d a
  | reg2Imm op a b x => exact exec_reg2Imm_shape i op a b x
  | reg2Offset op a b x =>
    cases op <;> simp only [exec, Instruction.effect] <;> exact .branch _ x
  | reg2Imm2 op a b x y =>
    exact .loadImmAndJumpIndirect a b x y
  | reg3 op d a b => exact exec_reg3_shape i op d a b

end

theorem Shape.total {x : Exec} {effect : Effect} (h : Shape i x effect) :
    x.Total (KeptExit i) := by
  cases h with
  | exit he => simpa using KeptExit.error he
  | stay => exact done_total i
  | set dst v => exact setAndSkip_total i dst v
  | load dst address length value _ => exact load_total i dst address length value
  | store address length value hl => exact store_total i address length value hl
  | branch condition target => exact branch_total i condition target
  | loadImmAndJump ra value target => exact loadImmAndJump_total i ra value target
  | djump address => exact djump_total i address
  | loadImmAndJumpIndirect ra base value offset =>
    exact loadImmAndJumpIndirect_total i ra base value offset
  | sbrk dst sizeReg => exact sbrk_total i dst sizeReg

theorem exec_total (i : Instance) (ins : Instruction) : (i.exec ins).Total (KeptExit i) :=
  (exec_shape i ins).total

section

variable {i : Instance} {skip : UInt64}

def DecodeExit (r : Except Err Instruction) : Prop := ∀ e, r = .error e → e.IsExit

variable {n : UInt64}

theorem codeByte_total : (i.codeByte n).Total fun _ => True := indexAt_total

theorem codeValue_total {length : UInt64} : (i.codeValue n length).Total fun _ => True := by
  rw [codeValue, total_bind]
  refine sliceOf_total.mono ?_
  simp

theorem codeSigned_total {length : UInt64} : (i.codeSigned n length).Total fun _ => True := by
  rw [codeSigned, total_bind]
  refine codeValue_total.mono ?_
  simp

theorem outOfBound_total : outOfBound.Total DecodeExit := by
  simp [outOfBound, DecodeExit]

theorem decoded_total (ins : Instruction) :
    (Outcome.ret (Except.ok ins) : Outcome (Except Err Instruction)).Total DecodeExit := by
  simp [DecodeExit]

theorem decodeRegValue_total {k : UInt8 → UInt64 → Outcome (Except Err Instruction)}
    (hk : ∀ b x, (k b x).Total DecodeExit) : (i.decodeRegValue skip k).Total DecodeExit := by
  unfold decodeRegValue
  simp only
  split
  · exact outOfBound_total
  · simp only [total_bind]
    exact codeByte_total.mono fun b _ => codeSigned_total.mono fun x _ => hk b x

theorem decodeTwoValues_total {lenX : UInt8 → UInt8}
    {k : UInt8 → UInt64 → UInt64 → Outcome (Except Err Instruction)}
    (hk : ∀ b x y, (k b x y).Total DecodeExit) :
    (i.decodeTwoValues skip lenX k).Total DecodeExit := by
  unfold decodeTwoValues
  split
  · exact outOfBound_total
  · rw [total_bind]
    refine codeByte_total.mono fun b _ => ?_
    dsimp only
    split
    · exact outOfBound_total
    · simp only [total_bind]
      exact codeSigned_total.mono fun x _ => codeSigned_total.mono fun y _ => hk b x y

theorem decode_total (op : Opcode) : (i.decode skip op).Total DecodeExit := by
  cases op with
  | none op => exact decoded_total _
  | imm op | offset op =>
    simp only [decode]
    split
    · exact outOfBound_total
    · rw [total_bind]
      exact codeSigned_total.mono fun _ _ => decoded_total _
  | regReg op =>
    simp only [decode]
    split
    · exact outOfBound_total
    · rw [total_bind]
      exact codeByte_total.mono fun _ _ => decoded_total _
  | regImmExt op =>
    simp only [decode]
    split
    · exact outOfBound_total
    · simp only [total_bind]
      exact codeByte_total.mono fun _ _ => codeValue_total.mono fun _ _ => decoded_total _
  | reg3 op =>
    simp only [decode]
    split
    · exact outOfBound_total
    · simp only [total_bind]
      exact codeByte_total.mono fun _ _ => codeByte_total.mono fun _ _ => decoded_total _
  | regImm op | reg2Imm op | reg2Offset op => exact decodeRegValue_total fun _ _ => decoded_total _
  | imm2 op | regImm2 op | regImmOffset op =>
    exact decodeTwoValues_total fun _ _ _ => decoded_total _
  | reg2Imm2 op =>
    simp only [decode]
    split
    · exact outOfBound_total
    · simp only [total_bind]
      refine codeByte_total.mono fun _ _ => codeByte_total.mono fun _ _ => ?_
      split
      · exact outOfBound_total
      · simp only [total_bind]
        exact codeValue_total.mono fun _ _ => codeSigned_total.mono fun _ _ => decoded_total _

end

def Charged (i j : Instance) : Prop :=
  1 ≤ i.gasRemaining.toInt ∧ j.gasRemaining.toInt = i.gasRemaining.toInt - 1

structure Stepped (i j : Instance) (e : Option Err) : Prop where
  code : j.code = i.code
  jumpTable : j.jumpTable = i.jumpTable
  bitmask : j.bitmask = i.bitmask
  basicBlockInstructions : j.basicBlockInstructions = i.basicBlockInstructions
  memory : i.memory.Sized → j.memory.Sized
  exit : ∀ e', e = some e' → e'.IsExit
  /-- Only the two exits before the instruction proper leave the gas counter as it was. -/
  gas : Charged i j ∨ j.gasRemaining = i.gasRemaining ∧
    (e = some .outOfGas ∨ ∃ b, e = some (.panic (.unexpectedOpcode b)))

theorem deductGas_error {cost : Gas} {e : Err} (h : i.deductGas cost = .error e) :
    e = .outOfGas ∧ i.gasRemaining.toInt < cost.toInt := by
  unfold deductGas at h
  split at h
  · next hlt =>
    cases h
    exact ⟨rfl, Int64.lt_iff_toInt_lt.mp hlt⟩
  · cases h

theorem deductGas_ok {cost : Gas} (h : i.deductGas cost = .ok i') :
    i' = { i with gasRemaining := i.gasRemaining - cost } ∧ ¬ i.gasRemaining < cost := by
  unfold deductGas at h
  split at h
  · cases h
  · next hlt =>
    cases h
    exact ⟨rfl, hlt⟩

theorem charged_of_deductGas (h : i.deductGas 1 = .ok i') : Charged i i' := by
  obtain ⟨rfl, hlt⟩ := deductGas_ok h
  rw [Int64.lt_iff_toInt_lt] at hlt
  have hone : (1 : Int64).toInt = 1 := by decide
  have hhi := i.gasRemaining.toInt_lt
  have hle : 1 ≤ i.gasRemaining.toInt := by omega
  refine ⟨hle, ?_⟩
  simp only [Int64.toInt_sub, hone]
  exact Int.bmod_eq_of_le (by omega) (by omega)

theorem stepped_of_charged {r : Instance × Option Err}
    (hi' : i' = { i with gasRemaining := i.gasRemaining - 1 }) (hc : Charged i i')
    (hr : KeptExit i' r) : Stepped i r.1 r.2 := by
  obtain ⟨hk, he⟩ := hr
  subst hi'
  refine ⟨hk.code, hk.jumpTable, hk.bitmask, hk.basicBlockInstructions, hk.memory, he, .inl ?_⟩
  exact ⟨hc.1, by rw [hk.gasRemaining]; exact hc.2⟩

theorem stepped_outOfGas (i : Instance) : Stepped i i (some .outOfGas) :=
  ⟨rfl, rfl, rfl, rfl, id, by simp, .inr ⟨rfl, .inl rfl⟩⟩

theorem step_total (i : Instance) : i.step.Total fun r => Stepped i r.1 r.2 := by
  unfold step
  simp only [total_bind]
  refine Polkavm.skip_total.mono fun skip _ => indexAt_total.mono fun byte _ => ?_
  cases hg : i.deductGas (gasCosts (Opcode.ofByte byte)) with
  | error e =>
    obtain ⟨rfl, -⟩ := deductGas_error hg
    simpa using stepped_outOfGas i
  | ok i' =>
    cases hop : Opcode.ofByte byte with
    | none =>
      obtain ⟨rfl, -⟩ := deductGas_ok hg
      simp only [pure_eq, total_ret, hop, gasCosts]
      exact ⟨rfl, rfl, rfl, rfl, id, by simp, .inr ⟨by simp, .inr ⟨byte, rfl⟩⟩⟩
    | some op =>
      rw [hop] at hg
      have hc := charged_of_deductGas hg
      obtain ⟨hi', -⟩ := deductGas_ok hg
      simp only [total_bind]
      refine (decode_total op).mono ?_
      intro res hres
      cases res with
      | error e => simpa using stepped_of_charged hi' hc (.error (hres e rfl))
      | ok ins => exact (exec_total i' ins).mono fun _ => stepped_of_charged hi' hc

theorem step_post (i : Instance) : i.step.Post fun r => Stepped i r.1 r.2 := (step_total i).2

end Instance

end Strawberry.Interpreter
