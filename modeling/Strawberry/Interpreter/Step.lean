import Strawberry.Interpreter.Mutations

/-!
# One step of the machine

`decode` is what each format does before its inner switch, `exec` is the inner switches.
-/

namespace Strawberry.Interpreter

open Polkavm Jam

inductive Instruction where
  | none (op : NoneOp)
  | imm (op : ImmOp) (valueX : UInt64)
  | regImmExt (op : RegImmExtOp) (regA : Reg) (valueX : UInt64)
  | imm2 (op : Imm2Op) (valueX valueY : UInt64)
  | offset (op : OffsetOp) (valueX : UInt64)
  | regImm (op : RegImmOp) (regA : Reg) (valueX : UInt64)
  | regImm2 (op : RegImm2Op) (regA : Reg) (valueX valueY : UInt64)
  | regImmOffset (op : RegImmOffsetOp) (regA : Reg) (valueX valueY : UInt64)
  | regReg (op : RegRegOp) (regDst regA : Reg)
  | reg2Imm (op : Reg2ImmOp) (regA regB : Reg) (valueX : UInt64)
  | reg2Offset (op : Reg2OffsetOp) (regA regB : Reg) (valueX : UInt64)
  | reg2Imm2 (op : Reg2Imm2Op) (regA regB : Reg) (valueX valueY : UInt64)
  | reg3 (op : Reg3Op) (regDst regA regB : Reg)
  deriving DecidableEq

def regOf (b : UInt8) : Reg := ⟨min 12 b.toNat, by omega⟩

namespace Instance

section

variable (i : Instance)

def codeEndsBefore (n : UInt64) : Bool := UInt64.ofNat i.code.length < i.instructionCounter + n

def codeByte (n : UInt64) : Outcome UInt8 := indexAt i.code (i.instructionCounter + n).toNat

def codeValue (n length : UInt64) : Outcome UInt64 := do
  let bytes ← sliceOf i.code (i.instructionCounter + n).toNat
    (i.instructionCounter + n + length).toNat
  return leUInt64 bytes

def codeSigned (n length : UInt64) : Outcome UInt64 := do
  let value ← i.codeValue n length
  return sext value length.toNat

def outOfBound : Outcome (Except Err Instruction) := .ret (.error (.panic .outOfBoundCode))

def restLength (skip n : UInt64) : UInt64 := if skip < n then 0 else min 4 (skip - n)

def decodeRegValue (skip : UInt64) (k : UInt8 → UInt64 → Outcome (Except Err Instruction)) :
    Outcome (Except Err Instruction) := do
  let lenX := restLength skip 1
  if i.codeEndsBefore (2 + lenX) then outOfBound
  else
    let args ← i.codeByte 1
    let valueX ← i.codeSigned 2 lenX
    k args valueX

def decodeTwoValues (skip : UInt64) (lenX : UInt8 → UInt8)
    (k : UInt8 → UInt64 → UInt64 → Outcome (Except Err Instruction)) :
    Outcome (Except Err Instruction) := do
  if i.codeEndsBefore 2 then outOfBound
  else
    let args ← i.codeByte 1
    let lenX := (min 4 (lenX args)).toUInt64
    let lenY := restLength skip (lenX + 1)
    if i.codeEndsBefore (2 + lenX + lenY) then outOfBound
    else
      let valueX ← i.codeSigned 2 lenX
      let valueY ← i.codeSigned (2 + lenX) lenY
      k args valueX valueY

def decode (skip : UInt64) : Opcode → Outcome (Except Err Instruction)
  | .none op => .ret (.ok (.none op))
  | .imm op => do
    let lenX := min 4 skip
    if i.codeEndsBefore (1 + lenX) then outOfBound
    else
      let valueX ← i.codeSigned 1 lenX
      return .ok (.imm op valueX)
  | .regImmExt op => do
    if i.codeEndsBefore 10 then outOfBound
    else
      let args ← i.codeByte 1
      let valueX ← i.codeValue 2 8
      return .ok (.regImmExt op (regOf (args % 16)) valueX)
  | .imm2 op =>
    i.decodeTwoValues skip (· % 8) fun _ valueX valueY => .ret (.ok (.imm2 op valueX valueY))
  | .offset op => do
    let lenX := min 4 skip
    if i.codeEndsBefore (1 + lenX) then outOfBound
    else
      let valueX ← i.codeSigned 1 lenX
      return .ok (.offset op (i.instructionCounter + valueX))
  | .regImm op =>
    i.decodeRegValue skip fun args valueX => .ret (.ok (.regImm op (regOf (args % 16)) valueX))
  | .regImm2 op =>
    i.decodeTwoValues skip (· / 16 % 8) fun args valueX valueY =>
      .ret (.ok (.regImm2 op (regOf (args % 16)) valueX valueY))
  | .regImmOffset op =>
    i.decodeTwoValues skip (· / 16 % 8) fun args valueX valueY =>
      .ret (.ok (.regImmOffset op (regOf (args % 16)) valueX (i.instructionCounter + valueY)))
  | .regReg op => do
    if i.codeEndsBefore 1 then outOfBound
    else
      let args ← i.codeByte 1
      return .ok (.regReg op (regOf (args % 16)) (regOf (args / 16)))
  | .reg2Imm op =>
    i.decodeRegValue skip fun args valueX =>
      .ret (.ok (.reg2Imm op (regOf (args % 16)) (regOf (args / 16)) valueX))
  | .reg2Offset op =>
    i.decodeRegValue skip fun args valueX =>
      .ret (.ok (.reg2Offset op (regOf (args % 16)) (regOf (args / 16))
        (i.instructionCounter + valueX)))
  | .reg2Imm2 op => do
    if i.codeEndsBefore 3 then outOfBound
    else
      let args ← i.codeByte 1
      let lens ← i.codeByte 2
      let lenX := (min 4 (lens % 8)).toUInt64
      let lenY := restLength skip (lenX + 2)
      if i.codeEndsBefore (3 + lenX + lenY) then outOfBound
      else
        let valueX ← i.codeValue 3 lenX
        let valueY ← i.codeSigned (3 + lenX) lenY
        return .ok (.reg2Imm2 op (regOf (args % 16)) (regOf (args / 16)) valueX valueY)
  | .reg3 op => do
    if i.codeEndsBefore 2 then outOfBound
    else
      let args ← i.codeByte 1
      let dst ← i.codeByte 2
      return .ok (.reg3 op (regOf dst) (regOf (args % 16)) (regOf (args / 16)))

end

def exec (i : Instance) : Instruction → Exec
  | .none .trap => i.trap
  | .none .fallthrough => i.fallthrough
  | .imm .ecalli valueX => .ret (i, some (.hostCall valueX))
  | .regImmExt .loadImm64 regA valueX => i.loadImm64 regA valueX
  | .imm2 .storeImmU8 valueX valueY => i.storeImmU8 valueX valueY
  | .imm2 .storeImmU16 valueX valueY => i.storeImmU16 valueX valueY
  | .imm2 .storeImmU32 valueX valueY => i.storeImmU32 valueX valueY
  | .imm2 .storeImmU64 valueX valueY => i.storeImmU64 valueX valueY
  | .offset .jump valueX => i.jump valueX
  | .regImm .jumpIndirect regA valueX => i.jumpIndirect regA valueX
  | .regImm .loadImm regA valueX => i.loadImm regA valueX
  | .regImm .loadU8 regA valueX => i.loadU8 regA valueX
  | .regImm .loadI8 regA valueX => i.loadI8 regA valueX
  | .regImm .loadU16 regA valueX => i.loadU16 regA valueX
  | .regImm .loadI16 regA valueX => i.loadI16 regA valueX
  | .regImm .loadU32 regA valueX => i.loadU32 regA valueX
  | .regImm .loadI32 regA valueX => i.loadI32 regA valueX
  | .regImm .loadU64 regA valueX => i.loadU64 regA valueX
  | .regImm .storeU8 regA valueX => i.storeU8 regA valueX
  | .regImm .storeU16 regA valueX => i.storeU16 regA valueX
  | .regImm .storeU32 regA valueX => i.storeU32 regA valueX
  | .regImm .storeU64 regA valueX => i.storeU64 regA valueX
  | .regImm2 .storeImmIndirectU8 regA valueX valueY => i.storeImmIndirectU8 regA valueX valueY
  | .regImm2 .storeImmIndirectU16 regA valueX valueY => i.storeImmIndirectU16 regA valueX valueY
  | .regImm2 .storeImmIndirectU32 regA valueX valueY => i.storeImmIndirectU32 regA valueX valueY
  | .regImm2 .storeImmIndirectU64 regA valueX valueY => i.storeImmIndirectU64 regA valueX valueY
  | .regImmOffset .loadImmAndJump regA valueX valueY => i.loadImmAndJump regA valueX valueY
  | .regImmOffset .branchEqImm regA valueX valueY => i.branchEqImm regA valueX valueY
  | .regImmOffset .branchNotEqImm regA valueX valueY => i.branchNotEqImm regA valueX valueY
  | .regImmOffset .branchLessUnsignedImm regA valueX valueY =>
    i.branchLessUnsignedImm regA valueX valueY
  | .regImmOffset .branchLessOrEqualUnsignedImm regA valueX valueY =>
    i.branchLessOrEqualUnsignedImm regA valueX valueY
  | .regImmOffset .branchGreaterOrEqualUnsignedImm regA valueX valueY =>
    i.branchGreaterOrEqualUnsignedImm regA valueX valueY
  | .regImmOffset .branchGreaterUnsignedImm regA valueX valueY =>
    i.branchGreaterUnsignedImm regA valueX valueY
  | .regImmOffset .branchLessSignedImm regA valueX valueY =>
    i.branchLessSignedImm regA valueX valueY
  | .regImmOffset .branchLessOrEqualSignedImm regA valueX valueY =>
    i.branchLessOrEqualSignedImm regA valueX valueY
  | .regImmOffset .branchGreaterOrEqualSignedImm regA valueX valueY =>
    i.branchGreaterOrEqualSignedImm regA valueX valueY
  | .regImmOffset .branchGreaterSignedImm regA valueX valueY =>
    i.branchGreaterSignedImm regA valueX valueY
  | .regReg .moveReg regDst regA => i.moveReg regDst regA
  | .regReg .sbrk regDst regA => i.sbrk regDst regA
  | .regReg .countSetBits64 regDst regA => i.countSetBits64 regDst regA
  | .regReg .countSetBits32 regDst regA => i.countSetBits32 regDst regA
  | .regReg .leadingZeroBits64 regDst regA => i.leadingZeroBits64 regDst regA
  | .regReg .leadingZeroBits32 regDst regA => i.leadingZeroBits32 regDst regA
  | .regReg .trailingZeroBits64 regDst regA => i.trailingZeroBits64 regDst regA
  | .regReg .trailingZeroBits32 regDst regA => i.trailingZeroBits32 regDst regA
  | .regReg .signExtend8 regDst regA => i.signExtend8 regDst regA
  | .regReg .signExtend16 regDst regA => i.signExtend16 regDst regA
  | .regReg .zeroExtend16 regDst regA => i.zeroExtend16 regDst regA
  | .regReg .reverseBytes regDst regA => i.reverseBytes regDst regA
  | .reg2Imm .storeIndirectU8 regA regB valueX => i.storeIndirectU8 regA regB valueX
  | .reg2Imm .storeIndirectU16 regA regB valueX => i.storeIndirectU16 regA regB valueX
  | .reg2Imm .storeIndirectU32 regA regB valueX => i.storeIndirectU32 regA regB valueX
  | .reg2Imm .storeIndirectU64 regA regB valueX => i.storeIndirectU64 regA regB valueX
  | .reg2Imm .loadIndirectU8 regA regB valueX => i.loadIndirectU8 regA regB valueX
  | .reg2Imm .loadIndirectI8 regA regB valueX => i.loadIndirectI8 regA regB valueX
  | .reg2Imm .loadIndirectU16 regA regB valueX => i.loadIndirectU16 regA regB valueX
  | .reg2Imm .loadIndirectI16 regA regB valueX => i.loadIndirectI16 regA regB valueX
  | .reg2Imm .loadIndirectU32 regA regB valueX => i.loadIndirectU32 regA regB valueX
  | .reg2Imm .loadIndirectI32 regA regB valueX => i.loadIndirectI32 regA regB valueX
  | .reg2Imm .loadIndirectU64 regA regB valueX => i.loadIndirectU64 regA regB valueX
  | .reg2Imm .addImm32 regA regB valueX => i.addImm32 regA regB valueX
  | .reg2Imm .andImm regA regB valueX => i.andImm regA regB valueX
  | .reg2Imm .xorImm regA regB valueX => i.xorImm regA regB valueX
  | .reg2Imm .orImm regA regB valueX => i.orImm regA regB valueX
  | .reg2Imm .mulImm32 regA regB valueX => i.mulImm32 regA regB valueX
  | .reg2Imm .setLessThanUnsignedImm regA regB valueX => i.setLessThanUnsignedImm regA regB valueX
  | .reg2Imm .setLessThanSignedImm regA regB valueX => i.setLessThanSignedImm regA regB valueX
  | .reg2Imm .shiftLogicalLeftImm32 regA regB valueX => i.shiftLogicalLeftImm32 regA regB valueX
  | .reg2Imm .shiftLogicalRightImm32 regA regB valueX => i.shiftLogicalRightImm32 regA regB valueX
  | .reg2Imm .shiftArithmeticRightImm32 regA regB valueX =>
    i.shiftArithmeticRightImm32 regA regB valueX
  | .reg2Imm .negateAndAddImm32 regA regB valueX => i.negateAndAddImm32 regA regB valueX
  | .reg2Imm .setGreaterThanUnsignedImm regA regB valueX =>
    i.setGreaterThanUnsignedImm regA regB valueX
  | .reg2Imm .setGreaterThanSignedImm regA regB valueX => i.setGreaterThanSignedImm regA regB valueX
  | .reg2Imm .shiftLogicalLeftImmAlt32 regA regB valueX =>
    i.shiftLogicalLeftImmAlt32 regA regB valueX
  | .reg2Imm .shiftArithmeticRightImmAlt32 regA regB valueX =>
    i.shiftLogicalRightImmAlt32 regA regB valueX
  | .reg2Imm .shiftLogicalRightImmAlt32 regA regB valueX =>
    i.shiftArithmeticRightImmAlt32 regA regB valueX
  | .reg2Imm .cmovIfZeroImm regA regB valueX => i.cmovIfZeroImm regA regB valueX
  | .reg2Imm .cmovIfNotZeroImm regA regB valueX => i.cmovIfNotZeroImm regA regB valueX
  | .reg2Imm .addImm64 regA regB valueX => i.addImm64 regA regB valueX
  | .reg2Imm .mulImm64 regA regB valueX => i.mulImm64 regA regB valueX
  | .reg2Imm .shiftLogicalLeftImm64 regA regB valueX => i.shiftLogicalLeftImm64 regA regB valueX
  | .reg2Imm .shiftLogicalRightImm64 regA regB valueX => i.shiftLogicalRightImm64 regA regB valueX
  | .reg2Imm .shiftArithmeticRightImm64 regA regB valueX =>
    i.shiftArithmeticRightImm64 regA regB valueX
  | .reg2Imm .negateAndAddImm64 regA regB valueX => i.negateAndAddImm64 regA regB valueX
  | .reg2Imm .shiftLogicalLeftImmAlt64 regA regB valueX =>
    i.shiftLogicalLeftImmAlt64 regA regB valueX
  | .reg2Imm .shiftLogicalRightImmAlt64 regA regB valueX =>
    i.shiftLogicalRightImmAlt64 regA regB valueX
  | .reg2Imm .shiftArithmeticRightImmAlt64 regA regB valueX =>
    i.shiftArithmeticRightImmAlt64 regA regB valueX
  | .reg2Imm .rotR64Imm regA regB valueX => i.rotateRight64Imm regA regB valueX
  | .reg2Imm .rotR64ImmAlt regA regB valueX => i.rotateRight64ImmAlt regA regB valueX
  | .reg2Imm .rotR32Imm regA regB valueX => i.rotateRight32Imm regA regB valueX
  | .reg2Imm .rotR32ImmAlt regA regB valueX => i.rotateRight32ImmAlt regA regB valueX
  | .reg2Offset .branchEq regA regB valueX => i.branchEq regA regB valueX
  | .reg2Offset .branchNotEq regA regB valueX => i.branchNotEq regA regB valueX
  | .reg2Offset .branchLessUnsigned regA regB valueX => i.branchLessUnsigned regA regB valueX
  | .reg2Offset .branchLessSigned regA regB valueX => i.branchLessSigned regA regB valueX
  | .reg2Offset .branchGreaterOrEqualUnsigned regA regB valueX =>
    i.branchGreaterOrEqualUnsigned regA regB valueX
  | .reg2Offset .branchGreaterOrEqualSigned regA regB valueX =>
    i.branchGreaterOrEqualSigned regA regB valueX
  | .reg2Imm2 .loadImmAndJumpIndirect regA regB valueX valueY =>
    i.loadImmAndJumpIndirect regA regB valueX valueY
  | .reg3 .add32 regDst regA regB => i.add32 regDst regA regB
  | .reg3 .sub32 regDst regA regB => i.sub32 regDst regA regB
  | .reg3 .mul32 regDst regA regB => i.mul32 regDst regA regB
  | .reg3 .divUnsigned32 regDst regA regB => i.divUnsigned32 regDst regA regB
  | .reg3 .divSigned32 regDst regA regB => i.divSigned32 regDst regA regB
  | .reg3 .remUnsigned32 regDst regA regB => i.remUnsigned32 regDst regA regB
  | .reg3 .remSigned32 regDst regA regB => i.remSigned32 regDst regA regB
  | .reg3 .shiftLogicalLeft32 regDst regA regB => i.shiftLogicalLeft32 regDst regA regB
  | .reg3 .shiftLogicalRight32 regDst regA regB => i.shiftLogicalRight32 regDst regA regB
  | .reg3 .shiftArithmeticRight32 regDst regA regB => i.shiftArithmeticRight32 regDst regA regB
  | .reg3 .add64 regDst regA regB => i.add64 regDst regA regB
  | .reg3 .sub64 regDst regA regB => i.sub64 regDst regA regB
  | .reg3 .mul64 regDst regA regB => i.mul64 regDst regA regB
  | .reg3 .divUnsigned64 regDst regA regB => i.divUnsigned64 regDst regA regB
  | .reg3 .divSigned64 regDst regA regB => i.divSigned64 regDst regA regB
  | .reg3 .remUnsigned64 regDst regA regB => i.remUnsigned64 regDst regA regB
  | .reg3 .remSigned64 regDst regA regB => i.remSigned64 regDst regA regB
  | .reg3 .shiftLogicalLeft64 regDst regA regB => i.shiftLogicalLeft64 regDst regA regB
  | .reg3 .shiftLogicalRight64 regDst regA regB => i.shiftLogicalRight64 regDst regA regB
  | .reg3 .shiftArithmeticRight64 regDst regA regB => i.shiftArithmeticRight64 regDst regA regB
  | .reg3 .and regDst regA regB => i.and regDst regA regB
  | .reg3 .xor regDst regA regB => i.xor regDst regA regB
  | .reg3 .or regDst regA regB => i.or regDst regA regB
  | .reg3 .mulUpperSignedSigned regDst regA regB => i.mulUpperSignedSigned regDst regA regB
  | .reg3 .mulUpperUnsignedUnsigned regDst regA regB => i.mulUpperUnsignedUnsigned regDst regA regB
  | .reg3 .mulUpperSignedUnsigned regDst regA regB => i.mulUpperSignedUnsigned regDst regA regB
  | .reg3 .setLessThanUnsigned regDst regA regB => i.setLessThanUnsigned regDst regA regB
  | .reg3 .setLessThanSigned regDst regA regB => i.setLessThanSigned regDst regA regB
  | .reg3 .cmovIfZero regDst regA regB => i.cmovIfZero regDst regA regB
  | .reg3 .cmovIfNotZero regDst regA regB => i.cmovIfNotZero regDst regA regB
  | .reg3 .rotL64 regDst regA regB => i.rotateLeft64 regDst regA regB
  | .reg3 .rotL32 regDst regA regB => i.rotateLeft32 regDst regA regB
  | .reg3 .rotR64 regDst regA regB => i.rotateRight64 regDst regA regB
  | .reg3 .rotR32 regDst regA regB => i.rotateRight32 regDst regA regB
  | .reg3 .andInv regDst regA regB => i.andInverted regDst regA regB
  | .reg3 .orInv regDst regA regB => i.orInverted regDst regA regB
  | .reg3 .xnor regDst regA regB => i.xnor regDst regA regB
  | .reg3 .max regDst regA regB => i.max regDst regA regB
  | .reg3 .maxU regDst regA regB => i.maxUnsigned regDst regA regB
  | .reg3 .min regDst regA regB => i.min regDst regA regB
  | .reg3 .minU regDst regA regB => i.minUnsigned regDst regA regB

def step (i : Instance) : Exec := do
  let skip ← Polkavm.skip i.instructionCounter i.bitmask
  let byte ← indexAt i.code i.instructionCounter.toNat
  let opcode := Opcode.ofByte byte
  match i.deductGas (gasCosts opcode) with
  | .error e => return (i, some e)
  | .ok i =>
    match opcode with
    | none => return (i, some (.panic (.unexpectedOpcode byte)))
    | some opcode =>
      match ← i.decode skip opcode with
      | .error e => return (i, some e)
      | .ok instruction => i.exec instruction

end Instance

structure HostResult (X : Type) where
  gas : Gas
  regs : Registers
  mem : Memory
  x : X
  err : Option Err

abbrev HostCall (X : Type) := UInt64 → Gas → Registers → Memory → X → Outcome (HostResult X)

def invokeRound (i : Instance) : Outcome (Flow Instance (Instance × Err)) := do
  match ← i.step with
  | (i, none) => return .next i
  | (i, some e) => return .done (i, e)

def invoke (i : Instance) : Outcome (Instance × Err) :=
  loop invokeRound (i.gasRemaining.toInt.toNat + 1) i

inductive Exit where
  | machine (e : Err)
  | host (e : Err)
  deriving DecidableEq

def Exit.reported : Exit → Option Err
  | machine _ => none
  | host e => some e

structure RunEnd (X : Type) where
  machine : Instance
  x : X
  exit : Exit

section

variable {X : Type} (hostCall : HostCall X)

def hostCallRound (s : Instance × X) : Outcome (Flow (Instance × X) (RunEnd X)) := do
  match ← invoke s.1 with
  | (i, .hostCall index) =>
    let r ← hostCall index i.gasRemaining i.regs i.memory s.2
    let i := { i with gasRemaining := r.gas, regs := r.regs, memory := r.mem }
    match r.err with
    | some e => return .done ⟨i, r.x, .host e⟩
    | none =>
      let i ← i.skip
      return .next (i, r.x)
  | (i, e) => return .done ⟨i, s.2, .machine e⟩

def runHostCalls (fuel : Nat) (i : Instance) (x : X) : Outcome (RunEnd X) :=
  loop (hostCallRound hostCall) fuel (i, x)

def invokeHostCall (fuel : Nat) (i : Instance) (x : X) : Outcome (Instance × X × Option Err) := do
  let r ← runHostCalls hostCall fuel i x
  return (r.machine, r.x, r.exit.reported)

structure ProgramResult (X : Type) where
  gas : Gas
  result : List UInt8
  x : X
  err : Option Err

def setUp (p : List UInt8) (entryPoint initialGas : UInt64) (args : List UInt8) :
    Outcome (Except Err Instance) := do
  match ← parseBlob p with
  | .error e => return .error (.panicOf e)
  | .ok program =>
    match initializeStandardProgram program args with
    | .error e => return .error (.panicOf e)
    | .ok (ram, regs) =>
      match ← instantiate program.codeAndJumpTable entryPoint initialGas.toInt64 regs ram with
      | .error e => return .error (.panicOf e)
      | .ok i => return .ok i

def readResult (i : Instance) : Outcome (Except Err (List UInt8)) := do
  makeCheck 1 (i.reg .A0).toNat
  i.memory.read (i.reg .A1) (i.reg .A0)

def invokeWholeProgram (fuel : Nat) (p : List UInt8) (entryPoint initialGas : UInt64)
    (args : List UInt8) (x : X) : Outcome (ProgramResult X) := do
  match ← setUp p entryPoint initialGas args with
  | .error e => return ⟨0, [], x, some e⟩
  | .ok i =>
    match ← invokeHostCall hostCall fuel i x with
    | (_, _, some e) => return ⟨0, [], x, some e⟩
    | (i, x1, none) =>
      match ← readResult i with
      | .error e => return ⟨0, [], x, some e⟩
      | .ok result => return ⟨i.gasRemaining, result, x1, none⟩

end

end Strawberry.Interpreter
