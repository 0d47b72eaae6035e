import Mathlib.Data.Int.Bitwise
import Strawberry.Polkavm.Program

/-!
# The instructions

One definition for each method of `Instance` in the source, with its name.
-/

namespace Strawberry.Interpreter

open Polkavm Jam

structure Instance where
  memory : Memory
  regs : Registers
  instructionCounter : UInt64
  gasRemaining : Gas
  code : List UInt8
  jumpTable : List UInt64
  bitmask : List Bool
  basicBlockInstructions : List UInt64
  deriving DecidableEq

abbrev Exec := Outcome (Instance × Option Err)

def collectBlock (code : List UInt8) (bitmask : List Bool) (blocks : List UInt64)
    (entry : Bool × Nat) : Outcome (List UInt64) :=
  if entry.1 then do
    let c ← indexAt code entry.2
    if (Opcode.ofByte c).any Opcode.isBasicBlockTermination then
      let s ← Polkavm.skip (UInt64.ofNat entry.2) bitmask
      return (UInt64.ofNat entry.2 + 1 + s) :: blocks
    else return blocks
  else return blocks

def instantiate (program : List UInt8) (instructionOffset : UInt64) (gasLimit : Gas)
    (regs : Registers) (memory : Memory) : Outcome (Except Err Instance) := do
  match ← deblob program with
  | .error e => return .error e
  | .ok ⟨code, bitmask, jumpTable⟩ =>
    let basicBlockInstructions ← bitmask.zipIdx.foldlM (collectBlock code bitmask) [0]
    return .ok
      { memory, regs, instructionCounter := instructionOffset, gasRemaining := gasLimit
        code := code ++ [0], jumpTable, bitmask := bitmask ++ [true], basicBlockInstructions }

namespace Instance

def reg (i : Instance) (r : Reg) : UInt64 := i.regs.get r

def setReg (i : Instance) (r : Reg) (value : UInt64) : Instance :=
  { i with regs := i.regs.set r value }

def skip (i : Instance) : Outcome Instance := do
  let s ← Polkavm.skip i.instructionCounter i.bitmask
  return { i with instructionCounter := i.instructionCounter + (1 + s) }

def done (i : Instance) : Exec := do
  let i ← i.skip
  return (i, none)

def deductGas (i : Instance) (cost : Gas) : Except Err Instance :=
  if i.gasRemaining < cost then .error .outOfGas
  else .ok { i with gasRemaining := i.gasRemaining - cost }

def setAndSkip (i : Instance) (dst : Reg) (value : UInt64) : Exec := (i.setReg dst value).done

def load (i : Instance) (dst : Reg) (address length : UInt64) (value : Nat → UInt64) : Exec := do
  match ← i.memory.read address length with
  | .error e => return (i, some e)
  | .ok bytes => i.setAndSkip dst (value (leNat bytes))

def store (i : Instance) (address : UInt64) (length value : Nat) : Exec := do
  match ← i.memory.write address (toLE length value) with
  | .error e => return (i, some e)
  | .ok memory => done { i with memory := memory }

def branch (i : Instance) (condition : Bool) (target : UInt64) : Exec :=
  if condition then
    if target ∈ i.basicBlockInstructions then
      .ret ({ i with instructionCounter := target }, none)
    else do
      let opcode ← indexAt i.code target.toNat
      return (i, some (.panic (.nonBlockTarget target opcode)))
  else i.done

def djump (i : Instance) (address0 : UInt64) : Exec :=
  let address := address0.toUInt32
  if address.toUInt64 = addressReturnToHost then .ret (i, some .halt)
  else if address = 0 ∨ i.jumpTable.length * dynamicAddressAlignment < address.toNat ∨
      address.toNat % dynamicAddressAlignment ≠ 0 then
    .ret (i, some (.panic (.indirectJumpInvalid address)))
  else do
    let instructionOffset ← indexAt i.jumpTable (address.toNat / dynamicAddressAlignment - 1)
    if instructionOffset ∈ i.basicBlockInstructions then
      return ({ i with instructionCounter := instructionOffset }, none)
    else return (i, some (.panic (.indirectJumpNonBlock address)))

def bare (gas : Gas) (code : List UInt8) (bitmask : List Bool) : Instance :=
  { memory := Memory.emptyLayout, regs := .replicate _ 0, instructionCounter := 0
    gasRemaining := gas, code := code, jumpTable := [], bitmask := bitmask
    basicBlockInstructions := [0] }

end Instance

def shl64 (x s : UInt64) : UInt64 := if s < 64 then x <<< s else 0

def shr64 (x s : UInt64) : UInt64 := if s < 64 then x >>> s else 0

def sar64 (x : Int64) (s : UInt64) : Int64 :=
  if s < 64 then x >>> s.toInt64 else if x < 0 then -1 else 0

def shl32 (x : UInt32) (s : UInt64) : UInt32 := if s < 32 then x <<< s.toUInt32 else 0

def shr32 (x : UInt32) (s : UInt64) : UInt32 := if s < 32 then x >>> s.toUInt32 else 0

def sar32 (x : Int32) (s : UInt64) : Int32 :=
  if s < 32 then x >>> s.toUInt32.toInt32 else if x < 0 then -1 else 0

def rotateLeft64 (x k : UInt64) : UInt64 := x <<< (k % 64) ||| x >>> (64 - k % 64)

def rotateLeft32 (x : UInt32) (k : UInt64) : UInt32 :=
  x <<< (k % 32).toUInt32 ||| x >>> (32 - (k % 32).toUInt32)

def ofInt8 (x : Int8) : UInt64 := x.toInt64.toUInt64

def ofInt16 (x : Int16) : UInt64 := x.toInt64.toUInt64

def ofInt32 (x : Int32) : UInt64 := x.toInt64.toUInt64

def sext (value : UInt64) : Nat → UInt64
  | 0 => 0
  | 1 => ofInt8 value.toUInt8.toInt8
  | 2 => ofInt16 value.toUInt16.toInt16
  | 3 => ofInt32 (sar32 (value <<< 8).toUInt32.toInt32 8)
  | 4 => ofInt32 value.toUInt32.toInt32
  | _ => value

def onesCount (width : Nat) (x : Nat) : UInt64 :=
  UInt64.ofNat ((List.range width).countP x.testBit)

def leadingZeros (width : Nat) (x : Nat) : UInt64 :=
  UInt64.ofNat (if x = 0 then width else width - 1 - x.log2)

def trailingZeros (width : Nat) (x : Nat) : UInt64 :=
  UInt64.ofNat (((List.range width).find? x.testBit).getD width)

def bool2uint64 (v : Bool) : UInt64 := if v then 1 else 0

def abs64 (v : Int64) : Int64 := (v ^^^ sar64 v 63) - sar64 v 63

def smod64 (a b : Int64) : Int64 :=
  if b = 0 then a else if a < 0 then -(abs64 a % abs64 b) else abs64 a % abs64 b

def abs32 (v : Int32) : Int32 := (v ^^^ sar32 v 31) - sar32 v 31

def smod32 (a b : Int32) : Int32 :=
  if b = 0 then a else if a < 0 then -(abs32 a % abs32 b) else abs32 a % abs32 b

namespace Instance

variable (i : Instance) (dst src base regA regB s c : Reg)
  (address offset value valueX target : UInt64)

def sreg (r : Reg) : Int64 := (i.reg r).toInt64

def reg32 (r : Reg) : UInt32 := (i.reg r).toUInt32

def trap : Exec := .ret (i, some (.panic .explicitTrap))

def fallthrough : Exec := i.done

def loadImm64 (dst : Reg) (imm : UInt64) : Exec := i.setAndSkip dst imm

def storeImmU8 : Exec := i.store address 1 value.toNat

def storeImmU16 : Exec := i.store address 2 value.toNat

def storeImmU32 : Exec := i.store address 4 value.toNat

def storeImmU64 : Exec := i.store address 8 value.toNat

def jump : Exec := i.branch true target

def jumpIndirect : Exec := i.djump (i.reg base + offset)

def loadImm (dst : Reg) (imm : UInt64) : Exec := i.setAndSkip dst imm

def loadU8 : Exec := i.load dst address 1 UInt64.ofNat

def loadI8 : Exec := i.load dst address 1 fun n => ofInt8 (.ofNat n)

def loadU16 : Exec := i.load dst address 2 UInt64.ofNat

def loadI16 : Exec := i.load dst address 2 fun n => ofInt16 (.ofNat n)

def loadU32 : Exec := i.load dst address 4 UInt64.ofNat

def loadI32 : Exec := i.load dst address 4 fun n => sext (UInt64.ofNat n) 4

def loadU64 : Exec := i.load dst address 8 UInt64.ofNat

def storeU8 : Exec := i.store address 1 (i.reg src).toNat

def storeU16 : Exec := i.store address 2 (i.reg src).toNat

def storeU32 : Exec := i.store address 4 (i.reg src).toNat

def storeU64 : Exec := i.store address 8 (i.reg src).toNat

def storeImmIndirectU8 : Exec := i.store (i.reg base + offset) 1 value.toNat

def storeImmIndirectU16 : Exec := i.store (i.reg base + offset) 2 value.toNat

def storeImmIndirectU32 : Exec := i.store (i.reg base + offset) 4 value.toNat

def storeImmIndirectU64 : Exec := i.store (i.reg base + offset) 8 value.toNat

def storeIndirectU8 : Exec := i.store (i.reg base + offset) 1 (i.reg src).toNat

def storeIndirectU16 : Exec := i.store (i.reg base + offset) 2 (i.reg src).toNat

def storeIndirectU32 : Exec := i.store (i.reg base + offset) 4 (i.reg src).toNat

def storeIndirectU64 : Exec := i.store (i.reg base + offset) 8 (i.reg src).toNat

def loadIndirectU8 : Exec := i.load dst (i.reg base + offset) 1 UInt64.ofNat

def loadIndirectI8 : Exec := i.load dst (i.reg base + offset) 1 fun n => ofInt8 (.ofNat n)

def loadIndirectU16 : Exec := i.load dst (i.reg base + offset) 2 UInt64.ofNat

def loadIndirectI16 : Exec := i.load dst (i.reg base + offset) 2 fun n => ofInt16 (.ofNat n)

def loadIndirectU32 : Exec := i.load dst (i.reg base + offset) 4 UInt64.ofNat

def loadIndirectI32 : Exec := i.load dst (i.reg base + offset) 4 fun n => ofInt32 (.ofNat n)

def loadIndirectU64 : Exec := i.load dst (i.reg base + offset) 8 UInt64.ofNat

def loadImmAndJump (ra : Reg) (value target : UInt64) : Exec := do
  let (i, _) ← i.loadImm ra value
  i.jump target

def loadImmAndJumpIndirect (ra base : Reg) (value offset : UInt64) : Exec :=
  let target := i.reg base + offset
  (i.setReg ra value).djump target

def branchEqImm : Exec := i.branch (i.reg regA == valueX) target

def branchNotEqImm : Exec := i.branch (i.reg regA != valueX) target

def branchLessUnsignedImm : Exec := i.branch (i.reg regA < valueX) target

def branchLessOrEqualUnsignedImm : Exec := i.branch (i.reg regA ≤ valueX) target

def branchGreaterOrEqualUnsignedImm : Exec := i.branch (valueX ≤ i.reg regA) target

def branchGreaterUnsignedImm : Exec := i.branch (valueX < i.reg regA) target

def branchLessSignedImm : Exec := i.branch (i.sreg regA < valueX.toInt64) target

def branchLessOrEqualSignedImm : Exec := i.branch (i.sreg regA ≤ valueX.toInt64) target

def branchGreaterOrEqualSignedImm : Exec := i.branch (valueX.toInt64 ≤ i.sreg regA) target

def branchGreaterSignedImm : Exec := i.branch (valueX.toInt64 < i.sreg regA) target

def branchEq : Exec := i.branch (i.reg regA == i.reg regB) target

def branchNotEq : Exec := i.branch (i.reg regA != i.reg regB) target

def branchLessUnsigned : Exec := i.branch (i.reg regA < i.reg regB) target

def branchLessSigned : Exec := i.branch (i.sreg regA < i.sreg regB) target

def branchGreaterOrEqualUnsigned : Exec := i.branch (i.reg regB ≤ i.reg regA) target

def branchGreaterOrEqualSigned : Exec := i.branch (i.sreg regB ≤ i.sreg regA) target

def moveReg : Exec := i.setAndSkip dst (i.reg s)

def countSetBits64 : Exec := i.setAndSkip dst (onesCount 64 (i.reg s).toNat)

def countSetBits32 : Exec := i.setAndSkip dst (onesCount 32 (i.reg32 s).toNat)

def leadingZeroBits64 : Exec := i.setAndSkip dst (leadingZeros 64 (i.reg s).toNat)

def leadingZeroBits32 : Exec := i.setAndSkip dst (leadingZeros 32 (i.reg32 s).toNat)

def trailingZeroBits64 : Exec := i.setAndSkip dst (trailingZeros 64 (i.reg s).toNat)

def trailingZeroBits32 : Exec := i.setAndSkip dst (trailingZeros 32 (i.reg32 s).toNat)

def signExtend8 : Exec := i.setAndSkip dst (ofInt8 (i.reg s).toUInt8.toInt8)

def signExtend16 : Exec := i.setAndSkip dst (ofInt16 (i.reg s).toUInt16.toInt16)

def zeroExtend16 : Exec := i.setAndSkip dst ((i.reg s).toUInt16.toUInt64)

def reverseBytes : Exec := i.setAndSkip dst (leUInt64 (toLE 8 (i.reg s).toNat).reverse)

def sbrk (dst sizeReg : Reg) : Exec := do
  match ← i.memory.sbrk (i.reg sizeReg) with
  | .error e => return (i, some e)
  | .ok (memory, heapTop) => setAndSkip { i with memory := memory } dst heapTop

def addImm32 : Exec := i.setAndSkip dst (sext (i.reg regA + value).toUInt32.toUInt64 4)

def andImm : Exec := i.setAndSkip dst (i.reg regA &&& value)

def xorImm : Exec := i.setAndSkip dst (i.reg regA ^^^ value)

def orImm : Exec := i.setAndSkip dst (i.reg regA ||| value)

def mulImm32 : Exec := i.setAndSkip dst (sext (i.reg regA * value).toUInt32.toUInt64 4)

def setLessThanUnsignedImm : Exec := i.setAndSkip dst (bool2uint64 (i.reg regA < value))

def setLessThanSignedImm : Exec := i.setAndSkip dst (bool2uint64 (i.sreg regA < value.toInt64))

def shiftLogicalLeftImm32 : Exec := i.setAndSkip dst (sext (shl32 (i.reg32 regA) value).toUInt64 4)

def shiftLogicalRightImm32 : Exec := i.setAndSkip dst (sext (shr32 (i.reg32 regA) value).toUInt64 4)

def shiftArithmeticRightImm32 : Exec :=
  i.setAndSkip dst (ofInt32 (sar32 (i.reg32 regA).toInt32 value))

def negateAndAddImm32 : Exec := i.setAndSkip dst (sext (value - i.reg regA).toUInt32.toUInt64 4)

def setGreaterThanUnsignedImm : Exec := i.setAndSkip dst (bool2uint64 (value < i.reg regA))

def setGreaterThanSignedImm : Exec := i.setAndSkip dst (bool2uint64 (value.toInt64 < i.sreg regA))

def shiftLogicalLeftImmAlt32 : Exec :=
  i.setAndSkip dst (sext (shl64 value (i.reg regB)).toUInt32.toUInt64 4)

def shiftLogicalRightImmAlt32 : Exec :=
  i.setAndSkip dst (sext (shr32 value.toUInt32 (i.reg32 regB).toUInt64).toUInt64 4)

def shiftArithmeticRightImmAlt32 : Exec :=
  i.setAndSkip dst (ofInt32 (sar32 value.toUInt32.toInt32 (i.reg32 regB).toUInt64))

def cmovIfZeroImm (dst c : Reg) (s : UInt64) : Exec :=
  (if i.reg c = 0 then i.setReg dst s else i).done

def cmovIfNotZeroImm (dst c : Reg) (s : UInt64) : Exec :=
  (if i.reg c ≠ 0 then i.setReg dst s else i).done

def addImm64 : Exec := i.setAndSkip dst (i.reg regA + value)

def mulImm64 : Exec := i.setAndSkip dst (i.reg regA * value)

def shiftLogicalLeftImm64 : Exec := i.setAndSkip dst (sext (shl64 (i.reg regA) value) 8)

def shiftLogicalRightImm64 : Exec := i.setAndSkip dst (sext (shr64 (i.reg regA) value) 8)

def shiftArithmeticRightImm64 : Exec := i.setAndSkip dst ((sar64 (i.sreg regA) value).toUInt64)

def negateAndAddImm64 : Exec := i.setAndSkip dst (value - i.reg regA)

def shiftLogicalLeftImmAlt64 : Exec := i.setAndSkip dst (shl64 value (i.reg regB))

def shiftLogicalRightImmAlt64 : Exec := i.setAndSkip dst (shr64 value (i.reg regB))

def shiftArithmeticRightImmAlt64 : Exec :=
  i.setAndSkip dst (ofInt32 (sar32 value.toUInt32.toInt32 (i.reg regB)))

def rotateRight64Imm : Exec := i.setAndSkip dst (rotateLeft64 (i.reg regA) (0 - value))

def rotateRight64ImmAlt : Exec := i.setAndSkip dst (rotateLeft64 value (0 - i.reg regA))

def rotateRight32Imm : Exec :=
  i.setAndSkip dst (sext (rotateLeft32 (i.reg32 regA) (0 - value)).toUInt64 4)

def rotateRight32ImmAlt : Exec :=
  i.setAndSkip dst (sext (rotateLeft32 value.toUInt32 (0 - (i.reg32 regA).toUInt64)).toUInt64 4)

def add32 : Exec := i.setAndSkip dst (sext (i.reg regA + i.reg regB).toUInt32.toUInt64 4)

def sub32 : Exec := i.setAndSkip dst (sext (i.reg regA - i.reg regB).toUInt32.toUInt64 4)

def mul32 : Exec := i.setAndSkip dst (sext (i.reg regA * i.reg regB).toUInt32.toUInt64 4)

def divUnsigned32 : Exec :=
  let lhs := i.reg32 regA
  let rhs := i.reg32 regB
  if rhs = 0 then i.setAndSkip dst 0xFFFFFFFFFFFFFFFF
  else i.setAndSkip dst (sext (lhs / rhs).toUInt64 4)

def divSigned32 : Exec :=
  let lhs := (i.reg32 regA).toInt32
  let rhs := (i.reg32 regB).toInt32
  if rhs = 0 then i.setAndSkip dst 0xFFFFFFFFFFFFFFFF
  else if lhs = Int32.minValue ∧ rhs = -1 then i.setAndSkip dst (ofInt32 lhs)
  else i.setAndSkip dst (ofInt32 (lhs / rhs))

def remUnsigned32 : Exec :=
  let lhs := i.reg32 regA
  let rhs := i.reg32 regB
  if rhs = 0 then i.setAndSkip dst (sext lhs.toUInt64 4)
  else i.setAndSkip dst (sext (lhs % rhs).toUInt64 4)

def remSigned32 : Exec :=
  let lhs := (i.reg32 regA).toInt32
  let rhs := (i.reg32 regB).toInt32
  if rhs = 0 then i.setAndSkip dst (ofInt32 lhs)
  else if lhs = Int32.minValue ∧ rhs = -1 then i.setAndSkip dst 0
  else i.setAndSkip dst (ofInt32 (smod32 lhs rhs))

def shiftLogicalLeft32 : Exec :=
  i.setAndSkip dst (sext (shl32 (i.reg32 regA) (i.reg32 regB % 32).toUInt64).toUInt64 4)

def shiftLogicalRight32 : Exec :=
  i.setAndSkip dst (sext (shr32 (i.reg32 regA) (i.reg32 regB % 32).toUInt64).toUInt64 4)

def shiftArithmeticRight32 : Exec :=
  i.setAndSkip dst (ofInt32 (sar32 (i.reg32 regA).toInt32 (i.reg32 regB % 32).toUInt64))

def add64 : Exec := i.setAndSkip dst (i.reg regA + i.reg regB)

def sub64 : Exec := i.setAndSkip dst (i.reg regA - i.reg regB)

def mul64 : Exec := i.setAndSkip dst (i.reg regA * i.reg regB)

def divUnsigned64 : Exec :=
  let lhs := i.reg regA
  let rhs := i.reg regB
  if rhs = 0 then i.setAndSkip dst 0xFFFFFFFFFFFFFFFF else i.setAndSkip dst (lhs / rhs)

def divSigned64 : Exec :=
  let lhs := i.sreg regA
  let rhs := i.sreg regB
  if rhs = 0 then i.setAndSkip dst 0xFFFFFFFFFFFFFFFF
  else if lhs = Int64.minValue ∧ rhs = -1 then i.setAndSkip dst lhs.toUInt64
  else i.setAndSkip dst (lhs / rhs).toUInt64

def remUnsigned64 : Exec :=
  let lhs := i.reg regA
  let rhs := i.reg regB
  if rhs = 0 then i.setAndSkip dst lhs else i.setAndSkip dst (lhs % rhs)

def remSigned64 : Exec :=
  let lhs := i.sreg regA
  let rhs := i.sreg regB
  if rhs = 0 then i.setAndSkip dst lhs.toUInt64
  else if lhs = Int32.minValue.toInt64 ∧ rhs = -1 then i.setAndSkip dst 0
  else i.setAndSkip dst (smod64 lhs rhs).toUInt64

def shiftLogicalLeft64 : Exec := i.setAndSkip dst (shl64 (i.reg regA) (i.reg regB % 64))

def shiftLogicalRight64 : Exec := i.setAndSkip dst (shr64 (i.reg regA) (i.reg regB % 64))

def shiftArithmeticRight64 : Exec :=
  i.setAndSkip dst ((sar64 (i.sreg regA) (i.reg regB % 64)).toUInt64)

protected def and (dst regA regB : Reg) : Exec := i.setAndSkip dst (i.reg regA &&& i.reg regB)

protected def xor (dst regA regB : Reg) : Exec := i.setAndSkip dst (i.reg regA ^^^ i.reg regB)

protected def or (dst regA regB : Reg) : Exec := i.setAndSkip dst (i.reg regA ||| i.reg regB)

def mulUpperSignedSigned : Exec :=
  i.setAndSkip dst (UInt64.ofBitVec (.ofInt 64 (((i.sreg regA).toInt * (i.sreg regB).toInt) >>> 64)))

def mulUpperUnsignedUnsigned : Exec :=
  i.setAndSkip dst (UInt64.ofNat (((i.reg regA).toNat * (i.reg regB).toNat) >>> 64))

def mulUpperSignedUnsigned : Exec :=
  i.setAndSkip dst (UInt64.ofBitVec (.ofInt 64 (((i.sreg regA).toInt * (i.reg regB).toNat) >>> 64)))

def setLessThanUnsigned : Exec := i.setAndSkip dst (bool2uint64 (i.reg regA < i.reg regB))

def setLessThanSigned : Exec :=
  i.setAndSkip dst (bool2uint64 ((i.reg32 regA).toInt32 < (i.reg32 regB).toInt32))

def cmovIfZero : Exec := (if i.reg c = 0 then i.setReg dst (i.reg s) else i).done

def cmovIfNotZero : Exec := (if i.reg c ≠ 0 then i.setReg dst (i.reg s) else i).done

def rotateLeft64 : Exec := i.setAndSkip dst (Interpreter.rotateLeft64 (i.reg regA) (i.reg regB))

def rotateLeft32 : Exec :=
  i.setAndSkip dst (sext (Interpreter.rotateLeft32 (i.reg32 regA) (i.reg regB)).toUInt64 4)

def rotateRight64 : Exec :=
  i.setAndSkip dst (Interpreter.rotateLeft64 (i.reg regA) (0 - i.reg regB))

def rotateRight32 : Exec :=
  i.setAndSkip dst (sext (Interpreter.rotateLeft32 (i.reg32 regA) (0 - i.reg regB)).toUInt64 4)

def andInverted : Exec := i.setAndSkip dst (i.reg regA &&& ~~~i.reg regB)

def orInverted : Exec := i.setAndSkip dst (i.reg regA ||| ~~~i.reg regB)

def xnor : Exec := i.setAndSkip dst (~~~(i.reg regA ^^^ i.reg regB))

protected def max (dst regA regB : Reg) : Exec :=
  i.setAndSkip dst ((if i.sreg regA < i.sreg regB then i.sreg regB else i.sreg regA).toUInt64)

def maxUnsigned : Exec :=
  i.setAndSkip dst (if i.reg regA < i.reg regB then i.reg regB else i.reg regA)

protected def min (dst regA regB : Reg) : Exec :=
  i.setAndSkip dst ((if i.sreg regB < i.sreg regA then i.sreg regB else i.sreg regA).toUInt64)

def minUnsigned : Exec :=
  i.setAndSkip dst (if i.reg regB < i.reg regA then i.reg regB else i.reg regA)

end Instance

end Strawberry.Interpreter
