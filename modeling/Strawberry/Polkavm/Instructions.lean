import Mathlib.Data.UInt

/-!
# Instructions

The opcodes by the format of their arguments, with the table of their byte codes.
-/

namespace Strawberry.Polkavm

abbrev Gas := Int64

abbrev Reg := Fin 13

abbrev Registers := Vector UInt64 13

abbrev Registers.set (regs : Registers) (reg : Reg) (value : UInt64) : Registers :=
  Vector.set regs reg value reg.isLt

namespace Reg

def A0 : Reg := 7
def A1 : Reg := 8
def A2 : Reg := 9
def A3 : Reg := 10
def A4 : Reg := 11
def A5 : Reg := 12

end Reg

inductive NoneOp where
  | trap | fallthrough
  deriving DecidableEq

inductive ImmOp where
  | ecalli
  deriving DecidableEq

inductive RegImmExtOp where
  | loadImm64
  deriving DecidableEq

inductive Imm2Op where
  | storeImmU8 | storeImmU16 | storeImmU32 | storeImmU64
  deriving DecidableEq

inductive OffsetOp where
  | jump
  deriving DecidableEq

inductive RegImmOp where
  | jumpIndirect | loadImm | loadU8 | loadI8 | loadU16 | loadI16 | loadU32 | loadI32 | loadU64
  | storeU8 | storeU16 | storeU32 | storeU64
  deriving DecidableEq

inductive RegImm2Op where
  | storeImmIndirectU8 | storeImmIndirectU16 | storeImmIndirectU32 | storeImmIndirectU64
  deriving DecidableEq

inductive RegImmOffsetOp where
  | loadImmAndJump | branchEqImm | branchNotEqImm | branchLessUnsignedImm
  | branchLessOrEqualUnsignedImm | branchGreaterOrEqualUnsignedImm | branchGreaterUnsignedImm
  | branchLessSignedImm | branchLessOrEqualSignedImm | branchGreaterOrEqualSignedImm
  | branchGreaterSignedImm
  deriving DecidableEq

inductive RegRegOp where
  | moveReg | sbrk | countSetBits64 | countSetBits32 | leadingZeroBits64 | leadingZeroBits32
  | trailingZeroBits64 | trailingZeroBits32 | signExtend8 | signExtend16 | zeroExtend16
  | reverseBytes
  deriving DecidableEq

inductive Reg2ImmOp where
  | storeIndirectU8 | storeIndirectU16 | storeIndirectU32 | storeIndirectU64 | loadIndirectU8
  | loadIndirectI8 | loadIndirectU16 | loadIndirectI16 | loadIndirectU32 | loadIndirectI32
  | loadIndirectU64 | addImm32 | andImm | xorImm | orImm | mulImm32 | setLessThanUnsignedImm
  | setLessThanSignedImm | shiftLogicalLeftImm32 | shiftLogicalRightImm32
  | shiftArithmeticRightImm32 | negateAndAddImm32 | setGreaterThanUnsignedImm
  | setGreaterThanSignedImm | shiftLogicalRightImmAlt32 | shiftArithmeticRightImmAlt32
  | shiftLogicalLeftImmAlt32 | cmovIfZeroImm | cmovIfNotZeroImm | addImm64 | mulImm64
  | shiftLogicalLeftImm64 | shiftLogicalRightImm64 | shiftArithmeticRightImm64
  | negateAndAddImm64 | shiftLogicalLeftImmAlt64 | shiftLogicalRightImmAlt64
  | shiftArithmeticRightImmAlt64 | rotR64Imm | rotR64ImmAlt | rotR32Imm | rotR32ImmAlt
  deriving DecidableEq

inductive Reg2OffsetOp where
  | branchEq | branchNotEq | branchLessUnsigned | branchLessSigned | branchGreaterOrEqualUnsigned
  | branchGreaterOrEqualSigned
  deriving DecidableEq

inductive Reg2Imm2Op where
  | loadImmAndJumpIndirect
  deriving DecidableEq

inductive Reg3Op where
  | add32 | sub32 | mul32 | divUnsigned32 | divSigned32 | remUnsigned32 | remSigned32
  | shiftLogicalLeft32 | shiftLogicalRight32 | shiftArithmeticRight32 | add64 | sub64 | mul64
  | divUnsigned64 | divSigned64 | remUnsigned64 | remSigned64 | shiftLogicalLeft64
  | shiftLogicalRight64 | shiftArithmeticRight64 | and | xor | or | mulUpperSignedSigned
  | mulUpperUnsignedUnsigned | mulUpperSignedUnsigned | setLessThanUnsigned | setLessThanSigned
  | cmovIfZero | cmovIfNotZero | rotL64 | rotL32 | rotR64 | rotR32 | andInv | orInv | xnor | max
  | maxU | min | minU
  deriving DecidableEq

inductive Opcode where
  | none (op : NoneOp)
  | imm (op : ImmOp)
  | regImmExt (op : RegImmExtOp)
  | imm2 (op : Imm2Op)
  | offset (op : OffsetOp)
  | regImm (op : RegImmOp)
  | regImm2 (op : RegImm2Op)
  | regImmOffset (op : RegImmOffsetOp)
  | regReg (op : RegRegOp)
  | reg2Imm (op : Reg2ImmOp)
  | reg2Offset (op : Reg2OffsetOp)
  | reg2Imm2 (op : Reg2Imm2Op)
  | reg3 (op : Reg3Op)
  deriving DecidableEq

def instructionCodes : List (UInt8 × Opcode) := [
  (0, .none .trap), (1, .none .fallthrough), (10, .imm .ecalli), (20, .regImmExt .loadImm64),
  (30, .imm2 .storeImmU8), (31, .imm2 .storeImmU16), (32, .imm2 .storeImmU32),
  (33, .imm2 .storeImmU64), (40, .offset .jump), (50, .regImm .jumpIndirect),
  (51, .regImm .loadImm), (52, .regImm .loadU8), (53, .regImm .loadI8), (54, .regImm .loadU16),
  (55, .regImm .loadI16), (56, .regImm .loadU32), (57, .regImm .loadI32), (58, .regImm .loadU64),
  (59, .regImm .storeU8), (60, .regImm .storeU16), (61, .regImm .storeU32),
  (62, .regImm .storeU64), (70, .regImm2 .storeImmIndirectU8),
  (71, .regImm2 .storeImmIndirectU16), (72, .regImm2 .storeImmIndirectU32),
  (73, .regImm2 .storeImmIndirectU64), (80, .regImmOffset .loadImmAndJump),
  (81, .regImmOffset .branchEqImm), (82, .regImmOffset .branchNotEqImm),
  (83, .regImmOffset .branchLessUnsignedImm), (84, .regImmOffset .branchLessOrEqualUnsignedImm),
  (85, .regImmOffset .branchGreaterOrEqualUnsignedImm),
  (86, .regImmOffset .branchGreaterUnsignedImm), (87, .regImmOffset .branchLessSignedImm),
  (88, .regImmOffset .branchLessOrEqualSignedImm),
  (89, .regImmOffset .branchGreaterOrEqualSignedImm),
  (90, .regImmOffset .branchGreaterSignedImm), (100, .regReg .moveReg), (101, .regReg .sbrk),
  (102, .regReg .countSetBits64), (103, .regReg .countSetBits32),
  (104, .regReg .leadingZeroBits64), (105, .regReg .leadingZeroBits32),
  (106, .regReg .trailingZeroBits64), (107, .regReg .trailingZeroBits32),
  (108, .regReg .signExtend8), (109, .regReg .signExtend16), (110, .regReg .zeroExtend16),
  (111, .regReg .reverseBytes), (120, .reg2Imm .storeIndirectU8),
  (121, .reg2Imm .storeIndirectU16), (122, .reg2Imm .storeIndirectU32),
  (123, .reg2Imm .storeIndirectU64), (124, .reg2Imm .loadIndirectU8),
  (125, .reg2Imm .loadIndirectI8), (126, .reg2Imm .loadIndirectU16),
  (127, .reg2Imm .loadIndirectI16), (128, .reg2Imm .loadIndirectU32),
  (129, .reg2Imm .loadIndirectI32), (130, .reg2Imm .loadIndirectU64), (131, .reg2Imm .addImm32),
  (132, .reg2Imm .andImm), (133, .reg2Imm .xorImm), (134, .reg2Imm .orImm),
  (135, .reg2Imm .mulImm32), (136, .reg2Imm .setLessThanUnsignedImm),
  (137, .reg2Imm .setLessThanSignedImm), (138, .reg2Imm .shiftLogicalLeftImm32),
  (139, .reg2Imm .shiftLogicalRightImm32), (140, .reg2Imm .shiftArithmeticRightImm32),
  (141, .reg2Imm .negateAndAddImm32), (142, .reg2Imm .setGreaterThanUnsignedImm),
  (143, .reg2Imm .setGreaterThanSignedImm), (144, .reg2Imm .shiftLogicalLeftImmAlt32),
  (145, .reg2Imm .shiftArithmeticRightImmAlt32), (146, .reg2Imm .shiftLogicalRightImmAlt32),
  (147, .reg2Imm .cmovIfZeroImm), (148, .reg2Imm .cmovIfNotZeroImm), (149, .reg2Imm .addImm64),
  (150, .reg2Imm .mulImm64), (151, .reg2Imm .shiftLogicalLeftImm64),
  (152, .reg2Imm .shiftLogicalRightImm64), (153, .reg2Imm .shiftArithmeticRightImm64),
  (154, .reg2Imm .negateAndAddImm64), (155, .reg2Imm .shiftLogicalLeftImmAlt64),
  (156, .reg2Imm .shiftLogicalRightImmAlt64), (157, .reg2Imm .shiftArithmeticRightImmAlt64),
  (158, .reg2Imm .rotR64Imm), (159, .reg2Imm .rotR64ImmAlt), (160, .reg2Imm .rotR32Imm),
  (161, .reg2Imm .rotR32ImmAlt), (170, .reg2Offset .branchEq), (171, .reg2Offset .branchNotEq),
  (172, .reg2Offset .branchLessUnsigned), (173, .reg2Offset .branchLessSigned),
  (174, .reg2Offset .branchGreaterOrEqualUnsigned),
  (175, .reg2Offset .branchGreaterOrEqualSigned), (180, .reg2Imm2 .loadImmAndJumpIndirect),
  (190, .reg3 .add32), (191, .reg3 .sub32), (192, .reg3 .mul32), (193, .reg3 .divUnsigned32),
  (194, .reg3 .divSigned32), (195, .reg3 .remUnsigned32), (196, .reg3 .remSigned32),
  (197, .reg3 .shiftLogicalLeft32), (198, .reg3 .shiftLogicalRight32),
  (199, .reg3 .shiftArithmeticRight32), (200, .reg3 .add64), (201, .reg3 .sub64),
  (202, .reg3 .mul64), (203, .reg3 .divUnsigned64), (204, .reg3 .divSigned64),
  (205, .reg3 .remUnsigned64), (206, .reg3 .remSigned64), (207, .reg3 .shiftLogicalLeft64),
  (208, .reg3 .shiftLogicalRight64), (209, .reg3 .shiftArithmeticRight64), (210, .reg3 .and),
  (211, .reg3 .xor), (212, .reg3 .or), (213, .reg3 .mulUpperSignedSigned),
  (214, .reg3 .mulUpperUnsignedUnsigned), (215, .reg3 .mulUpperSignedUnsigned),
  (216, .reg3 .setLessThanUnsigned), (217, .reg3 .setLessThanSigned), (218, .reg3 .cmovIfZero),
  (219, .reg3 .cmovIfNotZero), (220, .reg3 .rotL64), (221, .reg3 .rotL32), (222, .reg3 .rotR64),
  (223, .reg3 .rotR32), (224, .reg3 .andInv), (225, .reg3 .orInv), (226, .reg3 .xnor),
  (227, .reg3 .max), (228, .reg3 .maxU), (229, .reg3 .min), (230, .reg3 .minU)]

def Opcode.ofByte (b : UInt8) : Option Opcode := instructionCodes.lookup b

def gasCosts : Option Opcode → Gas
  | some _ => 1
  | none => 0

def Opcode.isBasicBlockTermination : Opcode → Bool
  | .none .trap | .none .fallthrough => true
  | .offset .jump => true
  | .regImm .jumpIndirect => true
  | .regImmOffset .loadImmAndJump | .regImmOffset .branchEqImm | .regImmOffset .branchNotEqImm
  | .regImmOffset .branchLessUnsignedImm | .regImmOffset .branchLessSignedImm
  | .regImmOffset .branchLessOrEqualUnsignedImm | .regImmOffset .branchLessOrEqualSignedImm
  | .regImmOffset .branchGreaterOrEqualUnsignedImm | .regImmOffset .branchGreaterOrEqualSignedImm
  | .regImmOffset .branchGreaterUnsignedImm | .regImmOffset .branchGreaterSignedImm => true
  | .reg2Offset .branchEq | .reg2Offset .branchNotEq | .reg2Offset .branchGreaterOrEqualUnsigned
  | .reg2Offset .branchGreaterOrEqualSigned | .reg2Offset .branchLessUnsigned
  | .reg2Offset .branchLessSigned => true
  | .reg2Imm2 .loadImmAndJumpIndirect => true
  | _ => false

end Strawberry.Polkavm
