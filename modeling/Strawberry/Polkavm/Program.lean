import Strawberry.Polkavm.Memory
import Strawberry.Polkavm.Instructions

/-!
# Program blobs and the initial machine

`parseBlob`, `initializeStandardProgram`, `deblob`, and `skip`, the distance to the next mark.
-/

namespace Strawberry.Polkavm

open List

open Jam (JamError Reader)

def addressSpaceSize : Nat := 2 ^ 32
def inputDataSize : Nat := 2 ^ 24
def memoryZoneSize : UInt64 := 0x10000
def addressReturnToHost : UInt64 := 0xFFFF0000
def stackAddressHigh : UInt64 := 0xFEFE0000
def argsAddressLow : UInt64 := 0xFEFF0000
def dynamicAddressAlignment : Nat := 2
def bitmaskMax : Nat := 24

structure ProgramMemorySizes where
  roDataSize : UInt64
  rwDataSize : UInt64
  initialHeapPages : UInt64
  stackSize : UInt64
  deriving DecidableEq

structure Program where
  programMemorySizes : ProgramMemorySizes
  roData : List UInt8
  rwData : List UInt8
  codeAndJumpTable : List UInt8
  deriving DecidableEq

def decodeSizedField (name : String) (length : Nat) (r : Reader) :
    Except JamError (UInt64 × Reader) :=
  match Jam.decodeFixedWidth length r with
  | .error e => .error (.encodingStructField name e)
  | .ok x => .ok x

def decodeProgramMemorySizes (r : Reader) : Except JamError (ProgramMemorySizes × Reader) := do
  let (roDataSize, r) ← decodeSizedField "RODataSize" 3 r
  let (rwDataSize, r) ← decodeSizedField "RWDataSize" 3 r
  let (initialHeapPages, r) ← decodeSizedField "InitialHeapPages" 2 r
  let (stackSize, r) ← decodeSizedField "StackSize" 3 r
  .ok ({ roDataSize, rwDataSize, initialHeapPages, stackSize }, r)

def parseBlob (data : List UInt8) : Outcome (Except Err Program) :=
  match decodeProgramMemorySizes data with
  | .error e => .ret (.error (.jam e))
  | .ok (memorySizes, r) =>
    match Jam.decodeBytesFixedLength memorySizes.roDataSize.toNat r with
    | .error e => .ret (.error (.jam e))
    | .ok (roData, r) =>
      if memorySizes.roDataSize.toNat ≠ roData.length then .ret (.error .roDataSizeMismatch)
      else if memorySizes.rwDataSize.toNat ≠ 0 then .ret (.error .rwDataSizeMismatch)
      else
        match Jam.decodeBytesFixedLength memorySizes.rwDataSize.toNat r with
        | .error e => .ret (.error (.jam e))
        | .ok (rwData, r) =>
          match Jam.decodeFixedWidth 4 r with
          | .error e => .ret (.error (.jam e))
          | .ok (codeSize, r) => do
            let rest ← sliceOf data (memorySizes.rwDataSize.toNat + 4) data.length
            if rest.length ≠ codeSize.toNat then return .error .codeSizeMismatch
            return .ok { programMemorySizes := memorySizes, roData, rwData, codeAndJumpTable := r }

def alignToZone (value : UInt64) : UInt64 :=
  if value &&& (memoryZoneSize - 1) = 0 then value
  else (value + memoryZoneSize) &&& ~~~(memoryZoneSize - 1)

def copySized (data : List UInt8) (size : UInt64) : List UInt8 :=
  data.take size.toNat ++ List.replicate (size.toNat - data.length) 0

def initializeMemory (roData rwData argsData : List UInt8) (stackSize initialPages : UInt64) :
    Except Err Memory :=
  let roSize := UInt64.ofNat roData.length
  let rwSize := UInt64.ofNat rwData.length
  let argsSize := UInt64.ofNat argsData.length
  if addressSpaceSize < 5 * memoryZoneSize.toNat +
      (alignToZone (rwSize + initialPages * pageSize)).toNat +
      (alignToZone stackSize).toNat + inputDataSize then
    .error .memoryLayoutOverflow
  else
    let stackSizeAligned := alignToPage stackSize
    .ok
      { ro :=
          { address := memoryZoneSize, access := .readOnly
            data := copySized roData (alignToPage roSize) }
        rw :=
          { address := 2 * memoryZoneSize + alignToZone roSize, access := .readWrite
            data := copySized rwData (alignToPage rwSize + initialPages * pageSize) }
        stack :=
          { address := stackAddressHigh - stackSizeAligned, access := .readWrite
            data := List.replicate stackSizeAligned.toNat 0 }
        args :=
          { address := argsAddressLow, access := .readOnly
            data := copySized argsData (alignToPage argsSize) } }

def initializeRegisters (argsLen : Nat) : Registers :=
  #v[addressReturnToHost, stackAddressHigh, 0, 0, 0, 0, 0, argsAddressLow, UInt64.ofNat argsLen,
    0, 0, 0, 0]

def initializeStandardProgram (program : Program) (argsData : List UInt8) :
    Except Err (Memory × Registers) :=
  match initializeMemory program.roData program.rwData argsData
      program.programMemorySizes.stackSize program.programMemorySizes.initialHeapPages with
  | .error e => .error e
  | .ok ram => .ok (ram, initializeRegisters argsData.length)

structure CodeAndJumpTableLengths where
  jumpTableEntryCount : UInt64
  jumpTableEntrySize : UInt64
  codeLength : UInt64
  deriving DecidableEq

def decodeField (name : String) (decode : Reader → Except JamError (UInt64 × Reader))
    (r : Reader) : Except JamError (UInt64 × Reader) :=
  match decode r with
  | .error e => .error (.decodingStructField name e)
  | .ok x => .ok x

def decodeLengths (r : Reader) : Except JamError (CodeAndJumpTableLengths × Reader) := do
  let (jumpTableEntryCount, r) ← decodeField "JumpTableEntryCount" Jam.decodeUint r
  let (jumpTableEntrySize, r) ← decodeField "JumpTableEntrySize" (Jam.decodeFixedWidth 1) r
  let (codeLength, r) ← decodeField "CodeLength" Jam.decodeUint r
  .ok ({ jumpTableEntryCount, jumpTableEntrySize, codeLength }, r)

def decodeJumpTable (entrySize : Nat) : Nat → Reader → Except JamError (List UInt64 × Reader)
  | 0, r => .ok ([], r)
  | count + 1, r => do
    let (entry, r) ← Jam.decodeFixedWidth entrySize r
    let (entries, r) ← decodeJumpTable entrySize count r
    .ok (entry :: entries, r)

structure Deblobbed where
  code : List UInt8
  bitmask : List Bool
  jumpTable : List UInt64
  deriving DecidableEq

def deblobCode (codeLength : Nat) (jumpTable : List UInt64) (r : Reader) :
    Outcome (Except Err Deblobbed) := do
  makeCheck 1 codeLength
  match Jam.decodeBytesFixedLength codeLength r with
  | .error e => return .error (.jam e)
  | .ok (code, r) =>
    match Jam.decodeBitsFixedLength r.length r with
    | .error e => return .error (.jam e)
    | .ok (bits, _) =>
      let bitmask ← sliceOf bits 0 codeLength
      return .ok { code, bitmask, jumpTable }

def deblob (bytecode : List UInt8) : Outcome (Except Err Deblobbed) :=
  match decodeLengths bytecode with
  | .error e => .ret (.error (.jam e))
  | .ok (sizes, r) => do
    makeCheck 8 sizes.jumpTableEntryCount.toNat
    match decodeJumpTable sizes.jumpTableEntrySize.toNat sizes.jumpTableEntryCount.toNat r with
    | .error e => return .error (.jam e)
    | .ok (jumpTable, r) => deblobCode sizes.codeLength.toNat jumpTable r

def skipScan : List Bool → Nat → UInt64
  | [], _ => 0
  | b :: bs, i =>
    if bitmaskMax < i then UInt64.ofNat bitmaskMax
    else if b then UInt64.ofNat i
    else skipScan bs (i + 1)

def skip (instructionOffset : UInt64) (bitmask : List Bool) : Outcome UInt64 := do
  let rest ← sliceOf bitmask (instructionOffset + 1).toNat bitmask.length
  return skipScan rest 0

theorem skip_total {instructionOffset : UInt64} {bitmask : List Bool} :
    (skip instructionOffset bitmask).Total fun _ => True := by
  rw [skip, total_bind]
  refine sliceOf_total.mono ?_
  simp

def TableFits (entryCount entrySize rest : Nat) : Prop :=
  entryCount = 0 ∨ entrySize = 0 ∨ (entryCount - 1) * entrySize < rest

variable {n z c : Nat} {r : Reader} {table : List UInt64} {bytecode : List UInt8} {d : Deblobbed}

theorem decodeJumpTable_ok (h : TableFits n z r.length) :
    ∃ table, decodeJumpTable z n r = .ok (table, r.drop (n * z)) := by
  induction n generalizing r with
  | zero => exact ⟨[], by simp [decodeJumpTable]⟩
  | succ n ih =>
    have hfirst : z = 0 ∨ r ≠ [] := by
      rcases h with h | h | h
      · exact absurd h (Nat.succ_ne_zero n)
      · exact .inl h
      · exact .inr (ne_nil_of_length_pos (by omega))
    have hrest : TableFits n z (r.drop z).length := by
      rcases h with h | h | h
      · exact absurd h (Nat.succ_ne_zero n)
      · exact .inr (.inl h)
      · cases n with
        | zero => exact .inl rfl
        | succ n =>
          rw [Nat.add_sub_cancel, Nat.succ_mul] at h
          refine .inr (.inr ?_)
          rw [Nat.add_sub_cancel, length_drop]
          omega
    obtain ⟨x, hx⟩ := Jam.decodeFixedWidth_ok hfirst
    obtain ⟨table, htable⟩ := ih hrest
    refine ⟨x :: table, ?_⟩
    simp only [decodeJumpTable, hx, htable, bind, Except.bind, drop_drop]
    rw [Nat.succ_mul, Nat.add_comm z]

theorem decodeJumpTable_error (h : ¬ TableFits n z r.length) :
    ∃ e, decodeJumpTable z n r = .error e := by
  induction n generalizing r with
  | zero => exact absurd (.inl rfl) h
  | succ n ih =>
    have hz : z ≠ 0 := fun hz => h (.inr (.inl hz))
    by_cases hr : r = []
    · exact ⟨_, by simp only [decodeJumpTable, hr, Jam.decodeFixedWidth_nil hz]; rfl⟩
    · have hpos := length_pos_of_ne_nil hr
      obtain ⟨x, hx⟩ := Jam.decodeFixedWidth_ok (n := z) (.inr hr)
      have hrest : ¬ TableFits n z (r.drop z).length := by
        rintro (hn | hz' | hlt)
        · exact h (.inr (.inr (by simpa [hn] using hpos)))
        · exact hz hz'
        · refine h (.inr (.inr ?_))
          rw [length_drop] at hlt
          cases n with
          | zero => omega
          | succ n =>
            rw [Nat.add_sub_cancel] at hlt ⊢
            rw [Nat.succ_mul]
            omega
      obtain ⟨e, he⟩ := ih hrest
      exact ⟨e, by simp only [decodeJumpTable, hx, bind, Except.bind, he]⟩

structure LayoutSafe (entryCount entrySize codeLength rest : Nat) : Prop where
  table : 8 * entryCount ≤ maxAlloc
  code : TableFits entryCount entrySize rest → codeLength ≤ maxAlloc
  mask : TableFits entryCount entrySize rest → codeLength ≤ Jam.maxUint32 →
    entryCount * entrySize < rest → rest - entryCount * entrySize - codeLength ≤ Jam.maxUint32 →
    codeLength ≤ 8 * (rest - entryCount * entrySize - codeLength)

theorem layoutSafe_iff {rest : Nat} :
    LayoutSafe n z c rest ↔ 8 * n ≤ maxAlloc ∧ (TableFits n z rest → c ≤ maxAlloc ∧
      (c ≤ Jam.maxUint32 → n * z < rest → rest - n * z - c ≤ Jam.maxUint32 →
        c ≤ 8 * (rest - n * z - c))) := by
  constructor
  · intro h
    exact ⟨h.table, fun ht => ⟨h.code ht, h.mask ht⟩⟩
  · rintro ⟨hn, h⟩
    exact ⟨hn, fun ht => (h ht).1, fun ht => (h ht).2⟩

def BlobSafe (bytecode : List UInt8) : Prop :=
  ∀ sizes rest, decodeLengths bytecode = .ok (sizes, rest) →
    LayoutSafe sizes.jumpTableEntryCount.toNat sizes.jumpTableEntrySize.toNat
      sizes.codeLength.toNat rest.length

theorem deblobCode_returns_iff : (deblobCode c table r).Returns ↔ c ≤ maxAlloc ∧
      (c ≤ Jam.maxUint32 → 0 < r.length → r.length - c ≤ Jam.maxUint32 →
        c ≤ 8 * (r.length - c)) := by
  rw [deblobCode, makeCheck_bind_returns, Nat.one_mul]
  refine and_congr_right fun _ => ?_
  by_cases herr : Jam.maxUint32 < c ∨ (c ≠ 0 ∧ r = [])
  · -- the code is refused or there is nothing to read it from
    obtain ⟨e, he⟩ := Jam.decodeBytesFixedLength_error herr
    rw [he]
    refine ⟨fun _ => ?_, fun _ => returns_ret _⟩
    intro hmax hpos _
    rcases herr with herr | ⟨-, rfl⟩
    · omega
    · exact absurd hpos (by simp)
  · obtain ⟨hmax, hr⟩ : c ≤ Jam.maxUint32 ∧ (c = 0 ∨ r ≠ []) := by
      rw [not_or, not_and_or, not_not] at herr
      exact ⟨by omega, herr.2⟩
    obtain ⟨code, hcode, -⟩ := Jam.decodeBytesFixedLength_ok hmax hr
    simp only [hcode, Jam.decodeBitsFixedLength_all]
    simp only [length_drop]
    by_cases hmask : Jam.maxUint32 < r.length - c
    · rw [if_pos hmask]
      refine ⟨fun _ => ?_, fun _ => returns_ret _⟩
      omega
    · rw [if_neg hmask]
      have hslice : (sliceOf ((r.drop c).flatMap Jam.octetBits) 0 c).Returns ↔ _ := sliceOf_returns
      rw [Jam.flatMap_octetBits_length, length_drop] at hslice
      simp only [returns_bind, pure_eq, returns_ret, and_true]
      constructor
      · intro h _ _ _
        exact (hslice.mp h).2
      · intro h
        refine hslice.mpr ⟨Nat.zero_le _, ?_⟩
        rcases hr with rfl | hr
        · exact Nat.zero_le _
        · exact h hmax (length_pos_of_ne_nil hr) (by omega)

theorem deblob_returns_iff : (deblob bytecode).Returns ↔ BlobSafe bytecode := by
  unfold deblob BlobSafe
  cases hl : decodeLengths bytecode with
  | error e =>
    refine ⟨fun _ => ?_, fun _ => returns_ret _⟩
    intro sizes rest h
    cases h
  | ok header =>
    obtain ⟨sizes, r⟩ := header
    have hall : (∀ sizes' rest, Except.ok (ε := JamError) (sizes, r) = .ok (sizes', rest) →
        LayoutSafe sizes'.jumpTableEntryCount.toNat sizes'.jumpTableEntrySize.toNat
          sizes'.codeLength.toNat rest.length) ↔
        LayoutSafe sizes.jumpTableEntryCount.toNat sizes.jumpTableEntrySize.toNat
          sizes.codeLength.toNat r.length := by
      constructor
      · intro h
        exact h sizes r rfl
      · intro h _ _ heq
        cases heq
        exact h
    rw [hall, layoutSafe_iff]
    simp only [makeCheck_bind_returns]
    by_cases ht : TableFits sizes.jumpTableEntryCount.toNat sizes.jumpTableEntrySize.toNat r.length
    · obtain ⟨table, htable⟩ := decodeJumpTable_ok ht
      simp only [htable, deblobCode_returns_iff, length_drop, ht, true_implies]
      rw [Nat.sub_pos_iff_lt]
    · obtain ⟨e, he⟩ := decodeJumpTable_error ht
      simp only [he, ht, false_implies, pure_eq, returns_ret]

def Deblobbed.Matched (d : Deblobbed) : Prop :=
  d.bitmask.length = d.code.length ∧ d.code.length ≤ Jam.maxUint32

theorem deblobCode_eq_ok (h : deblobCode c table r = .ret (.ok d)) :
    d.jumpTable = table ∧ d.code.length = c ∧ d.Matched := by
  rw [deblobCode, bind_eq_ret] at h
  obtain ⟨_, -, h⟩ := h
  split at h
  · cases h
  · next code r' hcode =>
    split at h
    · cases h
    · next bits _ _ =>
      rw [bind_eq_ret] at h
      obtain ⟨mask, hmask, h⟩ := h
      cases h
      obtain ⟨-, hle, rfl⟩ := sliceOf_eq_ret.mp hmask
      unfold Jam.decodeBytesFixedLength at hcode
      split at hcode
      · cases hcode
      · have hlen := Jam.read_length hcode
        rw [Deblobbed.Matched, hlen]
        refine ⟨rfl, rfl, ?_, by omega⟩
        simp only [drop_zero, length_take]
        omega

theorem deblob_matched (h : deblob bytecode = .ret (.ok d)) : d.Matched := by
  unfold deblob at h
  split at h
  · cases h
  · rw [bind_eq_ret] at h
    obtain ⟨_, -, h⟩ := h
    split at h
    · cases h
    · exact (deblobCode_eq_ok h).2.2

end Strawberry.Polkavm
