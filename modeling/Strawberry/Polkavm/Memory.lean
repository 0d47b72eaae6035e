import Mathlib.Data.List.Basic
import Strawberry.Codec
import Strawberry.Lib.Words

/-!
# The memory of the virtual machine

Four segments. The end of a range is computed modulo `2 ^ 64`, so a range can wrap around.
-/

namespace Strawberry.Polkavm

open Jam (JamError)

inductive PanicMsg where
  | forbiddenMemoryAccess
  | badPageNotFound
  | accountNotFound
  | outOfBoundsWrite (address : UInt64)
  | nonBlockTarget (target : UInt64) (opcode : UInt8)
  | indirectJumpInvalid (address : UInt32)
  | indirectJumpNonBlock (address : UInt32)
  | explicitTrap
  | unexpectedOpcode (opcode : UInt8)
  | outOfBoundCode
  deriving DecidableEq

inductive FaultReason where
  | inaccessible
  | notWriteable
  | allocationFailed
  | pageOutOfRange
  deriving DecidableEq

inductive Err where
  | panic (msg : PanicMsg)
  | panicOf (cause : Err)
  | outOfGas
  | pageFault (reason : FaultReason) (address : UInt64)
  | hostCall (index : UInt64)
  | halt
  | jam (e : JamError)
  | roDataSizeMismatch
  | rwDataSizeMismatch
  | codeSizeMismatch
  | memoryLayoutOverflow
  deriving DecidableEq

namespace Err

def IsPanic : Err → Prop
  | panic _ | panicOf _ => True
  | _ => False

def IsExit : Err → Prop
  | panic _ | panicOf _ | outOfGas | pageFault _ _ | hostCall _ | halt => True
  | _ => False

instance : DecidablePred IsPanic := fun e => by cases e <;> unfold IsPanic <;> infer_instance

instance : DecidablePred IsExit := fun e => by cases e <;> unfold IsExit <;> infer_instance

@[simp] theorem isExit_panic (msg : PanicMsg) : (panic msg).IsExit := trivial
@[simp] theorem isExit_panicOf (e : Err) : (panicOf e).IsExit := trivial
@[simp] theorem isExit_pageFault (r : FaultReason) (a : UInt64) : (pageFault r a).IsExit := trivial
@[simp] theorem isExit_outOfGas : outOfGas.IsExit := trivial
@[simp] theorem isExit_hostCall (n : UInt64) : (hostCall n).IsExit := trivial
@[simp] theorem isExit_halt : halt.IsExit := trivial

end Err

def pageSize : UInt64 := 0x1000

inductive MemoryAccess where
  | inaccessible
  | readOnly
  | readWrite
  deriving DecidableEq

structure MemorySegment where
  address : UInt64
  data : List UInt8
  access : MemoryAccess
  deriving DecidableEq

structure Memory where
  ro : MemorySegment
  rw : MemorySegment
  stack : MemorySegment
  args : MemorySegment
  deriving DecidableEq

inductive Region where
  | ro
  | rw
  | stack
  | args
  deriving DecidableEq

def MemorySegment.size (seg : MemorySegment) : UInt64 := UInt64.ofNat seg.data.length

namespace Memory

def segment (m : Memory) : Region → MemorySegment
  | .ro => m.ro
  | .rw => m.rw
  | .stack => m.stack
  | .args => m.args

def setSegment (m : Memory) (seg : MemorySegment) : Region → Memory
  | .ro => { m with ro := seg }
  | .rw => { m with rw := seg }
  | .stack => { m with stack := seg }
  | .args => { m with args := seg }

theorem segment_setSegment (m : Memory) (seg : MemorySegment) (r r' : Region) :
    (m.setSegment seg r).segment r' = if r' = r then seg else m.segment r' := by
  cases r <;> cases r' <;> simp [setSegment, segment]

def searchOrder : List Region := [.stack, .rw, .ro, .args]

def covering (m : Memory) (address size : UInt64) : Option Region :=
  searchOrder.find? fun r =>
    (m.segment r).address ≤ address ∧ address + size ≤ (m.segment r).address + (m.segment r).size

def containing (m : Memory) (address : UInt64) : Option Region :=
  searchOrder.find? fun r =>
    (m.segment r).address ≤ address ∧ address < (m.segment r).address + (m.segment r).size

def getAccess (m : Memory) (pageIndex : UInt64) : MemoryAccess :=
  match m.containing (pageIndex * pageSize) with
  | some r => (m.segment r).access
  | none => .inaccessible

def setAccess (m : Memory) (pageIndex : UInt64) (access : MemoryAccess) : Except Err Memory :=
  match m.containing (pageIndex * pageSize) with
  | some r => .ok (m.setSegment { m.segment r with access := access } r)
  | none => .error (.pageFault .pageOutOfRange (pageIndex * pageSize))

def findPage (m : Memory) (bad : MemoryAccess → Bool) : Nat → UInt64 → Option UInt64
  | 0, _ => none
  | count + 1, page => if bad (m.getAccess page) then some page else m.findPage bad count (page + 1)

def accessFault (m : Memory) (bad : MemoryAccess → Bool) (reason : FaultReason)
    (address size : UInt64) : Err :=
  let first := address / pageSize
  let last := (address + size) / pageSize
  match m.findPage bad (last.toNat + 1 - first.toNat) first with
  | some page => .pageFault reason (page * pageSize)
  | none => .panic .badPageNotFound

def readFault (m : Memory) : UInt64 → UInt64 → Err :=
  m.accessFault (· == .inaccessible) .inaccessible

def writeFault (m : Memory) : UInt64 → UInt64 → Err :=
  m.accessFault (· != .readWrite) .notWriteable

def read (m : Memory) (address size : UInt64) : Outcome (Except Err (List UInt8)) :=
  if address < 0x10000 then .ret (.error (.panic .forbiddenMemoryAccess))
  else
    match m.covering address size with
    | none => .ret (.error (m.readFault address size))
    | some r => do
      let seg := m.segment r
      let offset := address - seg.address
      let memoryData ← sliceOf seg.data offset.toNat (offset + size).toNat
      if seg.access = .inaccessible then .ret (.error (m.readFault address size))
      else .ret (.ok memoryData)

def write (m : Memory) (address : UInt64) (data : List UInt8) : Outcome (Except Err Memory) :=
  let size := UInt64.ofNat data.length
  if address < 0x10000 then .ret (.error (.panic .forbiddenMemoryAccess))
  else
    match m.covering address size with
    | none => .ret (.error (m.writeFault address size))
    | some r => do
      let seg := m.segment r
      let offset := address - seg.address
      let _ ← sliceOf seg.data offset.toNat (offset + size).toNat
      if seg.access ≠ .readWrite then .ret (.error (m.writeFault address size))
      else
        let data' := seg.data.take offset.toNat ++ data ++
          seg.data.drop (offset.toNat + data.length)
        .ret (.ok (m.setSegment { seg with data := data' } r))

end Memory

def alignToPage (value : UInt64) : UInt64 :=
  if value &&& (pageSize - 1) = 0 then value else (value + pageSize) &&& ~~~(pageSize - 1)

def Memory.sbrk (m : Memory) (size : UInt64) : Outcome (Except Err (Memory × UInt64)) :=
  let currentHeapPointer := m.rw.address + m.rw.size
  let newHeapPointer := currentHeapPointer + size
  if size = 0 then .ret (.ok (m, currentHeapPointer))
  else if m.stack.address ≤ newHeapPointer then
    .ret (.error (.pageFault .allocationFailed newHeapPointer))
  else if currentHeapPointer < newHeapPointer then do
    makeCheck 1 (alignToPage newHeapPointer).toNat
    let rw := { m.rw with data := List.replicate (alignToPage newHeapPointer).toNat 0 }
    return .ok (m.setSegment rw .rw, rw.address + rw.size)
  else .ret (.ok (m, currentHeapPointer))

namespace Memory

structure Fits (m : Memory) (limit : Nat) : Prop where
  bound : ∀ r, (m.segment r).address.toNat + (m.segment r).data.length ≤ limit

theorem Fits.mono {m : Memory} {l₁ l₂ : Nat} (hm : m.Fits l₁) (h : l₁ ≤ l₂) : m.Fits l₂ :=
  ⟨fun r => Nat.le_trans (hm.bound r) h⟩

variable {m : Memory} {address size : UInt64} {r : Region}

theorem Fits.size_toNat (hm : m.Fits (2 ^ 34)) (r : Region) :
    (m.segment r).size.toNat = (m.segment r).data.length := by
  have := hm.bound r
  rw [MemorySegment.size, UInt64.toNat_ofNat']
  omega

theorem Fits.end_toNat (hm : m.Fits (2 ^ 34)) (r : Region) :
    ((m.segment r).address + (m.segment r).size).toNat =
      (m.segment r).address.toNat + (m.segment r).data.length := by
  have := hm.bound r
  rw [UInt64.toNat_add, hm.size_toNat]
  omega

def Holds (m : Memory) (r : Region) (address : UInt64) (n : Nat) : Prop :=
  (m.segment r).address.toNat ≤ address.toNat ∧
    address.toNat + n ≤ (m.segment r).address.toNat + (m.segment r).data.length

def Overruns (m : Memory) (address : UInt64) (n : Nat) : Prop :=
  2 ^ 64 ≤ address.toNat + n ∧
    ∃ r, address.toNat + n ≤ 2 ^ 64 + ((m.segment r).address.toNat + (m.segment r).data.length)

theorem mem_searchOrder (r : Region) : r ∈ searchOrder := by
  cases r <;> decide

theorem covering_eq_some (h : m.covering address size = some r) : (m.segment r).address ≤ address ∧
      address + size ≤ (m.segment r).address + (m.segment r).size := by
  simpa using List.find?_some h

theorem covering_eq_none (h : m.covering address size = none) (r : Region) :
    ¬ ((m.segment r).address ≤ address ∧
      address + size ≤ (m.segment r).address + (m.segment r).size) := by
  simpa using List.find?_eq_none.mp h r (mem_searchOrder r)

theorem holds_of_covering (hm : m.Fits (2 ^ 34)) (hlt : address.toNat + size.toNat < 2 ^ 64)
    (h : m.covering address size = some r) : m.Holds r address size.toNat := by
  obtain ⟨hlo, hhi⟩ := covering_eq_some h
  rw [UInt64.le_iff_toNat_le] at hlo hhi
  rw [hm.end_toNat, UInt64.toNat_add, Nat.mod_eq_of_lt hlt] at hhi
  exact ⟨hlo, hhi⟩

theorem Fits.length_lt (hm : m.Fits (2 ^ 34)) (r : Region) :
    (m.segment r).data.length < 2 ^ 64 := by
  have := hm.bound r
  omega

theorem offset_toNat (hlen : (m.segment r).data.length < 2 ^ 64)
    (h : m.Holds r address size.toNat) :
    (address - (m.segment r).address).toNat = address.toNat - (m.segment r).address.toNat ∧
      (address - (m.segment r).address + size).toNat =
        address.toNat - (m.segment r).address.toNat + size.toNat := by
  obtain ⟨hlo, hhi⟩ := h
  have hle : (m.segment r).address ≤ address := UInt64.le_iff_toNat_le.mpr hlo
  have hsub := UInt64.toNat_sub_of_le address _ hle
  rw [UInt64.toNat_add, hsub]
  omega

theorem slice_of_holds (hlen : (m.segment r).data.length < 2 ^ 64)
    (h : m.Holds r address size.toNat) :
    sliceOf (m.segment r).data (address - (m.segment r).address).toNat
        (address - (m.segment r).address + size).toNat =
      .ret (((m.segment r).data.drop (address.toNat - (m.segment r).address.toNat)).take
        size.toNat) := by
  obtain ⟨hlo, hhi⟩ := offset_toNat hlen h
  rw [hlo, hhi, sliceOf_of_le (by omega) (by have := h.1; have := h.2; omega)]
  rw [Nat.add_sub_cancel_left]

theorem slice_of_wrap (hm : m.Fits (2 ^ 34)) (hw : 2 ^ 64 ≤ address.toNat + size.toNat)
    (h : m.covering address size = some r) :
    sliceOf (m.segment r).data (address - (m.segment r).address).toNat
      (address - (m.segment r).address + size).toNat = .crash .sliceOutOfRange := by
  obtain ⟨hlo, hhi⟩ := covering_eq_some h
  have hb := hm.bound r
  have hs := size.toNat_lt
  have hsub := UInt64.toNat_sub_of_le address _ hlo
  apply sliceOf_crash
  rw [UInt64.toNat_add, hsub]
  omega

def ReadConfined (m : Memory) (address size : UInt64) : Prop :=
  match m.read address size with
  | .ret (.ok bytes) => ∃ r, m.Holds r address size.toNat ∧
      (m.segment r).access ≠ .inaccessible ∧
      bytes = ((m.segment r).data.drop (address.toNat - (m.segment r).address.toNat)).take size.toNat
  | .ret (.error e) => e.IsExit
  | .crash _ | .hang => False

def WriteConfined (m : Memory) (address : UInt64) (data : List UInt8) : Prop :=
  match m.write address data with
  | .ret (.ok m') => ∃ r, m.Holds r address data.length ∧
      (m.segment r).access = .readWrite ∧
      m' = m.setSegment { m.segment r with
        data := (m.segment r).data.take (address.toNat - (m.segment r).address.toNat) ++ data ++
          (m.segment r).data.drop (address.toNat - (m.segment r).address.toNat + data.length) } r
  | .ret (.error e) => e.IsExit
  | .crash _ | .hang => False

theorem accessFault_isExit (m : Memory) (bad : MemoryAccess → Bool) (reason : FaultReason)
    (address size : UInt64) : (m.accessFault bad reason address size).IsExit := by
  simp only [accessFault]
  split <;> simp

theorem covering_of_overruns (hm : m.Fits (2 ^ 34)) (hsize : size.toNat < 2 ^ 63)
    (h : m.Overruns address size.toNat) : ∃ r, m.covering address size = some r := by
  obtain ⟨hw, r, hr⟩ := h
  cases hc : m.covering address size with
  | some r' => exact ⟨r', rfl⟩
  | none =>
    refine absurd ?_ (covering_eq_none hc r)
    have hb := hm.bound r
    rw [UInt64.le_iff_toNat_le, UInt64.le_iff_toNat_le, hm.end_toNat, UInt64.toNat_add]
    constructor <;> omega

theorem overruns_of_covering (hm : m.Fits (2 ^ 34)) (hw : 2 ^ 64 ≤ address.toNat + size.toNat)
    (h : m.covering address size = some r) : m.Overruns address size.toNat := by
  obtain ⟨-, hhi⟩ := covering_eq_some h
  refine ⟨hw, r, ?_⟩
  rw [UInt64.le_iff_toNat_le, hm.end_toNat, UInt64.toNat_add] at hhi
  have ha := address.toNat_lt
  have hs := size.toNat_lt
  omega

theorem not_low_of_overruns (hsize : size.toNat < 2 ^ 63) (h : m.Overruns address size.toNat) :
    ¬ address < 0x10000 := by
  have hw := h.1
  rw [UInt64.lt_iff_toNat_lt]
  simp only [UInt64.reduceToNat]
  omega

theorem covering_cases (hm : m.Fits (2 ^ 34)) (h : ¬ m.Overruns address size.toNat) :
    m.covering address size = none ∨
      ∃ r, m.covering address size = some r ∧ m.Holds r address size.toNat := by
  cases hc : m.covering address size with
  | none => exact .inl rfl
  | some r =>
    refine .inr ⟨r, rfl, ?_⟩
    by_cases hw : 2 ^ 64 ≤ address.toNat + size.toNat
    · exact absurd (overruns_of_covering hm hw hc) h
    · exact holds_of_covering hm (by omega) hc

theorem readConfined_of_not_overruns (hm : m.Fits (2 ^ 34)) (h : ¬ m.Overruns address size.toNat) :
    m.ReadConfined address size := by
  unfold ReadConfined read
  by_cases hlow : address < 0x10000
  · simp [hlow]
  · rcases covering_cases hm h with hc | ⟨r, hc, hr⟩
    · simp only [hlow, if_false, hc]
      exact accessFault_isExit ..
    · simp only [hlow, if_false, hc, slice_of_holds (hm.length_lt r) hr, ret_bind]
      by_cases hacc : (m.segment r).access = .inaccessible
      · simp only [hacc, if_true]
        exact accessFault_isExit ..
      · simp only [hacc, if_false]
        exact ⟨r, hr, hacc, rfl⟩

variable {data : List UInt8}

theorem length_of_read (h : m.read address size = .ret (.ok data)) : data.length = size.toNat := by
  unfold read at h
  split at h
  · cases h
  · split at h
    · cases h
    · rw [bind_eq_ret] at h
      obtain ⟨slice, hslice, h⟩ := h
      split at h
      · cases h
      · cases h
        obtain ⟨hle, hlength, rfl⟩ := sliceOf_eq_ret.mp hslice
        -- an end that wraps around would lie below the start
        rw [UInt64.toNat_add] at hle hlength ⊢
        rw [List.length_take, List.length_drop]
        have hsize := size.toNat_lt
        omega

theorem writeConfined_of_not_overruns (hm : m.Fits (2 ^ 34))
    (hlen : data.length < 2 ^ 63) (h : ¬ m.Overruns address data.length) :
    m.WriteConfined address data := by
  have hsize : (UInt64.ofNat data.length).toNat = data.length := toNat_ofNat_of_lt (by omega)
  rw [← hsize] at h
  unfold WriteConfined write
  by_cases hlow : address < 0x10000
  · simp [hlow]
  · rcases covering_cases hm h with hc | ⟨r, hc, hr⟩
    · simp only [hlow, if_false, hc]
      exact accessFault_isExit ..
    · simp only [hlow, if_false, hc, slice_of_holds (hm.length_lt r) hr, ret_bind]
      by_cases hacc : (m.segment r).access = .readWrite
      · simp only [hacc, ne_eq, not_true, if_false]
        refine ⟨r, ?_, hacc, ?_⟩
        · rwa [hsize] at hr
        · rw [(offset_toNat (hm.length_lt r) hr).1, hacc]
      · simp only [hacc, ne_eq, not_false_eq_true, if_true]
        exact accessFault_isExit ..

theorem read_of_overruns (hm : m.Fits (2 ^ 34)) (hsize : size.toNat < 2 ^ 63)
    (h : m.Overruns address size.toNat) : m.read address size = .crash .sliceOutOfRange := by
  obtain ⟨r, hc⟩ := covering_of_overruns hm hsize h
  simp only [read, not_low_of_overruns hsize h, if_false, hc, slice_of_wrap hm h.1 hc, crash_bind]

theorem write_of_overruns (hm : m.Fits (2 ^ 34)) (hlen : data.length < 2 ^ 63)
    (h : m.Overruns address data.length) : m.write address data = .crash .sliceOutOfRange := by
  have hsize : (UInt64.ofNat data.length).toNat = data.length := toNat_ofNat_of_lt (by omega)
  rw [← hsize] at h hlen
  obtain ⟨r, hc⟩ := covering_of_overruns hm hlen h
  simp only [write, not_low_of_overruns hlen h, if_false, hc, slice_of_wrap hm h.1 hc, crash_bind]

theorem read_returns_iff (hm : m.Fits (2 ^ 34)) (hsize : size.toNat < 2 ^ 63) :
    (m.read address size).Returns ↔ ¬ m.Overruns address size.toNat := by
  constructor
  · rintro ⟨res, hres⟩ hover
    rw [read_of_overruns hm hsize hover] at hres
    cases hres
  · intro h
    have hc := readConfined_of_not_overruns hm h
    unfold ReadConfined at hc
    split at hc
    · next hr => exact ⟨_, hr⟩
    · next hr => exact ⟨_, hr⟩
    · exact hc.elim
    · exact hc.elim

theorem write_returns_iff (hm : m.Fits (2 ^ 34)) (hlen : data.length < 2 ^ 63) :
    (m.write address data).Returns ↔ ¬ m.Overruns address data.length := by
  constructor
  · rintro ⟨res, hres⟩ hover
    rw [write_of_overruns hm hlen hover] at hres
    cases hres
  · intro h
    have hc := writeConfined_of_not_overruns hm hlen h
    unfold WriteConfined at hc
    split at hc
    · next hr => exact ⟨_, hr⟩
    · next hr => exact ⟨_, hr⟩
    · exact hc.elim
    · exact hc.elim

/-- When an access stays in its range. -/
theorem read_write_confined_iff (m : Memory) (hm : m.Fits (2 ^ 32)) (address : UInt64)
    (data : List UInt8) (hlen : data.length < 2 ^ 63) :
    (m.ReadConfined address (UInt64.ofNat data.length) ∧ m.WriteConfined address data) ↔
      ¬ m.Overruns address data.length := by
  have hsize : (UInt64.ofNat data.length).toNat = data.length := toNat_ofNat_of_lt (by omega)
  have hm : m.Fits (2 ^ 34) := hm.mono (by omega)
  constructor
  · rintro ⟨-, hwrite⟩ hover
    rw [WriteConfined, write_of_overruns hm hlen hover] at hwrite
    exact hwrite
  · intro h
    exact ⟨readConfined_of_not_overruns hm (by rwa [hsize]),
      writeConfined_of_not_overruns hm hlen h⟩

def emptyLayout : Memory where
  ro := ⟨0x10000, [], .readOnly⟩
  rw := ⟨0x20000, [], .readWrite⟩
  stack := ⟨0xFEFE0000, [], .readWrite⟩
  args := ⟨0xFEFF0000, [], .readOnly⟩

theorem emptyLayout_fits : emptyLayout.Fits (2 ^ 32) :=
  ⟨fun r => by cases r <;> decide⟩

def twoOctets : Memory := { emptyLayout with stack := ⟨0xFEFE0000, [1, 2], .readWrite⟩ }

theorem twoOctets_fits : twoOctets.Fits (2 ^ 32) :=
  ⟨fun r => by cases r <;> decide⟩

theorem read_write_confined_on_stack : twoOctets.Fits (2 ^ 32) ∧
      ((twoOctets.ReadConfined 0xFEFE0000 (UInt64.ofNat [7].length) ∧
          twoOctets.WriteConfined 0xFEFE0000 [7]) ↔ ¬ twoOctets.Overruns 0xFEFE0000 [7].length) :=
  ⟨twoOctets_fits, read_write_confined_iff twoOctets twoOctets_fits 0xFEFE0000 [7] (by decide)⟩

theorem read_at_last_address_crashes : emptyLayout.Fits (2 ^ 32) ∧
      emptyLayout.read 0xFFFFFFFFFFFFFFFF 8 = .crash .sliceOutOfRange ∧
      ¬ emptyLayout.ReadConfined 0xFFFFFFFFFFFFFFFF 8 := by
  have hread : emptyLayout.read 0xFFFFFFFFFFFFFFFF 8 = .crash .sliceOutOfRange := by decide
  refine ⟨emptyLayout_fits, hread, ?_⟩
  exact not_false

structure Sized (m : Memory) : Prop where
  address_le : ∀ r, (m.segment r).address.toNat ≤ 2 ^ 32
  length_le : ∀ r, (m.segment r).data.length ≤ 2 ^ 32 + 2 ^ 12

theorem Sized.fits (hm : m.Sized) : m.Fits (2 ^ 34) :=
  ⟨fun r => by
    have := hm.address_le r
    have := hm.length_le r
    omega⟩

theorem Fits.sized (hm : m.Fits (2 ^ 32)) : m.Sized := by
  constructor <;> intro r
  · have := hm.bound r
    omega
  · have := hm.bound r
    omega

theorem Sized.setSegment (hm : m.Sized) {seg : MemorySegment}
    (haddr : seg.address = (m.segment r).address) (hlen : seg.data.length ≤ 2 ^ 32 + 2 ^ 12) :
    (m.setSegment seg r).Sized := by
  constructor <;> intro r' <;> rw [segment_setSegment] <;> split
  · rw [haddr]
    exact hm.address_le r
  · exact hm.address_le r'
  · exact hlen
  · exact hm.length_le r'

theorem read_total (m : Memory) (address size : UInt64) :
    (m.read address size).Total fun res => ∀ e, res = .error e → e.IsExit := by
  unfold read
  split
  · simp
  · split
    · simp only [total_ret, Except.error.injEq]
      rintro e rfl
      exact accessFault_isExit ..
    · rw [total_bind]
      refine sliceOf_total.mono ?_
      intro bytes _
      split
      · simp only [total_ret, Except.error.injEq]
        rintro e rfl
        exact accessFault_isExit ..
      · simp

theorem write_total (m : Memory) (address : UInt64)
    (hlen : data.length < 2 ^ 64) :
    (m.write address data).Total fun res =>
      (∀ e, res = .error e → e.IsExit) ∧ (m.Sized → ∀ m', res = .ok m' → m'.Sized) := by
  unfold write
  simp only
  split
  · simp
  · split
    · simp only [total_ret, Except.error.injEq, reduceCtorEq, false_implies, implies_true, and_true]
      rintro e rfl
      exact accessFault_isExit ..
    · next r _ =>
      rw [total_bind]
      refine sliceOf_total.mono ?_
      rintro - ⟨hlo, hhi⟩
      split
      · simp only [total_ret, Except.error.injEq, reduceCtorEq, false_implies, implies_true,
          and_true]
        rintro e rfl
        exact accessFault_isExit ..
      · simp only [total_ret, reduceCtorEq, false_implies, implies_true, Except.ok.injEq, true_and]
        rintro hm m' rfl
        refine hm.setSegment (r := r) rfl ?_
        have hl := hm.length_le r
        rw [UInt64.toNat_add, UInt64.toNat_ofNat', Nat.mod_eq_of_lt hlen] at hlo hhi
        simp only [List.length_append, List.length_take, List.length_drop]
        omega

theorem alignToPage_toNat_le {value : UInt64} (h : value.toNat < 2 ^ 32) :
    (alignToPage value).toNat ≤ 2 ^ 32 + 2 ^ 12 := by
  unfold alignToPage
  split
  · omega
  · rw [UInt64.toNat_and, UInt64.toNat_add]
    refine Nat.le_trans Nat.and_le_left ?_
    rw [show pageSize.toNat = 2 ^ 12 from rfl]
    omega

theorem makeCheck_sbrk (hm : m.Sized) {top : UInt64} (h : ¬ m.stack.address ≤ top) :
    makeCheck 1 (alignToPage top).toNat = .ret () ∧ (alignToPage top).toNat ≤ 2 ^ 32 + 2 ^ 12 := by
  have hlt : top.toNat < 2 ^ 32 := by
    rw [UInt64.le_iff_toNat_le] at h
    have := hm.address_le .stack
    simp only [segment] at this
    omega
  have hle := alignToPage_toNat_le hlt
  exact ⟨makeCheck_of_le (by unfold maxAlloc; omega), hle⟩

theorem sbrk_returns (hm : m.Sized) (size : UInt64) : (m.sbrk size).Returns := by
  unfold sbrk
  simp only
  split
  · exact returns_ret _
  · split
    · exact returns_ret _
    · next h =>
      split
      · rw [(makeCheck_sbrk hm h).1, ret_bind]
        exact returns_ret _
      · exact returns_ret _

theorem sbrk_total (m : Memory) (size : UInt64) : (m.sbrk size).Total fun res =>
      (∀ e, res = .error e → e.IsExit) ∧ (m.Sized → ∀ m' top, res = .ok (m', top) → m'.Sized) := by
  unfold sbrk
  simp only
  split
  · simp
  · split
    · simp
    · next h =>
      split
      · rw [total_bind]
        refine makeCheck_total.mono ?_
        intro _ _
        simp only [pure_eq, total_ret, reduceCtorEq, false_implies, implies_true,
          Except.ok.injEq, Prod.mk.injEq, true_and]
        rintro hm m' top ⟨rfl, rfl⟩
        exact hm.setSegment rfl (by simpa using (makeCheck_sbrk hm h).2)
      · simp

end Memory

end Strawberry.Polkavm
