import Strawberry.Polkavm.Heap
import Strawberry.Polkavm.Program

/-!
# The memory of a standard program

The check whether all fits leaves the read-only data out, and nothing bounds the arguments.
-/

namespace Strawberry.Polkavm

open Memory

theorem toNat_alignToZone {value : UInt64} (h : value.toNat + 65536 < 2 ^ 64) :
    (alignToZone value).toNat = alignUp 65536 value.toNat :=
  toNat_alignUp (k := 16) rfl h

variable {data : List UInt8}

theorem toNat_alignToPage_length (h : data.length ≤ maxAlloc) :
    (alignToPage (UInt64.ofNat data.length)).toNat = alignUp 4096 data.length := by
  unfold maxAlloc at h
  have hlen : (UInt64.ofNat data.length).toNat = data.length := toNat_ofNat_of_lt (by omega)
  rw [toNat_alignToPage (by rw [hlen]; omega), hlen]

theorem toNat_alignToZone_length (h : data.length ≤ maxAlloc) :
    (alignToZone (UInt64.ofNat data.length)).toNat = alignUp 65536 data.length := by
  unfold maxAlloc at h
  have hlen : (UInt64.ofNat data.length).toNat = data.length := toNat_ofNat_of_lt (by omega)
  rw [toNat_alignToZone (by rw [hlen]; omega), hlen]

theorem copySized_eq {size : UInt64} (h : data.length ≤ size.toNat) :
    copySized data size = data ++ List.replicate (size.toNat - data.length) 0 := by
  rw [copySized, List.take_of_length_le h]

theorem copySized_pages (h : data.length ≤ maxAlloc) :
    copySized data (alignToPage (UInt64.ofNat data.length)) =
      data ++ List.replicate (alignUp 4096 data.length - data.length) 0 := by
  have hpages := toNat_alignToPage_length h
  have hle := le_alignUp (u := 4096) (by decide) data.length
  rw [copySized_eq (by rwa [hpages]), hpages]

def checkedSize (rwData : List UInt8) (stack : UInt32) (pages : UInt16) : Nat :=
  5 * 65536 + alignUp 65536 (rwData.length + pages.toNat * 4096) +
    alignUp 65536 stack.toNat + 2 ^ 24

def layoutSize (roData rwData : List UInt8) (stack : UInt32) (pages : UInt16) : Nat :=
  checkedSize rwData stack pages + alignUp 65536 roData.length

structure LaidOut (roData rwData argsData : List UInt8) (stack : UInt32)
    (pages : UInt16) (m : Memory) : Prop where
  ro_address : m.ro.address.toNat = 65536
  ro_data : m.ro.data = roData ++ List.replicate (alignUp 4096 roData.length - roData.length) 0
  rw_address : m.rw.address.toNat = 2 * 65536 + alignUp 65536 roData.length
  rw_data : m.rw.data = rwData ++ List.replicate
    (alignUp 4096 rwData.length + pages.toNat * 4096 - rwData.length) 0
  stack_address : m.stack.address.toNat = 2 ^ 32 - 2 * 65536 - 2 ^ 24 - alignUp 4096 stack.toNat
  stack_data : m.stack.data = List.replicate (alignUp 4096 stack.toNat) 0
  args_address : m.args.address.toNat = 2 ^ 32 - 65536 - 2 ^ 24
  args_data : m.args.data =
    argsData ++ List.replicate (alignUp 4096 argsData.length - argsData.length) 0

def GuardZone (seg seg' : MemorySegment) : Prop :=
  alignUp 65536 (seg.address.toNat + seg.data.length) + 65536 ≤ seg'.address.toNat / 65536 * 65536

structure StandardLayout (roData rwData argsData : List UInt8) (stack : UInt32)
    (pages : UInt16) (m : Memory) : Prop where
  laidOut : LaidOut roData rwData argsData stack pages m
  disjoint : m.Disjoint
  within : ∀ r, 2 ^ 16 ≤ (m.segment r).address.toNat ∧
    (m.segment r).address.toNat + (m.segment r).data.length ≤ 2 ^ 32
  ro_rw : GuardZone m.ro m.rw
  rw_stack : GuardZone m.rw m.stack
  stack_args : GuardZone m.stack m.args
  args_below : m.args.address.toNat + m.args.data.length ≤ addressReturnToHost.toNat

section

variable {roData rwData argsData : List UInt8} {stack : UInt32} {pages : UInt16}
  {m : Memory}

theorem toNat_initialPages (pages : UInt16) :
    (pages.toUInt64 * pageSize).toNat = pages.toNat * 4096 := by
  have hlt := pages.toNat_lt
  rw [UInt64.toNat_mul, UInt16.toNat_toUInt64, show pageSize.toNat = 4096 from rfl]
  omega

theorem checkedSize_eq (hrw : rwData.length ≤ maxAlloc) :
    5 * memoryZoneSize.toNat + (alignToZone (UInt64.ofNat rwData.length +
      pages.toUInt64 * pageSize)).toNat + (alignToZone stack.toUInt64).toNat +
      inputDataSize = checkedSize rwData stack pages := by
  have hpages := pages.toNat_lt
  have hstack := stack.toNat_lt
  have hlen : (UInt64.ofNat rwData.length).toNat = rwData.length :=
    toNat_ofNat_of_lt (by unfold maxAlloc at hrw; omega)
  have hsum : (UInt64.ofNat rwData.length + pages.toUInt64 * pageSize).toNat =
      rwData.length + pages.toNat * 4096 := by
    unfold maxAlloc at hrw
    rw [toNat_add_of_lt (by rw [hlen, toNat_initialPages]; omega), hlen, toNat_initialPages]
  have hstack64 : stack.toUInt64.toNat = stack.toNat := UInt32.toNat_toUInt64 ..
  unfold maxAlloc at hrw
  rw [toNat_alignToZone (by rw [hsum]; omega), toNat_alignToZone (by rw [hstack64]; omega), hsum,
    hstack64]
  rfl

theorem initializeMemory_error_iff (hrw : rwData.length ≤ maxAlloc) :
    (∃ e, initializeMemory roData rwData argsData stack.toUInt64 pages.toUInt64 =
      .error e) ↔ 2 ^ 32 < checkedSize rwData stack pages := by
  rw [initializeMemory]
  simp only [checkedSize_eq hrw, addressSpaceSize]
  split
  · next h => exact iff_of_true ⟨_, rfl⟩ h
  · next h =>
    refine iff_of_false ?_ h
    rintro ⟨e, he⟩
    cases he

theorem laidOut_of_ok (hro : roData.length ≤ maxAlloc) (hrw : rwData.length ≤ maxAlloc)
    (hargs : argsData.length ≤ maxAlloc)
    (h : initializeMemory roData rwData argsData stack.toUInt64 pages.toUInt64 =
      .ok m) :
    checkedSize rwData stack pages ≤ 2 ^ 32 ∧ LaidOut roData rwData argsData stack pages m := by
  rw [initializeMemory] at h
  simp only [checkedSize_eq hrw, addressSpaceSize] at h
  split at h
  · cases h
  · next hcheck =>
    cases h
    have hpages := toNat_initialPages pages
    have hstackLt := stack.toNat_lt
    have hstack64 : stack.toUInt64.toNat = stack.toNat := UInt32.toNat_toUInt64 ..
    have hstackPages : (alignToPage stack.toUInt64).toNat = alignUp 4096 stack.toNat := by
      rw [toNat_alignToPage (by rw [hstack64]; omega), hstack64]
    have hroZones := toNat_alignToZone_length hro
    have hrwPages := toNat_alignToPage_length hrw
    have hrwLe := le_alignUp (u := 4096) (by decide) rwData.length
    unfold checkedSize alignUp at hcheck
    have hrwAddress : (2 * memoryZoneSize + alignToZone (UInt64.ofNat roData.length)).toNat =
        2 * 65536 + alignUp 65536 roData.length := by
      have hlt := alignUp_lt (u := 65536) (by decide) roData.length
      have hzone : (2 * memoryZoneSize).toNat = 2 * 65536 := rfl
      unfold maxAlloc at hro
      rw [toNat_add_of_lt (by omega), hzone, hroZones]
    have hrwSize : (alignToPage (UInt64.ofNat rwData.length) + pages.toUInt64 * pageSize).toNat =
        alignUp 4096 rwData.length + pages.toNat * 4096 := by
      have hlt := alignUp_lt (u := 4096) (by decide) rwData.length
      rw [toNat_add_of_lt (by omega), hrwPages, hpages]
    have hrwData : copySized rwData (alignToPage (UInt64.ofNat rwData.length) +
        pages.toUInt64 * pageSize) = rwData ++ List.replicate
          (alignUp 4096 rwData.length + pages.toNat * 4096 - rwData.length) 0 := by
      rw [copySized_eq (by omega), hrwSize]
    have hstackAddress : (stackAddressHigh - alignToPage stack.toUInt64).toNat =
        2 ^ 32 - 2 * 65536 - 2 ^ 24 - alignUp 4096 stack.toNat := by
      have hhigh : stackAddressHigh.toNat = 2 ^ 32 - 2 * 65536 - 2 ^ 24 := rfl
      have hle : alignToPage stack.toUInt64 ≤ stackAddressHigh := by
        rw [UInt64.le_iff_toNat_le, hstackPages, hhigh, alignUp]
        omega
      rw [UInt64.toNat_sub_of_le _ _ hle, hhigh, hstackPages]
    refine ⟨by unfold checkedSize alignUp; omega, rfl, copySized_pages hro, hrwAddress, hrwData,
      hstackAddress, ?_, rfl, copySized_pages hargs⟩
    rw [hstackPages]

theorem LaidOut.lengths (h : LaidOut roData rwData argsData stack pages m) :
    m.ro.data.length = alignUp 4096 roData.length ∧
      m.rw.data.length = alignUp 4096 rwData.length + pages.toNat * 4096 ∧
      m.stack.data.length = alignUp 4096 stack.toNat ∧
      m.args.data.length = alignUp 4096 argsData.length := by
  have hro := le_alignUp (u := 4096) (by decide) roData.length
  have hrw := le_alignUp (u := 4096) (by decide) rwData.length
  have hargs := le_alignUp (u := 4096) (by decide) argsData.length
  rw [h.ro_data, h.rw_data, h.stack_data, h.args_data]
  simp only [List.length_append, List.length_replicate, true_and]
  omega

structure Zoned (roData rwData : List UInt8) (stack : UInt32) (pages : UInt16)
    (m : Memory) : Prop where
  ro_end : alignUp 65536 (m.ro.address.toNat + m.ro.data.length) =
    65536 + alignUp 65536 roData.length
  rw_start : m.rw.address.toNat / 65536 * 65536 = 2 * 65536 + alignUp 65536 roData.length
  rw_end : alignUp 65536 (m.rw.address.toNat + m.rw.data.length) =
    2 * 65536 + alignUp 65536 roData.length + alignUp 65536 (rwData.length + pages.toNat * 4096)
  stack_start : m.stack.address.toNat / 65536 * 65536 =
    2 ^ 32 - 2 * 65536 - 2 ^ 24 - alignUp 65536 stack.toNat
  stack_end : m.stack.address.toNat + m.stack.data.length = 2 ^ 32 - 2 * 65536 - 2 ^ 24

theorem LaidOut.zoned (h : LaidOut roData rwData argsData stack pages m)
    (hchecked : checkedSize rwData stack pages ≤ 2 ^ 32) :
    Zoned roData rwData stack pages m := by
  obtain ⟨hro, hrw, hstack, -⟩ := h.lengths
  have hmod : (2 * 65536 + alignUp 65536 roData.length) % 65536 = 0 := by
    have := alignUp_mod 65536 roData.length
    omega
  have hpages : alignUp 4096 rwData.length + pages.toNat * 4096 =
      alignUp 4096 (rwData.length + pages.toNat * 4096) :=
    (alignUp_add_mul (by decide) _ _).symm
  have hstackLe : alignUp 4096 stack.toNat ≤ 2 ^ 32 - 2 * 65536 - 2 ^ 24 := by
    have hle : alignUp 4096 stack.toNat ≤ alignUp 65536 stack.toNat := by
      rw [← alignUp_alignUp (s := 4096) (l := 65536) (by decide) (by decide) (by decide)]
      exact le_alignUp (by decide) _
    unfold checkedSize at hchecked
    omega
  constructor
  · rw [hro, h.ro_address, alignUp_add_of_mod (by decide) (by decide),
      alignUp_alignUp (by decide) (by decide) (by decide)]
  · rw [h.rw_address]
    exact Nat.div_mul_cancel (Nat.dvd_of_mod_eq_zero hmod)
  · rw [hrw, h.rw_address, alignUp_add_of_mod (by decide) hmod, hpages,
      alignUp_alignUp (by decide) (by decide) (by decide)]
  · rw [h.stack_address, sub_div_mul (by decide) (by decide) hstackLe,
      alignUp_alignUp (by decide) (by decide) (by decide)]
  · rw [hstack, h.stack_address]
    omega

theorem GuardZone.le {seg seg' : MemorySegment} (h : GuardZone seg seg') :
    seg.address.toNat + seg.data.length ≤ seg'.address.toNat := by
  have hle := le_alignUp (u := 65536) (by decide) (seg.address.toNat + seg.data.length)
  unfold GuardZone at h
  omega

theorem disjoint_of_guardZones (h₁ : GuardZone m.ro m.rw) (h₂ : GuardZone m.rw m.stack)
    (h₃ : GuardZone m.stack m.args) : m.Disjoint := by
  have hle₁ := h₁.le
  have hle₂ := h₂.le
  have hle₃ := h₃.le
  apply disjoint_of_ends
  intro r r' hne
  cases r <;> cases r' <;> simp only [Memory.segment, ne_eq, not_true] at hne ⊢ <;> omega

theorem args_fit_iff : alignUp 4096 argsData.length ≤ 2 ^ 24 ↔ argsData.length ≤ 2 ^ 24 :=
  ⟨Nat.le_trans (le_alignUp (by decide) _), fun h => alignUp_le_of_mod (by decide) h (by decide)⟩

theorem standardLayout_iff (h : LaidOut roData rwData argsData stack pages m)
    (hchecked : checkedSize rwData stack pages ≤ 2 ^ 32) :
    StandardLayout roData rwData argsData stack pages m ↔
      layoutSize roData rwData stack pages ≤ 2 ^ 32 ∧ argsData.length ≤ 2 ^ 24 := by
  obtain ⟨-, -, -, hargs⟩ := h.lengths
  have hz := h.zoned hchecked
  have hargsAddress := h.args_address
  have hbelow : m.args.address.toNat + m.args.data.length ≤ addressReturnToHost.toNat ↔
      argsData.length ≤ 2 ^ 24 := by
    rw [← args_fit_iff, hargs, hargsAddress, show addressReturnToHost.toNat = 2 ^ 32 - 65536 from rfl]
    omega
  have hguard : GuardZone m.rw m.stack ↔ layoutSize roData rwData stack pages ≤ 2 ^ 32 := by
    rw [GuardZone, hz.rw_end, hz.stack_start]
    unfold layoutSize
    unfold checkedSize at hchecked ⊢
    omega
  constructor
  · intro hs
    exact ⟨hguard.mp hs.rw_stack, hbelow.mp hs.args_below⟩
  · rintro ⟨hsize, hinput⟩
    have hro_rw : GuardZone m.ro m.rw := by
      rw [GuardZone, hz.ro_end, hz.rw_start]
      omega
    have hrw_stack := hguard.mpr hsize
    have hstack_args : GuardZone m.stack m.args := by
      rw [GuardZone, hz.stack_end, hargsAddress]
      decide
    have hargs_below := hbelow.mpr hinput
    refine ⟨h, disjoint_of_guardZones hro_rw hrw_stack hstack_args, ?_, hro_rw, hrw_stack,
      hstack_args, hargs_below⟩
    have hroAddress := h.ro_address
    have hreturn : addressReturnToHost.toNat = 2 ^ 32 - 65536 := rfl
    have hle₁ := hro_rw.le
    have hle₂ := hrw_stack.le
    have hle₃ := hstack_args.le
    intro r
    cases r <;> simp only [Memory.segment] <;> omega

end

/-- When the memory is laid out as specified. -/
theorem standard_layout_iff (roData rwData argsData : List UInt8)
    (hro : roData.length ≤ maxAlloc) (hrw : rwData.length ≤ maxAlloc)
    (hargs : argsData.length ≤ maxAlloc) (stack : UInt32) (pages : UInt16) :
    (∀ m, initializeMemory roData rwData argsData stack.toUInt64 pages.toUInt64 =
        .ok m → StandardLayout roData rwData argsData stack pages m) ↔
      2 ^ 32 < checkedSize rwData stack pages ∨
        layoutSize roData rwData stack pages ≤ 2 ^ 32 ∧ argsData.length ≤ 2 ^ 24 := by
  cases hres : initializeMemory roData rwData argsData stack.toUInt64 pages.toUInt64 with
  | error e =>
    refine iff_of_true (by simp) (.inl ?_)
    exact (initializeMemory_error_iff hrw).mp ⟨e, hres⟩
  | ok m =>
    obtain ⟨hchecked, hlaid⟩ := laidOut_of_ok hro hrw hargs hres
    rw [or_iff_right (by omega), ← standardLayout_iff hlaid hchecked]
    simp

theorem standard_layout_of_small_program :
    ∃ m, initializeMemory [1, 2] [3] [4] (4096 : UInt32).toUInt64 (1 : UInt16).toUInt64 = .ok m ∧
      StandardLayout [1, 2] [3] [4] 4096 1 m := by
  cases hres : initializeMemory [1, 2] [3] [4] (4096 : UInt32).toUInt64 (1 : UInt16).toUInt64 with
  | error e => exact absurd ((initializeMemory_error_iff (by decide)).mp ⟨e, hres⟩) (by decide)
  | ok m =>
    exact ⟨m, rfl, (standard_layout_iff [1, 2] [3] [4] (by decide) (by decide) (by decide) 4096 1).mpr
      (.inr ⟨by decide, by decide⟩) m hres⟩

theorem read_write_data_on_the_stack :
    ∃ m, initializeMemory (List.replicate 65537 0) [] [] (0xFEFA0000 : UInt32).toUInt64
        (1 : UInt16).toUInt64 = .ok m ∧
      m.rw.address = 0x40000 ∧ m.stack.address = 0x40000 ∧ ¬ m.Disjoint := by
  have hlength : (List.replicate 65537 (0 : UInt8)).length = 65537 := List.length_replicate
  cases hres : initializeMemory (List.replicate 65537 0) [] [] (0xFEFA0000 : UInt32).toUInt64
      (1 : UInt16).toUInt64 with
  | error e =>
    have hover := (initializeMemory_error_iff (by decide)).mp ⟨e, hres⟩
    exact absurd hover (by decide)
  | ok m =>
    obtain ⟨-, h⟩ := laidOut_of_ok (by rw [hlength]; decide) (by decide) (by decide) hres
    obtain ⟨-, hrwLength, hstackLength, -⟩ := h.lengths
    have hrw : m.rw.address.toNat = 0x40000 := by
      rw [h.rw_address, hlength]
      rfl
    have hstack : m.stack.address.toNat = 0x40000 := by
      rw [h.stack_address]
      rfl
    refine ⟨m, rfl, UInt64.toNat_inj.mp hrw, UInt64.toNat_inj.mp hstack, ?_⟩
    intro hd
    refine hd .rw .stack (by decide) 0x40000 ?_ ?_
    · rw [Memory.segment, MemorySegment.Contains, hrw, hrwLength]
      decide
    · rw [Memory.segment, MemorySegment.Contains, hstack, hstackLength]
      decide

end Strawberry.Polkavm
