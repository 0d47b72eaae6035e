import Strawberry.Polkavm.Store

/-!
# The heap

`Sbrk` puts a new slice of zeros in the place of the read-write data: the old heap is lost.
-/

namespace Strawberry.Polkavm

theorem toNat_alignToPage {value : UInt64} (h : value.toNat + 4096 < 2 ^ 64) :
    (alignToPage value).toNat = alignUp 4096 value.toNat :=
  toNat_alignUp (k := 12) rfl h

namespace Memory

def Reads (m : Memory) (a : Nat) (b : UInt8) : Prop :=
  ∃ address : UInt64, address.toNat = a ∧ m.read address 1 = .ret (.ok [b])

def Writable (m : Memory) (a : Nat) : Prop :=
  ∃ address : UInt64, address.toNat = a ∧ ∃ b m', m.write address [b] = .ret (.ok m')

variable {m m' : Memory} {address : UInt64} {a size : Nat} {r : Region}

theorem Sized.sliced (hm : m.Sized) : m.Sliced := by
  intro r
  have := hm.length_le r
  omega

theorem Sized.lt_of_contains (hm : m.Sized) (h : (m.segment r).Contains a) : a < 2 ^ 34 := by
  have hbound := hm.fits.bound r
  have hlt := h.2
  omega

theorem read_of_forbidden {size : UInt64} (h : address < 0x10000) :
    m.read address size = .ret (.error (.panic .forbiddenMemoryAccess)) := by
  simp [read, h]

theorem write_of_forbidden {data : List UInt8} (h : address < 0x10000) :
    m.write address data = .ret (.error (.panic .forbiddenMemoryAccess)) := by
  simp [write, h]

theorem not_forbidden_iff : ¬ address < 0x10000 ↔ 2 ^ 16 ≤ address.toNat := by
  rw [UInt64.lt_iff_toNat_lt, Nat.not_lt]
  rfl

theorem window_one {data : List UInt8} {k : Nat} {b : UInt8} :
    window data k 1 = [b] ↔ data[k]? = some b := by
  have hget := getElem?_window data k 1 0
  rw [if_pos Nat.one_pos, Nat.add_zero] at hget
  constructor
  · intro h
    rw [← hget, h]
    rfl
  · intro h
    have hlt : k < data.length := (List.getElem?_eq_some_iff.mp h).1
    obtain ⟨c, hc⟩ := List.length_eq_one_iff.mp (length_window (Nat.succ_le_of_lt hlt))
    rw [hc, List.getElem?_cons_zero, h] at hget
    rw [hc, Option.some.inj hget]

theorem reads_iff (hm : m.Sized) (hd : m.Disjoint) {b : UInt8} :
    m.Reads a b ↔ 2 ^ 16 ≤ a ∧ ∃ r, (m.segment r).Contains a ∧
      (m.segment r).access ≠ .inaccessible ∧
      (m.segment r).data[a - (m.segment r).address.toNat]? = some b := by
  constructor
  · rintro ⟨address, rfl, h⟩
    have hallowed : ¬ address < 0x10000 := by
      intro hlow
      rw [read_of_forbidden hlow] at h
      cases h
    have hover : ¬ m.Overruns address (1 : UInt64).toNat := by
      intro hover
      rw [read_of_overruns hm.fits (by decide) hover] at h
      cases h
    have hconfined := readConfined_of_not_overruns hm.fits hover
    rw [ReadConfined, h] at hconfined
    obtain ⟨r, hholds, haccess, hbytes⟩ := hconfined
    exact ⟨not_forbidden_iff.mp hallowed, r, hholds.contains Nat.one_pos, haccess,
      window_one.mp hbytes.symm⟩
  · rintro ⟨hge, r, hin, haccess, hb⟩
    have hlt := hm.lt_of_contains hin
    have hto : (UInt64.ofNat a).toNat = a := toNat_ofNat_of_lt (by omega)
    refine ⟨UInt64.ofNat a, hto, ?_⟩
    have hlow : (UInt64.ofNat a).toNat + (1 : UInt64).toNat ≤ 2 ^ 63 := by
      rw [hto, show (1 : UInt64).toNat = 1 from rfl]
      omega
    have hholds : m.Holds r (UInt64.ofNat a) (1 : UInt64).toNat := by
      rw [Holds, hto]
      exact ⟨hin.1, hin.2⟩
    have hallowed : ¬ UInt64.ofNat a < 0x10000 := by rwa [not_forbidden_iff, hto]
    rw [read_eq hm.sliced hlow, readRange, if_neg hallowed,
      covering_of_holds hm.sliced hd hlow Nat.one_pos hholds]
    simp only [haccess, if_false]
    rw [hto, show (1 : UInt64).toNat = 1 from rfl, window_one.mpr hb]

theorem writable_iff (hm : m.Sized) (hd : m.Disjoint) :
    m.Writable a ↔ 2 ^ 16 ≤ a ∧ ∃ r, (m.segment r).Contains a ∧
      (m.segment r).access = .readWrite := by
  constructor
  · rintro ⟨address, rfl, b, m', h⟩
    have hallowed : ¬ address < 0x10000 := by
      intro hlow
      rw [write_of_forbidden hlow] at h
      cases h
    have hover : ¬ m.Overruns address [b].length := by
      intro hover
      rw [write_of_overruns hm.fits (by simp) hover] at h
      cases h
    have hconfined := writeConfined_of_not_overruns hm.fits (by simp) hover
    rw [WriteConfined, h] at hconfined
    obtain ⟨r, hholds, haccess, -⟩ := hconfined
    exact ⟨not_forbidden_iff.mp hallowed, r, hholds.contains (k := 0) Nat.one_pos, haccess⟩
  · rintro ⟨hge, r, hin, haccess⟩
    have hlt := hm.lt_of_contains hin
    have hto : (UInt64.ofNat a).toNat = a := toNat_ofNat_of_lt (by omega)
    have hlow : (UInt64.ofNat a).toNat + [(0 : UInt8)].length ≤ 2 ^ 63 := by
      rw [hto, List.length_singleton]
      omega
    have hsize : (UInt64.ofNat [(0 : UInt8)].length).toNat = 1 := size_toNat_of_low hlow
    have hholds : m.Holds r (UInt64.ofNat a) (UInt64.ofNat [(0 : UInt8)].length).toNat := by
      rw [Holds, hto, hsize]
      exact ⟨hin.1, hin.2⟩
    have hallowed : ¬ UInt64.ofNat a < 0x10000 := by rwa [not_forbidden_iff, hto]
    refine ⟨UInt64.ofNat a, hto, 0, ?_⟩
    rw [write_eq hm.sliced hlow, writeRange]
    simp only [hallowed, if_false]
    rw [covering_of_holds hm.sliced hd (by rwa [hsize]) (by rw [hsize]; exact Nat.one_pos) hholds]
    simp only [haccess, ne_eq, not_true, if_false]
    exact ⟨_, rfl⟩

def heapTop (m : Memory) : Nat := m.rw.address.toNat + m.rw.data.length

def grown (m : Memory) (size : Nat) : Memory :=
  m.setSegment { m.rw with data := List.replicate (alignUp 4096 (m.heapTop + size)) 0 } .rw

theorem heapTop_lt (hm : m.Sized) : m.heapTop < 2 ^ 34 := by
  have haddress := hm.address_le .rw
  have hlen := hm.length_le .rw
  simp only [segment] at haddress hlen
  unfold heapTop
  omega

theorem heapPointer_toNat (hm : m.Sized) : (m.rw.address + m.rw.size).toNat = m.heapTop :=
  hm.fits.end_toNat .rw

theorem newHeapPointer_toNat (hm : m.Sized) (size : UInt64) :
    (m.rw.address + m.rw.size + size).toNat = (m.heapTop + size.toNat) % 2 ^ 64 := by
  rw [UInt64.toNat_add, heapPointer_toNat hm]

def SbrkRefused (m : Memory) (size : UInt64) : Prop :=
  m.stack.address.toNat ≤ (m.heapTop + size.toNat) % 2 ^ 64

theorem sbrk_cases (hm : m.Sized) (size : UInt64) :
    (size = 0 ∧ m.sbrk size = .ret (.ok (m, m.rw.address + m.rw.size))) ∨
    (size ≠ 0 ∧ m.SbrkRefused size ∧ ∃ e, m.sbrk size = .ret (.error e)) ∨
    (size ≠ 0 ∧ ¬ m.SbrkRefused size ∧ m.heapTop + size.toNat < 2 ^ 64 ∧
      ∃ top, m.sbrk size = .ret (.ok (m.grown size.toNat, top))) ∨
    (size ≠ 0 ∧ ¬ m.SbrkRefused size ∧ 2 ^ 64 ≤ m.heapTop + size.toNat ∧
      m.sbrk size = .ret (.ok (m, m.rw.address + m.rw.size))) := by
  have hnew := newHeapPointer_toNat hm size
  have hsize := size.toNat_lt
  have hrefused : m.stack.address ≤ m.rw.address + m.rw.size + size ↔ m.SbrkRefused size := by
    rw [UInt64.le_iff_toNat_le, hnew, SbrkRefused]
  by_cases hzero : size = 0
  · simp [sbrk, hzero]
  by_cases hstack : m.SbrkRefused size
  · refine .inr (.inl ⟨hzero, hstack, ?_⟩)
    simp [sbrk, hzero, hrefused.mpr hstack]
  have hpos : 0 < size.toNat := by
    rw [Nat.pos_iff_ne_zero]
    intro h
    exact hzero (UInt64.toNat_inj.mp h)
  have hgrows : m.rw.address + m.rw.size < m.rw.address + m.rw.size + size ↔
      m.heapTop + size.toNat < 2 ^ 64 := by
    rw [UInt64.lt_iff_toNat_lt, hnew, heapPointer_toNat hm]
    omega
  by_cases hwrap : m.heapTop + size.toNat < 2 ^ 64
  · refine .inr (.inr (.inl ⟨hzero, hstack, hwrap, ?_⟩))
    obtain ⟨hmake, -⟩ := makeCheck_sbrk hm (hrefused.not.mpr hstack)
    have hstackLe := hm.address_le .stack
    simp only [segment] at hstackLe
    have haligned : (alignToPage (m.rw.address + m.rw.size + size)).toNat =
        alignUp 4096 (m.heapTop + size.toNat) := by
      rw [SbrkRefused, Nat.mod_eq_of_lt hwrap] at hstack
      rw [toNat_alignToPage (by rw [hnew]; omega), hnew, Nat.mod_eq_of_lt hwrap]
    rw [haligned] at hmake
    simp only [sbrk, hzero, if_false, hrefused.not.mpr hstack, hgrows.mpr hwrap, if_true, haligned,
      hmake, ret_bind]
    exact ⟨_, rfl⟩
  · refine .inr (.inr (.inr ⟨hzero, hstack, by omega, ?_⟩))
    simp only [sbrk, hzero, if_false, hrefused.not.mpr hstack, hgrows.not.mpr hwrap]

structure HeapGrown (m m' : Memory) (size : Nat) : Prop where
  contents : ∀ a b, m.Reads a b → m'.Reads a b
  writable : ∀ a, m.heapTop ≤ a → a < m.heapTop + size → m'.Writable a
  disjoint : m'.Disjoint
  growth : m'.rw.data.length < m.rw.data.length + size + 4096

theorem heapGrown_zero (hd : m.Disjoint) : HeapGrown m m 0 :=
  ⟨fun _ _ h => h, fun _ hle hlt => by omega, hd, by omega⟩

structure GrowsInPlace (m : Memory) (size : Nat) : Prop where
  access : m.rw.access = .readWrite
  above : 2 ^ 16 ≤ m.heapTop
  zero : ∀ k b, m.rw.data[k]? = some b → 2 ^ 16 ≤ m.rw.address.toNat + k → b = 0
  start : alignUp 4096 (m.heapTop + size) < m.rw.data.length + size + 4096
  apart : ∀ r, r ≠ .rw → ∀ a, (m.segment r).Contains a →
    a < m.rw.address.toNat ∨ m.rw.address.toNat + alignUp 4096 (m.heapTop + size) ≤ a

section

theorem segment_grown (m : Memory) (size : Nat) (r : Region) :
    (m.grown size).segment r = if r = .rw then
      { m.rw with data := List.replicate (alignUp 4096 (m.heapTop + size)) 0 } else m.segment r :=
  segment_setSegment ..

theorem contains_grown_rw : ((m.grown size).segment .rw).Contains a ↔ m.rw.address.toNat ≤ a ∧
      a < m.rw.address.toNat + alignUp 4096 (m.heapTop + size) := by
  rw [segment_grown, if_pos rfl, MemorySegment.Contains, List.length_replicate]

theorem contains_grown_of_ne (hr : r ≠ .rw) :
    ((m.grown size).segment r).Contains a ↔ (m.segment r).Contains a := by
  rw [segment_grown, if_neg hr]

theorem sized_grown (hm : m.Sized) (h : m.heapTop + size < 2 ^ 32) : (m.grown size).Sized := by
  have hlt := alignUp_lt (u := 4096) (by decide) (m.heapTop + size)
  refine hm.setSegment rfl ?_
  rw [List.length_replicate]
  omega

theorem disjoint_grown_iff (hd : m.Disjoint) :
    (m.grown size).Disjoint ↔ ∀ r, r ≠ .rw → ∀ a, (m.segment r).Contains a →
      a < m.rw.address.toNat ∨ m.rw.address.toNat + alignUp 4096 (m.heapTop + size) ≤ a := by
  constructor
  · intro h r hr a ha
    have hnot := h r .rw hr a ((contains_grown_of_ne hr).mpr ha)
    rw [contains_grown_rw] at hnot
    omega
  · intro h r r' hne a ha ha'
    by_cases hr : r = .rw
    · subst hr
      rw [contains_grown_rw] at ha
      rw [contains_grown_of_ne (Ne.symm hne)] at ha'
      have := h r' (Ne.symm hne) a ha'
      omega
    · rw [contains_grown_of_ne hr] at ha
      by_cases hr' : r' = .rw
      · subst hr'
        rw [contains_grown_rw] at ha'
        have := h r hr a ha
        omega
      · rw [contains_grown_of_ne hr'] at ha'
        exact hd r r' hne a ha ha'

theorem growsInPlace_of_heapGrown (hm : m.Sized) (hd : m.Disjoint) (hpos : 0 < size)
    (hlow : m.heapTop + size < 2 ^ 32) (h : HeapGrown m (m.grown size) size) :
    GrowsInPlace m size := by
  have hm' := sized_grown hm hlow
  have hle := le_alignUp (u := 4096) (by decide) (m.heapTop + size)
  have htop : ((m.grown size).segment .rw).Contains m.heapTop := by
    rw [contains_grown_rw]
    unfold heapTop at *
    omega
  obtain ⟨habove, r, hin, haccess⟩ :=
    (writable_iff hm' h.disjoint).mp (h.writable m.heapTop (Nat.le_refl _) (by omega))
  have hr : r = .rw := h.disjoint.eq_of_contains hin htop
  rw [hr, segment_grown, if_pos rfl] at haccess
  refine ⟨haccess, habove, ?_, ?_, (disjoint_grown_iff hd).mp h.disjoint⟩
  · intro k b hk hge
    have hklt : k < m.rw.data.length := (List.getElem?_eq_some_iff.mp hk).1
    have hreads : m.Reads (m.rw.address.toNat + k) b := by
      refine (reads_iff hm hd).mpr ⟨hge, .rw, ⟨Nat.le_add_right _ _, ?_⟩, ?_, ?_⟩
      · exact Nat.add_lt_add_left hklt _
      · rw [segment, haccess]
        decide
      · rwa [segment, Nat.add_sub_cancel_left]
    obtain ⟨-, r', hin', -, hb⟩ := (reads_iff hm' h.disjoint).mp (h.contents _ _ hreads)
    have hnew : ((m.grown size).segment .rw).Contains (m.rw.address.toNat + k) := by
      rw [contains_grown_rw]
      unfold heapTop at *
      omega
    rw [h.disjoint.eq_of_contains hin' hnew, segment_grown, if_pos rfl] at hb
    simp only [List.getElem?_replicate] at hb
    split at hb
    · exact (Option.some.inj hb).symm
    · cases hb
  · have hgrowth := h.growth
    have hrw := segment_grown m size .rw
    simp only [segment, if_true] at hrw
    rwa [hrw, List.length_replicate] at hgrowth

theorem heapGrown_of_growsInPlace (hm : m.Sized) (hd : m.Disjoint)
    (hlow : m.heapTop + size < 2 ^ 32) (h : GrowsInPlace m size) :
    HeapGrown m (m.grown size) size := by
  have hm' := sized_grown hm hlow
  have hle := le_alignUp (u := 4096) (by decide) (m.heapTop + size)
  have hd' := (disjoint_grown_iff hd).mpr h.apart
  refine ⟨?_, ?_, hd', ?_⟩
  · intro a b hreads
    obtain ⟨hge, r, hin, haccess, hb⟩ := (reads_iff hm hd).mp hreads
    refine (reads_iff hm' hd').mpr ⟨hge, r, ?_⟩
    rw [segment_grown]
    split
    · next hr =>
      subst hr
      simp only [segment] at hin haccess hb
      obtain ⟨hlo, hhi⟩ := hin
      rw [h.zero (a - m.rw.address.toNat) b hb (by omega)]
      have hlt : a - m.rw.address.toNat < alignUp 4096 (m.heapTop + size) := by
        have htop : m.rw.data.length ≤ m.heapTop := Nat.le_add_left _ _
        omega
      refine ⟨⟨hlo, ?_⟩, haccess, ?_⟩
      · rw [List.length_replicate]
        change a < m.rw.address.toNat + _
        omega
      · rw [List.getElem?_replicate, if_pos hlt]
    · exact ⟨hin, haccess, hb⟩
  · intro a hlo hhi
    refine (writable_iff hm' hd').mpr ⟨Nat.le_trans h.above hlo, .rw, ?_, ?_⟩
    · rw [contains_grown_rw]
      unfold heapTop at *
      omega
    · exact h.access
  · have hrw := segment_grown m size .rw
    simp only [segment, if_true] at hrw
    rw [hrw, List.length_replicate]
    exact h.start

end

theorem sbrk_grows_iff (hm : m.Sized) (hd : m.Disjoint) (size : UInt64) :
    (∀ m' top, m.sbrk size = .ret (.ok (m', top)) → HeapGrown m m' size.toNat) ↔
      size = 0 ∨ m.SbrkRefused size ∨
        m.heapTop + size.toNat < 2 ^ 64 ∧ GrowsInPlace m size.toNat := by
  have hstackLe := hm.address_le .stack
  simp only [segment] at hstackLe
  rcases sbrk_cases hm size with ⟨hzero, hres⟩ | ⟨-, hrefused, e, hres⟩ |
    ⟨hzero, hrefused, hwrap, top, hres⟩ | ⟨hzero, hrefused, hwrap, hres⟩
  · refine iff_of_true ?_ (.inl hzero)
    intro m' top h
    rw [hres] at h
    cases h
    rw [hzero]
    exact heapGrown_zero hd
  · refine iff_of_true ?_ (.inr (.inl hrefused))
    intro m' top h
    rw [hres] at h
    cases h
  · have hpos : 0 < size.toNat := by
      rw [Nat.pos_iff_ne_zero]
      intro h
      exact hzero (UInt64.toNat_inj.mp h)
    have hlow : m.heapTop + size.toNat < 2 ^ 32 := by
      rw [SbrkRefused, Nat.mod_eq_of_lt hwrap] at hrefused
      omega
    constructor
    · intro h
      exact .inr (.inr ⟨hwrap, growsInPlace_of_heapGrown hm hd hpos hlow (h _ top hres)⟩)
    · rintro (h | h | ⟨-, h⟩) m' top' hret
      · exact absurd h hzero
      · exact absurd h hrefused
      · rw [hres] at hret
        cases hret
        exact heapGrown_of_growsInPlace hm hd hlow h
  · constructor
    · intro h
      have htop := heapTop_lt hm
      have hwritable := (h m _ hres).writable (2 ^ 64 - 1) (by omega) (by omega)
      obtain ⟨-, r, hin, -⟩ := (writable_iff hm hd).mp hwritable
      have := hm.lt_of_contains hin
      omega
    · rintro (h | h | ⟨h, -⟩)
      · exact absurd h hzero
      · exact absurd h hrefused
      · omega

end Memory

end Strawberry.Polkavm
