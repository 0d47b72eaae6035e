import Strawberry.Lib.Tables
import Strawberry.Polkavm.Memory

/-!
# Memory as a store of octets

A read after a write is the read before it with the written octets laid over.
-/

namespace Strawberry.Polkavm

def MemorySegment.Contains (seg : MemorySegment) (a : Nat) : Prop :=
  seg.address.toNat ≤ a ∧ a < seg.address.toNat + seg.data.length

namespace Memory

def Disjoint (m : Memory) : Prop :=
  ∀ r r', r ≠ r' → ∀ a, (m.segment r).Contains a → ¬ (m.segment r').Contains a

def Sliced (m : Memory) : Prop := ∀ r, (m.segment r).data.length < 2 ^ 63

variable {m m' : Memory} {address size : UInt64} {data : List UInt8} {r : Region}

theorem Disjoint.eq_of_contains (hd : m.Disjoint) {r r' : Region} {a : Nat}
    (h : (m.segment r).Contains a) (h' : (m.segment r').Contains a) : r = r' := by
  by_contra hne
  exact hd r r' hne a h h'

theorem disjoint_of_ends (h : ∀ r r', r ≠ r' →
      (m.segment r).address.toNat + (m.segment r).data.length ≤ (m.segment r').address.toNat ∨
        (m.segment r').address.toNat + (m.segment r').data.length ≤
          (m.segment r).address.toNat) : m.Disjoint := by
  intro r r' hne a ha ha'
  obtain ⟨hlo, hhi⟩ := ha
  obtain ⟨hlo', hhi'⟩ := ha'
  have := h r r' hne
  omega

theorem Sliced.length_lt (hs : m.Sliced) (r : Region) : (m.segment r).data.length < 2 ^ 64 :=
  Nat.lt_trans (hs r) (by decide)

variable {n : Nat} {page a : UInt64} {bad : MemoryAccess → Bool} {reason : FaultReason}

theorem Holds.contains {k : Nat} (h : m.Holds r address n) (hk : k < n) :
    (m.segment r).Contains (address.toNat + k) := by
  obtain ⟨hlo, hhi⟩ := h
  constructor <;> omega

theorem covers_iff (hs : m.Sliced) (hlow : address.toNat + size.toNat ≤ 2 ^ 63) (r : Region) :
    ((m.segment r).address ≤ address ∧
      address + size ≤ (m.segment r).address + (m.segment r).size) ↔
      m.Holds r address size.toNat := by
  have hlen := hs r
  rw [UInt64.le_iff_toNat_le, UInt64.le_iff_toNat_le, UInt64.toNat_add, UInt64.toNat_add,
    MemorySegment.size, UInt64.toNat_ofNat', Holds]
  omega

theorem holds_of_covering_eq (hs : m.Sliced) (hlow : address.toNat + size.toNat ≤ 2 ^ 63)
    (h : m.covering address size = some r) : m.Holds r address size.toNat :=
  (covers_iff hs hlow r).mp (covering_eq_some h)

theorem covering_of_holds (hs : m.Sliced) (hd : m.Disjoint)
    (hlow : address.toNat + size.toNat ≤ 2 ^ 63) (hpos : 0 < size.toNat)
    (h : m.Holds r address size.toNat) : m.covering address size = some r := by
  cases hc : m.covering address size with
  | none => exact absurd ((covers_iff hs hlow r).mpr h) (covering_eq_none hc r)
  | some r' =>
    have h' := holds_of_covering_eq hs hlow hc
    rw [hd.eq_of_contains (h'.contains hpos) (h.contains hpos)]

theorem containing_test_iff (hs : m.Sliced) (hlow : address.toNat ≤ 2 ^ 63) (r : Region) :
    ((m.segment r).address ≤ address ∧ address < (m.segment r).address + (m.segment r).size) ↔
      (m.segment r).Contains address.toNat := by
  have hlen := hs r
  rw [UInt64.le_iff_toNat_le, UInt64.lt_iff_toNat_lt, UInt64.toNat_add, MemorySegment.size,
    UInt64.toNat_ofNat', MemorySegment.Contains]
  omega

theorem containing_eq_some (hs : m.Sliced) (hlow : address.toNat ≤ 2 ^ 63)
    (h : m.containing address = some r) : (m.segment r).Contains address.toNat :=
  (containing_test_iff hs hlow r).mp (by simpa using List.find?_some h)

theorem containing_eq_none (hs : m.Sliced) (hlow : address.toNat ≤ 2 ^ 63)
    (h : m.containing address = none) (r : Region) :
    ¬ (m.segment r).Contains address.toNat := by
  rw [← containing_test_iff hs hlow r]
  simpa using List.find?_eq_none.mp h r (mem_searchOrder r)

theorem containing_of_contains (hs : m.Sliced) (hd : m.Disjoint) (hlow : address.toNat ≤ 2 ^ 63)
    (h : (m.segment r).Contains address.toNat) : m.containing address = some r := by
  cases hc : m.containing address with
  | none => exact absurd h (containing_eq_none hs hlow hc r)
  | some r' => rw [hd.eq_of_contains (containing_eq_some hs hlow hc) h]

structure SamePlaces (m m' : Memory) : Prop where
  address : ∀ r, (m'.segment r).address = (m.segment r).address
  length : ∀ r, (m'.segment r).data.length = (m.segment r).data.length

namespace SamePlaces

theorem refl (m : Memory) : SamePlaces m m := ⟨fun _ => rfl, fun _ => rfl⟩

theorem trans {m'' : Memory} (h : SamePlaces m m') (h' : SamePlaces m' m'') : SamePlaces m m'' :=
  ⟨fun r => (h'.address r).trans (h.address r), fun r => (h'.length r).trans (h.length r)⟩

theorem covering (h : SamePlaces m m') (address size : UInt64) :
    m'.covering address size = m.covering address size := by
  unfold Memory.covering
  congr 1
  funext r
  rw [decide_eq_decide, MemorySegment.size, MemorySegment.size, h.address, h.length]

theorem containing (h : SamePlaces m m') (address : UInt64) :
    m'.containing address = m.containing address := by
  unfold Memory.containing
  congr 1
  funext r
  rw [decide_eq_decide, MemorySegment.size, MemorySegment.size, h.address, h.length]

theorem sliced (h : SamePlaces m m') (hs : m.Sliced) : m'.Sliced := by
  intro r
  rw [h.length]
  exact hs r

end SamePlaces

structure SameLayout (m m' : Memory) : Prop extends SamePlaces m m' where
  access : ∀ r, (m'.segment r).access = (m.segment r).access

namespace SameLayout

theorem refl (m : Memory) : SameLayout m m := ⟨.refl m, fun _ => rfl⟩

theorem trans {m'' : Memory} (h : SameLayout m m') (h' : SameLayout m' m'') : SameLayout m m'' :=
  ⟨h.toSamePlaces.trans h'.toSamePlaces, fun r => (h'.access r).trans (h.access r)⟩

theorem getAccess (h : SameLayout m m') (page : UInt64) : m'.getAccess page = m.getAccess page := by
  simp only [Memory.getAccess, h.containing, h.access]

theorem findPage (h : SameLayout m m') (bad : MemoryAccess → Bool) (count : Nat) (page : UInt64) :
    m'.findPage bad count page = m.findPage bad count page := by
  induction count generalizing page with
  | zero => rfl
  | succ count ih => simp only [Memory.findPage, h.getAccess, ih]

theorem accessFault (h : SameLayout m m') (bad : MemoryAccess → Bool) (reason : FaultReason)
    (address size : UInt64) :
    m'.accessFault bad reason address size = m.accessFault bad reason address size := by
  simp only [Memory.accessFault, h.findPage]

end SameLayout

theorem sameLayout_setSegment {octets : List UInt8}
    (hlen : octets.length = (m.segment r).data.length) :
    SameLayout m (m.setSegment { m.segment r with data := octets } r) := by
  refine ⟨⟨?_, ?_⟩, ?_⟩ <;> intro r' <;> rw [segment_setSegment] <;> split
  · next h => rw [h]
  · rfl
  · next h => rw [h, hlen]
  · rfl
  · next h => rw [h]
  · rfl

def readRange (m : Memory) (address size : UInt64) : Except Err (List UInt8) :=
  if address < 0x10000 then .error (.panic .forbiddenMemoryAccess)
  else
    match m.covering address size with
    | none => .error (m.readFault address size)
    | some r =>
      if (m.segment r).access = .inaccessible then .error (m.readFault address size)
      else .ok (window (m.segment r).data (address.toNat - (m.segment r).address.toNat) size.toNat)

theorem read_eq (hs : m.Sliced) (hlow : address.toNat + size.toNat ≤ 2 ^ 63) :
    m.read address size = .ret (m.readRange address size) := by
  unfold read readRange
  by_cases hforbidden : address < 0x10000
  · simp only [hforbidden, if_true]
  · simp only [hforbidden, if_false]
    cases hc : m.covering address size with
    | none => rfl
    | some r =>
      have hholds := holds_of_covering_eq hs hlow hc
      simp only [slice_of_holds (hs.length_lt r) hholds, ret_bind]
      split
      · rfl
      · rfl

def writeRange (m : Memory) (address : UInt64) (data : List UInt8) : Except Err Memory :=
  let size := UInt64.ofNat data.length
  if address < 0x10000 then .error (.panic .forbiddenMemoryAccess)
  else
    match m.covering address size with
    | none => .error (m.writeFault address size)
    | some r =>
      if (m.segment r).access ≠ .readWrite then .error (m.writeFault address size)
      else
        .ok (m.setSegment { m.segment r with
          data := splice (m.segment r).data (address.toNat - (m.segment r).address.toNat) data } r)

theorem size_toNat_of_low (hlow : address.toNat + data.length ≤ 2 ^ 63) :
    (UInt64.ofNat data.length).toNat = data.length := toNat_ofNat_of_lt (by omega)

theorem write_eq (hs : m.Sliced) (hlow : address.toNat + data.length ≤ 2 ^ 63) :
    m.write address data = .ret (m.writeRange address data) := by
  have hsize := size_toNat_of_low hlow
  unfold write writeRange
  by_cases hforbidden : address < 0x10000
  · simp only [hforbidden, if_true]
  · simp only [hforbidden, if_false]
    cases hc : m.covering address (UInt64.ofNat data.length) with
    | none => rfl
    | some r =>
      have hholds := holds_of_covering_eq hs (by rwa [hsize]) hc
      simp only [slice_of_holds (hs.length_lt r) hholds, ret_bind]
      simp only [(offset_toNat (hs.length_lt r) hholds).1]
      split
      · rfl
      · rfl

structure Written (m m' : Memory) (r : Region) (address : UInt64) (data : List UInt8) : Prop where
  covering : m.covering address (UInt64.ofNat data.length) = some r
  holds : m.Holds r address data.length
  access : (m.segment r).access = .readWrite
  memory : m' = m.setSegment { m.segment r with
    data := splice (m.segment r).data (address.toNat - (m.segment r).address.toNat) data } r

theorem written_of_write (hs : m.Sliced) (hlow : address.toNat + data.length ≤ 2 ^ 63)
    (h : m.write address data = .ret (.ok m')) : ∃ r, Written m m' r address data := by
  have hsize := size_toNat_of_low hlow
  rw [write_eq hs hlow, Outcome.ret.injEq] at h
  unfold writeRange at h
  simp only at h
  split at h
  · cases h
  · split at h
    · cases h
    · next r hc =>
      split at h
      · cases h
      · next haccess =>
        cases h
        have hholds := holds_of_covering_eq hs (by rwa [hsize]) hc
        rw [hsize] at hholds
        exact ⟨r, hc, hholds, not_not.mp haccess, rfl⟩

namespace Written

theorem sameLayout (h : Written m m' r address data) : SameLayout m m' := by
  obtain ⟨hlo, hhi⟩ := h.holds
  rw [h.memory]
  apply sameLayout_setSegment
  rw [length_splice (by omega)]

theorem window_eq (h : Written m m' r address data) (hd : m.Disjoint) {r' : Region} {b n : UInt64}
    (hb : m.Holds r' b n.toNat) :
    window (m'.segment r').data (b.toNat - (m.segment r').address.toNat) n.toNat =
      overlay address.toNat data b.toNat
        (window (m.segment r').data (b.toNat - (m.segment r').address.toNat) n.toNat) := by
  obtain ⟨hlo, hhi⟩ := h.holds
  have hb' := hb.1
  rw [h.memory, segment_setSegment]
  split
  · next heq =>
    subst heq
    exact window_splice hlo hb' (by omega)
  · next hne =>
    symm
    apply overlay_of_apart
    intro k hk
    rw [length_window (by have := hb.2; omega)] at hk
    by_contra hin
    refine hd r' r hne (b.toNat + k) (hb.contains hk) ?_
    constructor <;> omega

end Written

theorem read_after_write (hs : m.Sliced) (hd : m.Disjoint)
    (hlow : address.toNat + data.length ≤ 2 ^ 63) (h : m.write address data = .ret (.ok m'))
    {b n : UInt64} (hbn : b.toNat + n.toNat ≤ 2 ^ 63) :
    m'.read b n = Except.map (overlay address.toNat data b.toNat) <$> m.read b n := by
  obtain ⟨r, hw⟩ := written_of_write hs hlow h
  have hl := hw.sameLayout
  rw [read_eq hs hbn, read_eq (hl.sliced hs) hbn, map_ret]
  unfold readRange readFault
  rw [hl.covering, hl.accessFault]
  split
  · rfl
  · cases hc : m.covering b n with
    | none => rfl
    | some r' =>
      simp only
      rw [hl.access, hl.address, hw.window_eq hd (holds_of_covering_eq hs hbn hc)]
      split
      · rfl
      · rfl

def Grants (m : Memory) (allowed : MemoryAccess → Bool) (page : Nat) : Prop :=
  ∀ a, page * 4096 ≤ a → a < (page + 1) * 4096 →
    ∃ r, (m.segment r).Contains a ∧ allowed (m.segment r).access

structure PageLayout (m : Memory) : Prop where
  address_mod : ∀ r, (m.segment r).address.toNat % 4096 = 0
  length_mod : ∀ r, (m.segment r).data.length % 4096 = 0
  apart : ∀ r r', r ≠ r' → (m.segment r).data ≠ [] → (m.segment r').data ≠ [] →
    (m.segment r).address.toNat + (m.segment r).data.length + 4096 ≤ (m.segment r').address.toNat ∨
      (m.segment r').address.toNat + (m.segment r').data.length + 4096 ≤ (m.segment r).address.toNat

theorem MemorySegment.Contains.data_ne_nil {seg : MemorySegment} {a : Nat} (h : seg.Contains a) :
    seg.data ≠ [] := by
  intro hnil
  have h1 := h.1
  have h2 := h.2
  rw [hnil, List.length_nil] at h2
  omega

namespace PageLayout

variable {a : Nat}

theorem eq_of_contains_succ (hp : m.PageLayout) {r r' : Region} {b : Nat}
    (h : (m.segment r).Contains a) (h' : (m.segment r').Contains b) (hle : a ≤ b)
    (hnear : b ≤ a + 1) : r = r' := by
  by_contra hne
  have hap := hp.apart r r' hne (MemorySegment.Contains.data_ne_nil h)
    (MemorySegment.Contains.data_ne_nil h')
  obtain ⟨h1, h2⟩ := h
  obtain ⟨h1', h2'⟩ := h'
  omega

theorem disjoint (hp : m.PageLayout) : m.Disjoint := by
  intro r r' hne a h h'
  exact hne (hp.eq_of_contains_succ h h' (Nat.le_refl a) (Nat.le_succ a))

theorem contains_page (hp : m.PageLayout) {page : Nat}
    (h : (m.segment r).Contains (page * 4096)) (hlo : page * 4096 ≤ a)
    (hhi : a < (page + 1) * 4096) : (m.segment r).Contains a := by
  have haddr := hp.address_mod r
  have hlen := hp.length_mod r
  obtain ⟨h1, h2⟩ := h
  constructor <;> omega

end PageLayout

theorem page_toNat (h : page.toNat ≤ 2 ^ 20) : (page * pageSize).toNat = page.toNat * 4096 := by
  rw [UInt64.toNat_mul, show pageSize.toNat = 4096 from rfl]
  omega

theorem allowed_getAccess_iff (allowed : MemoryAccess → Bool) (hs : m.Sliced) (hp : m.PageLayout)
    (hnone : allowed .inaccessible = false) (hpage : page.toNat ≤ 2 ^ 20) :
    allowed (m.getAccess page) ↔ m.Grants allowed page.toNat := by
  have hstart := page_toNat hpage
  have hlow : (page * pageSize).toNat ≤ 2 ^ 63 := by omega
  unfold getAccess
  constructor
  · intro h a hlo hhi
    cases hc : m.containing (page * pageSize) with
    | none =>
      rw [hc, hnone] at h
      exact absurd h Bool.false_ne_true
    | some r =>
      rw [hc] at h
      have hr := containing_eq_some hs hlow hc
      rw [hstart] at hr
      exact ⟨r, hp.contains_page hr hlo hhi, h⟩
  · intro h
    obtain ⟨r, hr, hallowed⟩ := h (page.toNat * 4096) (Nat.le_refl _) (by omega)
    rw [← hstart] at hr
    rw [containing_of_contains hs hp.disjoint hlow hr]
    exact hallowed

theorem holds_of_grants (hp : m.PageLayout) {allowed : MemoryAccess → Bool} (hpos : 0 < n)
    (h : ∀ q, address.toNat / 4096 ≤ q → q ≤ (address.toNat + n - 1) / 4096 → m.Grants allowed q) :
    ∃ r, m.Holds r address n ∧ allowed (m.segment r).access := by
  have hall : ∀ k < n, ∃ r, (m.segment r).Contains (address.toNat + k) ∧
      allowed (m.segment r).access := by
    intro k hk
    have hle : (address.toNat + k) / 4096 ≤ (address.toNat + n - 1) / 4096 :=
      Nat.div_le_div_right (by omega)
    exact h ((address.toNat + k) / 4096) (Nat.div_le_div_right (Nat.le_add_right _ _)) hle
      (address.toNat + k) (by omega) (by omega)
  obtain ⟨r, hr, hallowed⟩ := hall 0 hpos
  have hsame : ∀ k < n, (m.segment r).Contains (address.toNat + k) := by
    intro k
    induction k with
    | zero => exact fun _ => hr
    | succ k ih =>
      intro hk
      obtain ⟨r', hr', -⟩ := hall (k + 1) hk
      rw [hp.eq_of_contains_succ (ih (by omega)) hr' (by omega) (by omega)]
      exact hr'
  refine ⟨r, ⟨?_, ?_⟩, hallowed⟩
  · exact hr.1
  · have hlast := (hsame (n - 1) (by omega)).2
    omega

theorem findPage_eq_some {count : Nat} {first : UInt64}
    (hno : first.toNat + count < 2 ^ 64) (h : m.findPage bad count first = some page) :
    first.toNat ≤ page.toNat ∧ page.toNat < first.toNat + count ∧ bad (m.getAccess page) ∧
      ∀ q : UInt64, first.toNat ≤ q.toNat → q.toNat < page.toNat → ¬ bad (m.getAccess q) := by
  induction count generalizing first with
  | zero => cases h
  | succ count ih =>
    have hsucc : (first + 1).toNat = first.toNat + 1 := by
      rw [UInt64.toNat_add, show (1 : UInt64).toNat = 1 from rfl]
      omega
    rw [findPage] at h
    split at h
    · next hbad =>
      cases h
      exact ⟨Nat.le_refl _, by omega, hbad, fun q hle hlt => by omega⟩
    · next hgood =>
      obtain ⟨hle, hlast, hbad, hpre⟩ := ih (by omega) h
      refine ⟨by omega, by omega, hbad, fun q hq hlt => ?_⟩
      rcases Nat.eq_or_lt_of_le hq with heq | hgt
      · rw [← UInt64.toNat_inj.mp heq]
        exact hgood
      · exact hpre q (by omega) hlt

theorem findPage_eq_none {count : Nat} {first : UInt64} (h : m.findPage bad count first = none)
    {k : Nat} (hk : k < count) : ¬ bad (m.getAccess (first + UInt64.ofNat k)) := by
  induction count generalizing first k with
  | zero => omega
  | succ count ih =>
    rw [findPage] at h
    split at h
    · cases h
    · next hgood =>
      cases k with
      | zero => simpa using hgood
      | succ k =>
        have hstep : first + UInt64.ofNat (k + 1) = first + 1 + UInt64.ofNat k := by
          rw [UInt64.ofNat_add, UInt64.add_assoc, UInt64.add_comm (UInt64.ofNat k)]
          rfl
        rw [hstep]
        exact ih h (by omega)

theorem getAccess_of_high (hm : m.Fits (2 ^ 32)) (h : 2 ^ 32 ≤ (page * pageSize).toNat) :
    m.getAccess page = .inaccessible := by
  have hnone : m.containing (page * pageSize) = none := by
    rw [containing, List.find?_eq_none]
    intro r _ hr
    have hlt := (of_decide_eq_true hr).2
    rw [UInt64.lt_iff_toNat_lt, (hm.mono (by decide)).end_toNat] at hlt
    have := hm.bound r
    omega
  rw [getAccess, hnone]

def LowestLacking (m : Memory) (allowed : MemoryAccess → Bool) (address n a : Nat) : Prop :=
  ∃ page, a = page * 4096 ∧ address / 4096 ≤ page ∧ page ≤ (address + n - 1) / 4096 ∧
    ¬ m.Grants allowed page ∧ ∀ q, address / 4096 ≤ q → q < page → m.Grants allowed q

theorem page_div (address : UInt64) : (address / pageSize).toNat = address.toNat / 4096 := by
  rw [UInt64.toNat_div, show pageSize.toNat = 4096 from rfl]

theorem pageStart_toNat (page : UInt64) (h : page.toNat ≤ 2 ^ 52 - 1) :
    (page * pageSize).toNat = page.toNat * 4096 := by
  rw [UInt64.toNat_mul, show pageSize.toNat = 4096 from rfl]
  omega

theorem accessFault_high (hm : m.Fits (2 ^ 32)) (hbad : bad .inaccessible)
    (ha : 2 ^ 32 ≤ address.toNat) (hend : address.toNat + size.toNat < 2 ^ 64) :
    m.accessFault bad reason address size = .pageFault reason (address / pageSize * pageSize) := by
  have hfirst := page_div address
  have hstart := pageStart_toNat (address / pageSize) (by have := address.toNat_lt; omega)
  have hn : ((address + size) / pageSize).toNat + 1 - (address / pageSize).toNat =
      (address.toNat + size.toNat) / 4096 - address.toNat / 4096 + 1 := by
    rw [page_div, hfirst, UInt64.toNat_add]
    omega
  have hnone : m.getAccess (address / pageSize) = .inaccessible := getAccess_of_high hm (by omega)
  simp only [accessFault, hn, findPage, hnone, hbad, if_true]

theorem accessFault_wrapped (hsize : size.toNat ≤ 8)
    (hend : 2 ^ 64 ≤ address.toNat + size.toNat) :
    m.accessFault bad reason address size = .panic .badPageNotFound := by
  have hn : ((address + size) / pageSize).toNat + 1 - (address / pageSize).toNat = 0 := by
    have := address.toNat_lt
    rw [page_div, page_div, UInt64.toNat_add]
    omega
  simp only [accessFault, hn, findPage]

theorem accessFault_low (reason : FaultReason) (hm : m.Fits (2 ^ 32)) (hbad : bad .inaccessible)
    (ha : address.toNat < 2 ^ 32) (hsize : size.toNat ≤ 8) :
    (∃ a : UInt64, m.accessFault bad reason address size = .pageFault reason a ∧
      a.toNat < 2 ^ 32 + 8) ∨ address.toNat + size.toNat < 2 ^ 32 ∧
      m.accessFault bad reason address size = .panic .badPageNotFound := by
  have hfirst := page_div address
  have hn : ((address + size) / pageSize).toNat + 1 - (address / pageSize).toNat =
      (address.toNat + size.toNat) / 4096 + 1 - address.toNat / 4096 := by
    rw [page_div, hfirst, UInt64.toNat_add]
    omega
  simp only [accessFault, hn]
  cases hfind : m.findPage bad _ (address / pageSize) with
  | some page =>
    have hlt := (findPage_eq_some (by omega) hfind).2.1
    have hstart := pageStart_toNat page (by omega)
    exact .inl ⟨_, rfl, by omega⟩
  | none =>
    refine .inr ⟨?_, rfl⟩
    by_contra hge
    -- the page at 2^32 is among those that are looked at
    have hgood := findPage_eq_none hfind (k := 2 ^ 20 - address.toNat / 4096) (by omega)
    have hpage : (address / pageSize + UInt64.ofNat (2 ^ 20 - address.toNat / 4096)).toNat =
        2 ^ 20 := by
      rw [UInt64.toNat_add, hfirst, toNat_ofNat_of_lt (by omega)]
      omega
    have hstart := pageStart_toNat _ (hpage.trans_le (by decide))
    rw [getAccess_of_high hm (by omega)] at hgood
    exact hgood hbad

theorem lowestLacking_of_accessFault (hs : m.Sliced) (hp : m.PageLayout)
    (hbad : bad .inaccessible) {reason' : FaultReason}
    (hpos : 0 < size.toNat) (hlow : address.toNat + size.toNat ≤ 2 ^ 32)
    (hnot : ∀ r, m.covering address size = some r → bad (m.segment r).access)
    (h : m.accessFault bad reason address size = .pageFault reason' a) :
    m.LowestLacking (fun x => !bad x) address.toNat size.toNat a.toNat := by
  have hend : (address + size).toNat = address.toNat + size.toNat := by
    rw [UInt64.toNat_add]
    omega
  have hnone : (fun x => !bad x) MemoryAccess.inaccessible = false := by simp [hbad]
  simp only [accessFault, page_div, hend] at h
  split at h
  · next page hfound =>
    cases h
    obtain ⟨hfirst, -, hpage, hpre⟩ := findPage_eq_some (by rw [page_div]; omega) hfound
    rw [page_div] at hfirst hpre
    have hgrants : ∀ q, address.toNat / 4096 ≤ q → q < page.toNat → q ≤ 2 ^ 20 →
        m.Grants (fun x => !bad x) q := by
      intro q hle hlt hq
      have hto : (UInt64.ofNat q).toNat = q := toNat_ofNat_of_lt (by omega)
      have hgood := hpre (UInt64.ofNat q) (by omega) (by omega)
      have hiff : (!bad (m.getAccess (UInt64.ofNat q))) = true ↔
          m.Grants (fun x => !bad x) (UInt64.ofNat q).toNat :=
        allowed_getAccess_iff (fun x => !bad x) hs hp hnone (by rwa [hto])
      rw [hto] at hiff
      exact hiff.mp (by simpa using hgood)
    have htouched : page.toNat ≤ (address.toNat + size.toNat - 1) / 4096 := by
      by_contra hgt
      obtain ⟨r, hholds, hgood⟩ := holds_of_grants hp hpos
        fun q hle hq => hgrants q hle (by omega) (by omega)
      simp [hnot r (covering_of_holds hs hp.disjoint (by omega) hpos hholds)] at hgood
    have hpage20 : page.toNat ≤ 2 ^ 20 := by omega
    refine ⟨page.toNat, page_toNat hpage20, hfirst, htouched, ?_,
      fun q hle hlt => hgrants q hle hlt (by omega)⟩
    rw [← allowed_getAccess_iff (fun x => !bad x) hs hp hnone hpage20]
    simp [hpage]
  · cases h

theorem lowestLacking_of_read (hs : m.Sliced) (hp : m.PageLayout) (hpos : 0 < size.toNat)
    (hlow : address.toNat + size.toNat ≤ 2 ^ 32)
    (h : m.read address size = .ret (.error (.pageFault reason a))) :
    m.LowestLacking (fun x => !(x == .inaccessible)) address.toNat size.toNat a.toNat := by
  have hhalf : address.toNat + size.toNat ≤ 2 ^ 63 := by omega
  rw [read_eq hs hhalf, Outcome.ret.injEq] at h
  unfold readRange at h
  split at h
  · cases h
  · split at h
    · next hc =>
      refine lowestLacking_of_accessFault hs hp rfl hpos hlow ?_ (Except.error.inj h)
      simp [hc]
    · next r hc =>
      split at h
      · next hacc =>
        refine lowestLacking_of_accessFault hs hp rfl hpos hlow ?_ (Except.error.inj h)
        simp [hc, hacc]
      · cases h

theorem lowestLacking_of_write (hs : m.Sliced) (hp : m.PageLayout) (hpos : data ≠ [])
    (hlow : address.toNat + data.length ≤ 2 ^ 32)
    (h : m.write address data = .ret (.error (.pageFault reason a))) :
    m.LowestLacking (fun x => !(x != .readWrite)) address.toNat data.length a.toNat := by
  have hhalf : address.toNat + data.length ≤ 2 ^ 63 := by omega
  have hsize := size_toNat_of_low hhalf
  have hpos' : 0 < (UInt64.ofNat data.length).toNat := by
    rw [hsize]
    exact List.length_pos_of_ne_nil hpos
  rw [write_eq hs hhalf, Outcome.ret.injEq] at h
  rw [← hsize] at hlow hhalf ⊢
  unfold writeRange at h
  simp only at h
  split at h
  · cases h
  · split at h
    · next hc =>
      refine lowestLacking_of_accessFault hs hp rfl hpos' hlow ?_ (Except.error.inj h)
      simp [hc]
    · next r hc =>
      split at h
      · next hacc =>
        refine lowestLacking_of_accessFault hs hp rfl hpos' hlow ?_ (Except.error.inj h)
        simp [hc, hacc]
      · cases h

end Memory

end Strawberry.Polkavm

namespace Strawberry.Polkavm.Memory

variable {m m' m'' : Memory}

structure Erased (P : Region → Nat → Prop) (m m' : Memory) : Prop where
  places : SamePlaces m m'
  inside : ∀ r i, P r ((m.segment r).address.toNat + i) → i < (m.segment r).data.length →
    (m'.segment r).data[i]? = some 0
  outside : ∀ r i, ¬ P r ((m.segment r).address.toNat + i) →
    (m'.segment r).data[i]? = (m.segment r).data[i]?

def SameOctets (m m' : Memory) : Prop := ∀ r, (m'.segment r).data = (m.segment r).data

namespace Erased

variable {P Q : Region → Nat → Prop}

theorem of_sameOctets (hp : SamePlaces m m') (ho : SameOctets m m') :
    Erased (fun _ _ => False) m m' :=
  ⟨hp, fun _ _ h => h.elim, fun r i _ => by rw [ho r]⟩

theorem congr (h : Erased P m m') (hPQ : ∀ r a, P r a ↔ Q r a) : Erased Q m m' :=
  ⟨h.places, fun r i hq => h.inside r i ((hPQ _ _).mpr hq),
    fun r i hq => h.outside r i fun hp => hq ((hPQ _ _).mp hp)⟩

theorem trans (h : Erased P m m') (h' : Erased Q m' m'') :
    Erased (fun r a => P r a ∨ Q r a) m m'' := by
  refine ⟨h.places.trans h'.places, fun r i hPQ hi => ?_, fun r i hPQ => ?_⟩
  · by_cases hQ : Q r ((m.segment r).address.toNat + i)
    · exact h'.inside r i (by rwa [h.places.address]) (by rwa [h.places.length])
    · rw [h'.outside r i (by rwa [h.places.address])]
      exact h.inside r i (hPQ.resolve_right hQ) hi
  · rw [h'.outside r i (by rw [h.places.address]; exact fun hQ => hPQ (.inr hQ))]
    exact h.outside r i fun hP => hPQ (.inl hP)

theorem sameOctets_iff (h : Erased P m m') :
    SameOctets m m' ↔ ∀ r i, P r ((m.segment r).address.toNat + i) →
      i < (m.segment r).data.length → (m.segment r).data[i]? = some 0 := by
  constructor
  · intro hsame r i hP hi
    rw [← hsame r]
    exact h.inside r i hP hi
  · intro hzero r
    apply List.ext_getElem?
    intro i
    by_cases hP : P r ((m.segment r).address.toNat + i)
    · by_cases hi : i < (m.segment r).data.length
      · rw [h.inside r i hP hi, hzero r i hP hi]
      · rw [List.getElem?_eq_none (Nat.le_of_not_lt hi),
          List.getElem?_eq_none (by rw [h.places.length]; exact Nat.le_of_not_lt hi)]
    · exact h.outside r i hP

end Erased

def pageStart (q : Nat) : UInt64 := UInt64.ofNat q * pageSize

variable {q : Nat}

theorem toNat_pageStart (hq : q < 2 ^ 20) : (pageStart q).toNat = q * 4096 := by
  have hto : (UInt64.ofNat q).toNat = q := toNat_ofNat_of_lt (by omega)
  rw [pageStart, page_toNat (by omega), hto]

def OnPage (m : Memory) (q : Nat) (r : Region) (a : Nat) : Prop :=
  m.covering (pageStart q) pageSize = some r ∧ q * 4096 ≤ a ∧ a < (q + 1) * 4096

def Blank (m : Memory) (q : Nat) : Prop :=
  ∀ r, m.covering (pageStart q) pageSize = some r → ∀ a, q * 4096 ≤ a → a < (q + 1) * 4096 →
      (m.segment r).data[a - (m.segment r).address.toNat]? = some 0

def OnPages (m : Memory) (q k : Nat) (r : Region) (a : Nat) : Prop :=
  ∃ j, q ≤ j ∧ j < q + k ∧ m.OnPage j r a

theorem holds_page (hs : m.Sliced) (hq : q < 2 ^ 20) {r : Region}
    (h : m.covering (pageStart q) pageSize = some r) :
    (m.segment r).address.toNat ≤ q * 4096 ∧
      (q + 1) * 4096 ≤ (m.segment r).address.toNat + (m.segment r).data.length := by
  have hsize : pageSize.toNat = 4096 := rfl
  obtain ⟨hlo, hhi⟩ := holds_of_covering_eq hs (by rw [toNat_pageStart hq, hsize]; omega) h
  rw [toNat_pageStart hq] at hlo hhi
  omega

theorem erased_of_write (hs : m.Sliced) (hq : q < 2 ^ 20)
    (h : m.write (pageStart q) (List.replicate pageSize.toNat 0) = .ret (.ok m')) :
    SameLayout m m' ∧ Erased (m.OnPage q) m m' := by
  have hsize : pageSize.toNat = 4096 := rfl
  have hstart := toNat_pageStart hq
  obtain ⟨r, hw⟩ := written_of_write hs (by rw [hstart, List.length_replicate, hsize]; omega) h
  have hcover : m.covering (pageStart q) pageSize = some r := by
    have := hw.covering
    rwa [List.length_replicate, UInt64.ofNat_toNat] at this
  obtain ⟨hlo, hhi⟩ := holds_page hs hq hcover
  have hdata (i : Nat) : (m'.segment r).data[i]? =
      if q * 4096 ≤ (m.segment r).address.toNat + i ∧
          (m.segment r).address.toNat + i < (q + 1) * 4096
      then some 0 else (m.segment r).data[i]? := by
    rw [hw.memory, segment_setSegment, if_pos rfl, hstart,
      getElem?_splice (by rw [List.length_replicate, hsize]; omega), List.length_replicate, hsize]
    split
    · next hin =>
      rw [if_pos (by omega), List.getElem?_replicate, if_pos (by omega)]
    · next hout => rw [if_neg (by omega)]
  refine ⟨hw.sameLayout, hw.sameLayout.toSamePlaces, fun r' i hpage hi => ?_, fun r' i hpage => ?_⟩
  · obtain ⟨hr', hin⟩ := hpage
    rw [hcover] at hr'
    cases hr'
    rw [hdata, if_pos hin]
  · by_cases hr' : r' = r
    · subst hr'
      rw [hdata, if_neg fun hin => hpage ⟨hcover, hin⟩]
    · rw [hw.memory, segment_setSegment, if_neg hr']

section

variable {ε : Type}

def sweep (step : UInt64 → Memory → Outcome (Memory × Option ε)) :
    Nat → UInt64 → Memory → Outcome (Memory × Option ε)
  | 0, _, u => .ret (u, none)
  | n + 1, page, u => do
    match ← step page u with
    | (u, some e) => return (u, some e)
    | (u, none) => sweep step n (page + 1) u

def ClearsPage (step : UInt64 → Memory → Outcome (Memory × Option ε)) : Prop :=
  ∀ (q : Nat) (u : Memory), u.Sliced → 16 ≤ q → q < 2 ^ 20 →
    ∃ u' e, step (UInt64.ofNat q) u = .ret (u', e) ∧ SamePlaces u u' ∧
      (e = none → Erased (u.OnPage q) u u') ∧ (e ≠ none → SameOctets u u')

variable {a q k n : Nat} {r : Region} {u : Memory}

theorem SamePlaces.onPage_iff (h : SamePlaces m m') : m'.OnPage q r a ↔ m.OnPage q r a := by
  rw [OnPage, OnPage, h.covering]

theorem SamePlaces.onPages_succ (h : SamePlaces m m') :
    m.OnPage q r a ∨ m'.OnPages (q + 1) k r a ↔ m.OnPages q (k + 1) r a := by
  constructor
  · rintro (hq | ⟨j, hlo, hhi, hj⟩)
    · exact ⟨q, Nat.le_refl q, by omega, hq⟩
    · exact ⟨j, by omega, by omega, h.onPage_iff.mp hj⟩
  · rintro ⟨j, hlo, hhi, hj⟩
    rcases Nat.eq_or_lt_of_le hlo with rfl | hlt
    · exact .inl hj
    · exact .inr ⟨j, hlt, by omega, h.onPage_iff.mpr hj⟩

theorem not_onPages_zero : ¬ m.OnPages q 0 r a := by
  rintro ⟨j, hlo, hhi, -⟩
  omega

structure Swept (step : UInt64 → Memory → Outcome (Memory × Option ε)) (n q : Nat)
    (u u' : Memory) (e : Option ε) (k : Nat) : Prop where
  count : k ≤ n
  done : e = none ↔ k = n
  through : ∀ j < n, (∃ v, sweep step (j + 1) (UInt64.ofNat q) u = .ret (v, none)) ↔ j < k
  erased : Erased (u.OnPages q k) u u'

variable {step : UInt64 → Memory → Outcome (Memory × Option ε)}

theorem sweep_swept (hc : ClearsPage step) (hs : u.Sliced) (hlo : 16 ≤ q)
    (hhi : n = 0 ∨ q + n ≤ 2 ^ 20) :
    ∃ u' e k, sweep step n (UInt64.ofNat q) u = .ret (u', e) ∧ Swept step n q u u' e k := by
  induction n generalizing q u with
  | zero =>
    refine ⟨u, none, 0, rfl, Nat.le_refl 0, by simp, by simp, ?_⟩
    exact (Erased.of_sameOctets (.refl u) fun _ => rfl).congr fun r a =>
      ⟨False.elim, not_onPages_zero⟩
  | succ n ih =>
    obtain ⟨u₁, e₁, hstep, hplaces, herased, hsame⟩ := hc q u hs hlo (by omega)
    cases e₁ with
    | some e =>
      have hrun (j : Nat) : sweep step (j + 1) (UInt64.ofNat q) u = .ret (u₁, some e) := by
        rw [sweep, hstep]
        rfl
      refine ⟨u₁, some e, 0, hrun n, Nat.zero_le _, by simp, fun j _ => ?_, ?_⟩
      · simp [hrun j]
      · exact (Erased.of_sameOctets hplaces (hsame (by simp))).congr fun r a =>
          ⟨False.elim, not_onPages_zero⟩
    | none =>
      have hrun (j : Nat) :
          sweep step (j + 1) (UInt64.ofNat q) u = sweep step j (UInt64.ofNat (q + 1)) u₁ := by
        rw [sweep, hstep, UInt64.ofNat_add]
        rfl
      obtain ⟨u', e, k, hrest, hswept⟩ := ih (q := q + 1) (hplaces.sliced hs) (by omega) (by omega)
      have hn := hswept.count
      refine ⟨u', e, k + 1, (hrun n).trans hrest, by omega, ?_, fun j hj => ?_, ?_⟩
      · rw [hswept.done]
        omega
      · rw [hrun]
        cases j with
        | zero => exact iff_of_true ⟨u₁, rfl⟩ (by omega)
        | succ j =>
          rw [hswept.through j (by omega)]
          omega
      · exact ((herased rfl).trans hswept.erased).congr fun r a => hplaces.onPages_succ

theorem Swept.sameOctets_iff {u' : Memory} {e : Option ε} (hs : u.Sliced)
    (hhi : n = 0 ∨ q + n ≤ 2 ^ 20) (h : Swept step n q u u' e k) :
    SameOctets u u' ↔ ∀ j < n,
      (∃ v, sweep step (j + 1) (UInt64.ofNat q) u = .ret (v, none)) → u.Blank (q + j) := by
  have hn := h.count
  rw [h.erased.sameOctets_iff]
  constructor
  · intro hzero j hj hthrough r hr a hlo hup
    have hk := (h.through j hj).mp hthrough
    obtain ⟨hstart, hend⟩ := holds_page hs (show q + j < 2 ^ 20 by omega) hr
    have ha : (u.segment r).address.toNat + (a - (u.segment r).address.toNat) = a := by omega
    refine hzero r _ ?_ (by omega)
    rw [ha]
    exact ⟨q + j, by omega, by omega, hr, hlo, hup⟩
  · rintro hblank r i ⟨j, hlo, hup, hr, ha, ha'⟩ hi
    have hj := hblank (j - q) (by omega) ((h.through _ (by omega)).mpr (by omega))
    rw [Nat.add_sub_cancel' hlo] at hj
    have hzero := hj r hr _ ha ha'
    rwa [Nat.add_sub_cancel_left] at hzero

end

end Strawberry.Polkavm.Memory
