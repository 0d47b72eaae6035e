import Strawberry.Interpreter.Runs
import Strawberry.Polkavm.Heap

/-!
# Exits and gas

What a step can do, case by case, and what follows for a machine that stops: where it
stands, what it has changed, and what it has paid.
-/

namespace Strawberry.Interpreter

open Polkavm Jam

namespace Instance

variable {i j : Instance} {e : Err}

theorem done_err {r : Instance × Option Err} (h : i.done = .ret r) : r.2 = none := by
  rw [done, bind_eq_ret] at h
  obtain ⟨i', -, h⟩ := h
  cases h
  rfl

theorem store_failed {address : UInt64} {length value : Nat}
    (h : i.store address length value = .ret (j, some e)) : j = i := by
  rw [store, bind_eq_ret] at h
  obtain ⟨res, -, h⟩ := h
  cases res with
  | error e' =>
    cases h
    rfl
  | ok memory => cases done_err h

theorem sbrk_failed {dst sizeReg : Reg} (h : i.sbrk dst sizeReg = .ret (j, some e)) : j = i := by
  rw [sbrk, bind_eq_ret] at h
  obtain ⟨res, -, h⟩ := h
  cases res with
  | error e' =>
    cases h
    rfl
  | ok grown => cases done_err h

end Instance

structure FaithfulStore (m : Memory) (address : UInt64) (data : List UInt8) : Prop where
  /-- A read after the write returns the written octets where the ranges overlap and the old
  ones elsewhere, and fails just if it failed before. -/
  read_after : ∀ m', m.write address data = .ret (.ok m') →
    ∀ b n : UInt64, 0 < n.toNat → b.toNat + n.toNat ≤ 2 ^ 32 →
      m'.read b n = Except.map (overlay address.toNat data b.toNat) <$> m.read b n
  failed : ∀ i : Instance, i.memory = m → ∀ value, toLE data.length value = data →
    ∀ j e, i.store address data.length value = .ret (j, some e) → j = i
  read_fault : m.PageLayout → ∀ reason a,
    m.read address (UInt64.ofNat data.length) = .ret (.error (.pageFault reason a)) →
      m.LowestLacking (· != .inaccessible) address.toNat data.length a.toNat
  write_fault : m.PageLayout → ∀ reason a,
    m.write address data = .ret (.error (.pageFault reason a)) →
      m.LowestLacking (· == .readWrite) address.toNat data.length a.toNat

/-- Reads return what was written last. -/
theorem memory_is_faithful_store (m : Memory) (hs : m.Sliced) (hd : m.Disjoint)
    (address : UInt64) (data : List UInt8) (hne : data ≠ [])
    (hlow : address.toNat + data.length ≤ 2 ^ 32) : FaithfulStore m address data := by
  have hhalf : address.toNat + data.length ≤ 2 ^ 63 := by omega
  have hsize := Memory.size_toNat_of_low hhalf
  constructor
  · intro m' hwrite b n _ hbn
    exact Memory.read_after_write hs hd hhalf hwrite (by omega)
  · intro i _ value _ j e h
    exact Instance.store_failed h
  · intro hp reason a h
    have hpos : 0 < (UInt64.ofNat data.length).toNat := by
      rw [hsize]
      exact List.length_pos_of_ne_nil hne
    have hlowest := Memory.lowestLacking_of_read hs hp hpos (by rwa [hsize]) h
    rwa [hsize] at hlowest
  · intro hp reason a h
    have hneeded : (fun x : MemoryAccess => !(x != .readWrite)) = (· == .readWrite) := by
      funext x
      cases x <;> rfl
    rw [← hneeded]
    exact Memory.lowestLacking_of_write hs hp hne hlow h

def onePage : Memory :=
  { Memory.emptyLayout with rw := ⟨0x20000, List.replicate 4096 1, .readWrite⟩ }

theorem length_onePage : ∀ r, (onePage.segment r).data.length = if r = .rw then 4096 else 0
  | .rw => List.length_replicate
  | .ro | .stack | .args => rfl

theorem onePage_pageLayout : onePage.PageLayout := by
  constructor
  · intro r
    cases r <;> rfl
  · intro r
    rw [length_onePage]
    split <;> rfl
  · intro r r' hne hr hr'
    rw [← List.length_pos_iff, length_onePage] at hr hr'
    grind

theorem onePage_is_store :
    onePage.Sliced ∧ onePage.PageLayout ∧ FaithfulStore onePage 0x20001 [9] := by
  have hs : onePage.Sliced := by
    intro r
    rw [length_onePage]
    split <;> decide
  exact ⟨hs, onePage_pageLayout, memory_is_faithful_store onePage hs onePage_pageLayout.disjoint
    0x20001 [9] (by decide) (by decide)⟩

/-- When the heap grows in place. -/
theorem heap_growth_iff (m : Memory) (hm : m.Sized) (hd : m.Disjoint) (size : UInt64) :
    (∀ i : Instance, i.memory = m → ∀ dst sizeReg, i.reg sizeReg = size →
      ∀ j e, i.sbrk dst sizeReg = .ret (j, some e) → j = i) ∧
    ((∀ m' top, m.sbrk size = .ret (.ok (m', top)) → Memory.HeapGrown m m' size.toNat) ↔
      size = 0 ∨ m.SbrkRefused size ∨
        m.heapTop + size.toNat < 2 ^ 64 ∧ Memory.GrowsInPlace m size.toNat) :=
  ⟨fun _ _ _ _ _ _ _ h => Instance.sbrk_failed h, Memory.sbrk_grows_iff hm hd size⟩

def fourOctets : Memory := { Memory.emptyLayout with rw := ⟨0x20000, [1, 2, 3, 4], .readWrite⟩ }

theorem fourOctets_disjoint : fourOctets.Disjoint :=
  Memory.disjoint_of_ends fun r r' => by cases r <;> cases r' <;> decide

theorem fourOctets_sized : fourOctets.Sized := by
  constructor <;> intro r <;> cases r <;> decide

theorem heap_growth_of_fourOctets : fourOctets.Sized ∧ fourOctets.Disjoint ∧
      ((∀ m' top, fourOctets.sbrk 1 = .ret (.ok (m', top)) → Memory.HeapGrown fourOctets m' 1) ↔
        (1 : UInt64) = 0 ∨ fourOctets.SbrkRefused 1 ∨
          fourOctets.heapTop + 1 < 2 ^ 64 ∧ Memory.GrowsInPlace fourOctets 1) :=
  ⟨fourOctets_sized, fourOctets_disjoint,
    (heap_growth_iff fourOctets fourOctets_sized fourOctets_disjoint 1).2⟩

theorem sbrk_loses_the_heap : fourOctets.Sized ∧ fourOctets.Disjoint ∧
      ∃ m' top, fourOctets.sbrk 1 = .ret (.ok (m', top)) ∧
        m'.rw.data = List.replicate (33 * 4096) 0 ∧ ¬ Memory.HeapGrown fourOctets m' 1 := by
  refine ⟨fourOctets_sized, fourOctets_disjoint, ?_⟩
  have hone : (1 : UInt64).toNat = 1 := rfl
  rcases Memory.sbrk_cases fourOctets_sized 1 with ⟨h, -⟩ | ⟨-, h, -⟩ | ⟨-, -, -, top, hres⟩ |
    ⟨-, -, h, -⟩
  · exact absurd h (by decide)
  · exact absurd h (by unfold Memory.SbrkRefused; decide)
  · rw [hone] at hres
    refine ⟨_, top, hres, rfl, ?_⟩
    intro hgrown
    have hzero := (Memory.growsInPlace_of_heapGrown fourOctets_sized fourOctets_disjoint
      Nat.one_pos (by decide) hgrown).zero 0 1 rfl (by decide)
    exact absurd hzero (by decide)
  · exact absurd h (by decide)

inductive Access (i : Instance) : Nat → (UInt64 → Exec) → Prop where
  | load (dst : Reg) (length : UInt64) (value : Nat → UInt64) :
    Access i length.toNat fun address => i.load dst address length value
  | store (length value : Nat) : Access i length fun address => i.store address length value

variable {address : UInt64} {n : Nat} {i j : Instance} {access : UInt64 → Exec}

theorem low_of_holds {m : Memory} (hm : m.Fits (2 ^ 32)) {r : Region}
    (hn : 0 < n) (h : m.Holds r address n) : address.toNat < 2 ^ 32 := by
  have hhi := h.2
  have hbound := hm.bound r
  omega

/-- What a load or store comes to at any address, with the check that finds the faulting page. -/
inductive Access.Outcome (i : Instance) (n : Nat) (bad : MemoryAccess → Bool)
    (reason : FaultReason) (address : UInt64) : Exec → Prop where
  | forbidden (hlow : address < 0x10000) :
    Outcome i n bad reason address (.ret (i, some (.panic .forbiddenMemoryAccess)))
  | overrun (hover : i.memory.Overruns address n) :
    Outcome i n bad reason address (.crash .sliceOutOfRange)
  | done {r : Region} {j : Instance} (hholds : i.memory.Holds r address n) :
    Outcome i n bad reason address (.ret (j, none))
  | fault (hlow : ¬ address < 0x10000) : Outcome i n bad reason address
      (.ret (i, some (i.memory.accessFault bad reason address (UInt64.ofNat n))))

theorem done_of_skip (hskip : i.skip.Returns) (hcounter : j.instructionCounter = i.instructionCounter)
    (hmask : j.bitmask = i.bitmask) : ∃ k, j.done = .ret (k, none) := by
  obtain ⟨i', hi'⟩ := hskip
  rw [Instance.skip, bind_eq_ret] at hi'
  obtain ⟨s, hs, -⟩ := hi'
  rw [Instance.done, Instance.skip, hcounter, hmask, hs]
  exact ⟨_, rfl⟩

theorem Access.outcome (ha : Access i n access) (hm : i.memory.Fits (2 ^ 32)) (hn : n ≤ 8)
    (hskip : i.skip.Returns) :
    ∃ bad reason, bad .inaccessible = true ∧
      ∀ address, Access.Outcome i n bad reason address (access address) := by
  have hm' : i.memory.Fits (2 ^ 34) := hm.mono (by decide)
  cases ha with
  | load dst length value =>
    refine ⟨(· == .inaccessible), .inaccessible, rfl, fun address => ?_⟩
    by_cases hover : i.memory.Overruns address length.toNat
    · simp only [Instance.load, Memory.read_of_overruns hm' (by omega) hover, crash_bind]
      exact .overrun hover
    · by_cases hlow : address < 0x10000
      · simp only [Instance.load, Memory.read, hlow, if_true, ret_bind]
        exact .forbidden hlow
      · have hfault : Access.Outcome i length.toNat (· == .inaccessible) .inaccessible address _ :=
          .fault hlow
        rw [UInt64.ofNat_toNat] at hfault
        rcases Memory.covering_cases hm' hover with hc | ⟨r, hc, hr⟩
        · simp only [Instance.load, Memory.read, hlow, if_false, hc, ret_bind]
          exact hfault
        · simp only [Instance.load, Memory.read, hlow, if_false, hc,
            Memory.slice_of_holds (hm'.length_lt r) hr, ret_bind]
          by_cases hacc : (i.memory.segment r).access = .inaccessible
          · simp only [hacc, if_true, ret_bind]
            exact hfault
          · simp only [hacc, if_false, ret_bind]
            obtain ⟨k, hk⟩ := done_of_skip (j := i.setReg dst (value (leNat (((i.memory.segment
              r).data.drop _).take length.toNat)))) hskip rfl rfl
            rw [Instance.setAndSkip, hk]
            exact .done hr
  | store n value =>
    refine ⟨(· != .readWrite), .notWriteable, rfl, fun address => ?_⟩
    have hlen : (toLE n value).length = n := length_toLE n value
    have hsize : (UInt64.ofNat n).toNat = n := toNat_ofNat_of_lt (by omega)
    by_cases hover : i.memory.Overruns address n
    · have hover' : i.memory.Overruns address (toLE n value).length := by rwa [hlen]
      simp only [Instance.store, Memory.write_of_overruns hm' (by omega) hover', crash_bind]
      exact .overrun hover
    · by_cases hlow : address < 0x10000
      · simp only [Instance.store, Memory.write, hlow, if_true, ret_bind]
        exact .forbidden hlow
      · have hfault : Access.Outcome i n (· != .readWrite) .notWriteable address _ := .fault hlow
        rw [← hsize] at hover
        rcases Memory.covering_cases hm' hover with hc | ⟨r, hc, hr⟩
        · simp only [Instance.store, Memory.write, hlow, if_false, hlen, hc, ret_bind]
          exact hfault
        · simp only [Instance.store, Memory.write, hlow, if_false, hlen, hc,
            Memory.slice_of_holds (hm'.length_lt r) hr, ret_bind]
          by_cases hacc : (i.memory.segment r).access = .readWrite
          · simp only [hacc, ne_eq, not_true, if_false, ret_bind]
            obtain ⟨k, hk⟩ := done_of_skip (i := i)
              (j := { i with memory := i.memory.setSegment _ r }) hskip rfl rfl
            rw [hk]
            rw [hsize] at hr
            exact .done hr
          · simp only [hacc, ne_eq, not_false_eq_true, if_true, ret_bind]
            exact hfault

theorem Access.Outcome.error {bad : MemoryAccess → Bool} {reason : FaultReason} {e : Err}
    (h : Access.Outcome i n bad reason address (.ret (i, some e))) :
    e = .panic .forbiddenMemoryAccess ∨ ¬ address < 0x10000 ∧
      e = i.memory.accessFault bad reason address (UInt64.ofNat n) := by
  cases h with
  | forbidden _ => exact .inl rfl
  | fault hlow => exact .inr ⟨hlow, rfl⟩

theorem Access.wraps_iff (ha : Access i n access) (hm : i.memory.Fits (2 ^ 32)) (hn : 0 < n)
    (hn' : n ≤ 8) (hskip : i.skip.Returns) :
    access address = access (address % 0x100000000) ↔ address.toNat < 2 ^ 32 := by
  constructor
  · intro heq
    by_contra hhigh
    have hsize : (UInt64.ofNat n).toNat = n := toNat_ofNat_of_lt (by omega)
    have hmod : (address % 0x100000000).toNat = address.toNat % 2 ^ 32 := UInt64.toNat_mod ..
    have hlow : (address % 0x100000000).toNat < 2 ^ 32 := by omega
    obtain ⟨bad, reason, hbad, houtcome⟩ := ha.outcome hm hn' hskip
    have hwhole := houtcome address
    have hcut := houtcome (address % 0x100000000)
    rw [← heq] at hcut
    generalize access address = x at hwhole hcut
    cases hwhole with
    | forbidden h =>
      rw [UInt64.lt_iff_toNat_lt] at h
      simp only [UInt64.reduceToNat] at h
      omega
    | overrun _ =>
      cases hcut with
      | overrun h =>
        have := h.1
        omega
    | done h => exact hhigh (low_of_holds hm hn h)
    | fault _ =>
      have haddress := address.toNat_lt
      have hcases := Memory.accessFault_low reason hm hbad hlow (hsize.trans_le hn')
      rw [hsize] at hcases
      have herror := hcut.error
      by_cases hend : address.toNat + n < 2 ^ 64
      · -- the first page is lacking, and no access from below 2^32 looks at that page
        have hstart := Memory.pageStart_toNat (address / pageSize)
          (by rw [Memory.page_div]; omega)
        rw [Memory.page_div] at hstart
        rw [Memory.accessFault_high hm hbad (by omega) (by omega)] at herror
        rcases herror with h | ⟨hallowed, h⟩
        · cases h
        · rcases hcases with ⟨a, hfault, ha⟩ | ⟨-, hfault⟩
          · rw [hfault] at h
            rw [← (Err.pageFault.inj h).2, hstart] at ha
            rw [UInt64.lt_iff_toNat_lt] at hallowed
            simp only [UInt64.reduceToNat] at hallowed
            omega
          · rw [hfault] at h
            cases h
      · -- the end wraps around: no page is looked at, but from below 2^32 the page at 2^32 is
        rw [Memory.accessFault_wrapped (by omega) (by omega)] at herror
        rcases herror with h | ⟨-, h⟩
        · cases h
        · rcases hcases with ⟨a, hfault, -⟩ | ⟨hlt, -⟩
          · rw [hfault] at h
            cases h
          · omega
  · intro hlt
    rw [UInt64.mod_eq_of_lt (UInt64.lt_iff_toNat_lt.mpr hlt)]

theorem access_of_effect {i : Instance} {ins : Instruction}
    (h : ins.effect i = .touches address n) :
    ∃ access, Access i n access ∧ 0 < n ∧ n ≤ 8 ∧ i.exec ins = access address := by
  have htaken (c : Bool) (target : UInt64) : Effect.taken c target ≠ .touches address n := by
    cases c <;> simp [Effect.taken]
  have hpos : 0 < n := by
    unfold Instruction.effect at h
    split at h
    all_goals first
      | exact absurd h (htaken _ _)
      | cases h <;> decide
  have hshape := Instance.exec_shape i ins
  generalize i.exec ins = x at hshape
  generalize ins.effect i = effect at h hshape
  cases hshape with
  | load dst _ length value hl =>
    cases h
    exact ⟨_, .load dst length value, hpos, hl, rfl⟩
  | store _ length value hl =>
    cases h
    exact ⟨_, .store n value, hpos, hl, rfl⟩
  | branch condition target => exact absurd h (htaken _ _)
  | _ => cases h

/-- Segments end at 2^32, and the instruction that is executed lies inside the bitmask. -/
theorem addresses_wrap_iff (i : Instance) (hm : i.memory.Fits (2 ^ 32)) (hskip : i.skip.Returns)
    {ins : Instruction} {address : UInt64} {n : Nat} (h : ins.effect i = .touches address n) :
    (∃ access, Access i n access ∧ i.exec ins = access address) ∧
    (∀ access, Access i n access → i.exec ins = access address →
      (i.exec ins = access (address % 0x100000000) ↔ address.toNat < 2 ^ 32)) ∧
    ∀ target, i.djump target = i.djump (target % 0x100000000) := by
  obtain ⟨access, ha, hn, hn', hexec⟩ := access_of_effect h
  refine ⟨⟨access, ha, hexec⟩, fun access' ha' hexec' => ?_, fun target => ?_⟩
  · rw [hexec']
    exact ha'.wraps_iff hm hn hn' hskip
  · have hcut : (target % 0x100000000).toUInt32 = target.toUInt32 := by
      apply UInt32.toNat_inj.mp
      simp
    rw [Instance.djump, Instance.djump, hcut]

def oneArgument : Instance :=
  { Instance.bare 0 [0] [true] with
    memory := { Memory.emptyLayout with args := ⟨0xFEFF0000, [7], .readOnly⟩ } }

theorem addresses_of_oneArgument : oneArgument.memory.Fits (2 ^ 32) ∧ oneArgument.skip.Returns ∧
      ∃ access, Access oneArgument 1 access ∧
        oneArgument.exec (.regImm .loadU8 0 0xFFFFFFFFFEFF0000) = access 0xFFFFFFFFFEFF0000 ∧
        access 0xFFFFFFFFFEFF0000 ≠ access 0xFEFF0000 := by
  have hm : oneArgument.memory.Fits (2 ^ 32) := ⟨fun r => by cases r <;> decide⟩
  have hskip : oneArgument.skip.Returns := by decide
  have heffect : Instruction.effect oneArgument (.regImm .loadU8 0 0xFFFFFFFFFEFF0000) =
      .touches 0xFFFFFFFFFEFF0000 1 := rfl
  obtain ⟨⟨access, ha, hexec⟩, hiff, -⟩ := addresses_wrap_iff oneArgument hm hskip heffect
  refine ⟨hm, hskip, access, ha, hexec, fun heq => ?_⟩
  exact absurd ((hiff access ha hexec).mp (hexec.trans heq)) (by decide)

theorem argument_out_of_reach :
    (∃ j, oneArgument.exec (.regImm .loadU8 0 0xFEFF0000) = .ret (j, none) ∧ j.reg 0 = 7) ∧
      (0xFFFFFFFFFEFF0000 : UInt64) % 0x100000000 = 0xFEFF0000 ∧
      oneArgument.exec (.regImm .loadU8 0 0xFFFFFFFFFEFF0000) =
        .ret (oneArgument, some (.pageFault .inaccessible 0xFFFFFFFFFEFF0000)) :=
  ⟨⟨_, rfl, by decide⟩, by decide, by decide⟩

end Strawberry.Interpreter

namespace Strawberry

theorem Polkavm.skip_le {instructionOffset s : UInt64} {bitmask : List Bool}
    (h : skip instructionOffset bitmask = .ret s) : s.toNat ≤ bitmaskMax := by
  have hscan : ∀ (l : List Bool) (n : Nat), (skipScan l n).toNat ≤ bitmaskMax := by
    intro l
    induction l with
    | nil => exact fun _ => Nat.zero_le _
    | cons b l ih =>
      intro n
      rw [skipScan]
      split
      · exact Nat.le_refl _
      · next hn =>
        split
        · exact (Nat.mod_le _ _).trans (Nat.not_lt.mp hn)
        · exact ih (n + 1)
  rw [skip, bind_eq_ret] at h
  obtain ⟨rest, -, h⟩ := h
  cases h
  exact hscan rest 0

namespace Interpreter

open Polkavm

namespace Instance

variable {i j : Instance}

def charged (i : Instance) : Instance := { i with gasRemaining := i.gasRemaining - 1 }

inductive StepCase (i : Instance) (byte : UInt8) (s : UInt64) : Instance → Option Err → Prop where
  | outOfGas (hgas : i.gasRemaining < gasCosts (Opcode.ofByte byte)) :
    StepCase i byte s i (some .outOfGas)
  | unknown (hop : Opcode.ofByte byte = none) (hgas : ¬ i.gasRemaining < 0) :
    StepCase i byte s i (some (.panic (.unexpectedOpcode byte)))
  | undecoded {op : Opcode} {e : Err} (hop : Opcode.ofByte byte = some op)
    (hgas : ¬ i.gasRemaining < 1) (hins : i.decode s op = .ret (.error e)) :
    StepCase i byte s i.charged (some e)
  | executed {op : Opcode} {ins : Instruction} {j : Instance} {e : Option Err}
    (hop : Opcode.ofByte byte = some op) (hgas : ¬ i.gasRemaining < 1)
    (hins : i.decode s op = .ret (.ok ins)) (hexec : i.charged.exec ins = .ret (j, e)) :
    StepCase i byte s j e

theorem step_cases {e : Option Err} (h : i.step = .ret (j, e)) :
    ∃ byte s, i.code[i.instructionCounter.toNat]? = some byte ∧
      Polkavm.skip i.instructionCounter i.bitmask = .ret s ∧ StepCase i byte s j e := by
  unfold step at h
  rw [bind_eq_ret] at h
  obtain ⟨s, hs, h⟩ := h
  rw [bind_eq_ret] at h
  obtain ⟨byte, hbyte, h⟩ := h
  have hc := indexAt_returns.mp ⟨byte, hbyte⟩
  rw [indexAt_of_lt hc] at hbyte
  refine ⟨byte, s, ?_, hs, ?_⟩
  · rw [List.getElem?_eq_getElem hc]
    exact congrArg some (Outcome.ret.inj hbyte)
  dsimp only at h
  cases hgas : i.deductGas (gasCosts (Opcode.ofByte byte)) with
  | error e' =>
    rw [hgas] at h
    cases h
    obtain ⟨rfl, hlt⟩ := deductGas_error hgas
    exact .outOfGas (Int64.lt_iff_toInt_lt.mpr hlt)
  | ok i' =>
    simp only [hgas] at h
    obtain ⟨rfl, hlt⟩ := deductGas_ok hgas
    cases hop : Opcode.ofByte byte with
    | none =>
      rw [hop] at h hlt
      cases h
      have hzero : i.gasRemaining - gasCosts none = i.gasRemaining := Int64.sub_zero _
      rw [hzero]
      exact .unknown hop hlt
    | some op =>
      rw [hop] at h hlt
      rw [bind_eq_ret] at h
      obtain ⟨e' | ins, hins, h⟩ := h
      · cases h
        exact .undecoded hop hlt hins
      · exact .executed hop hlt hins h

variable {e : Err}

theorem load_failed {dst : Reg} {address length : UInt64} {value : Nat → UInt64}
    (h : i.load dst address length value = .ret (j, some e)) : j = i := by
  rw [load, bind_eq_ret] at h
  obtain ⟨e' | bytes, -, h⟩ := h
  · cases h
    rfl
  · cases done_err h

theorem branch_failed {condition : Bool} {target : UInt64}
    (h : i.branch condition target = .ret (j, some e)) :
    j = i ∧ ∃ opcode, e = .panic (.nonBlockTarget target opcode) := by
  unfold branch at h
  split at h
  · split at h
    · cases h
    · rw [bind_eq_ret] at h
      obtain ⟨opcode, -, h⟩ := h
      cases h
      exact ⟨rfl, opcode, rfl⟩
  · cases done_err h

theorem djump_failed {address : UInt64} (h : i.djump address = .ret (j, some e)) :
    j = i ∧ (e = .halt ∨ ∃ msg, e = .panic msg) := by
  unfold djump at h
  simp only at h
  split at h
  · cases h
    exact ⟨rfl, .inl rfl⟩
  · split at h
    · cases h
      exact ⟨rfl, .inr ⟨_, rfl⟩⟩
    · rw [bind_eq_ret] at h
      obtain ⟨offset, -, h⟩ := h
      split at h
      · cases h
      · cases h
        exact ⟨rfl, .inr ⟨_, rfl⟩⟩

theorem loadImmAndJump_failed {ra : Reg} {value target s : UInt64}
    (hs : Polkavm.skip i.instructionCounter i.bitmask = .ret s)
    (h : i.loadImmAndJump ra value target = .ret (j, some e)) :
    j.instructionCounter = i.instructionCounter + (1 + s) ∧ ∃ msg, e = .panic msg := by
  rw [loadImmAndJump, bind_eq_ret] at h
  obtain ⟨r, hload, h⟩ := h
  obtain ⟨rfl, opcode, rfl⟩ := branch_failed h
  simp only [loadImm, setAndSkip, done, Instance.skip, setReg, hs, ret_bind, pure_eq] at hload
  cases hload
  exact ⟨rfl, _, rfl⟩

def Failed (i j : Instance) (e : Err) : Prop :=
  j = i ∨ ∃ ra value, j = i.setReg ra value ∧ (e = .halt ∨ ∃ msg, e = .panic msg)

theorem Shape.failed {x : Exec} {effect : Effect} (hx : Shape i x effect)
    (hno : ∀ t, effect ≠ .jumps t) (h : x = .ret (j, some e)) : Failed i j e := by
  cases hx with
  | exit he =>
    cases h
    exact .inl rfl
  | stay | set => cases done_err h
  | load => exact .inl (load_failed h)
  | store => exact .inl (store_failed h)
  | branch => exact .inl (branch_failed h).1
  | loadImmAndJump ra value target => exact absurd rfl (hno target)
  | djump => exact .inl (djump_failed h).1
  | loadImmAndJumpIndirect ra base value offset =>
    obtain ⟨rfl, he⟩ := djump_failed h
    exact .inr ⟨ra, value, rfl, he⟩
  | sbrk => exact .inl (sbrk_failed h)

theorem exec_failed {ins : Instruction} (h : i.exec ins = .ret (j, some e))
    (hins : ∀ ra value target, ins ≠ .regImmOffset .loadImmAndJump ra value target) :
    Failed i j e := by
  cases ins with
  | regImmOffset op a x y =>
    cases op
    case loadImmAndJump => exact absurd rfl (hins a x y)
    all_goals exact .inl (branch_failed h).1
  | offset op x =>
    exact .inl (branch_failed (show i.branch true x = _ from h)).1
  | reg2Offset op a b x =>
    cases op
    all_goals exact .inl (branch_failed h).1
  | none op | imm op x | regImmExt op a x | imm2 op x y | regImm op a x | regImm2 op a x y
  | regReg op a b | reg2Imm op a b x | reg2Imm2 op a b x y | reg3 op d a b =>
    refine (exec_shape i _).failed ?_ h
    intro t
    cases op <;> rintro ⟨⟩

def Decodes (i : Instance) (ins : Instruction) : Prop :=
  ∃ byte op s, i.code[i.instructionCounter.toNat]? = some byte ∧ Opcode.ofByte byte = some op ∧
    Polkavm.skip i.instructionCounter i.bitmask = .ret s ∧ i.decode s op = .ret (.ok ins)

theorem Decodes.unique {byte : UInt8} {op : Opcode} {s : UInt64} {ins : Instruction}
    {r : Except Err Instruction} (h : i.Decodes ins)
    (hbyte : i.code[i.instructionCounter.toNat]? = some byte) (hop : Opcode.ofByte byte = some op)
    (hs : Polkavm.skip i.instructionCounter i.bitmask = .ret s) (hr : i.decode s op = .ret r) :
    r = .ok ins := by
  obtain ⟨byte', op', s', hbyte', hop', hs', hins⟩ := h
  rw [hbyte] at hbyte'
  cases hbyte'
  rw [hop] at hop'
  cases hop'
  rw [hs] at hs'
  cases hs'
  rw [hr] at hins
  exact Outcome.ret.inj hins

theorem eq_of_exit {e : Err} (h : i.step = .ret (j, some e)) (hpanic : ∀ msg, e ≠ .panic msg)
    (hhalt : e ≠ .halt) : j = { i with gasRemaining := j.gasRemaining } := by
  obtain ⟨byte, s, -, hs, hcase⟩ := step_cases h
  cases hcase with
  | outOfGas | unknown | undecoded => rfl
  | @executed op ins _ _ _ _ _ hexec =>
    by_cases hload : ∃ ra value target, ins = .regImmOffset .loadImmAndJump ra value target
    · obtain ⟨ra, value, target, rfl⟩ := hload
      obtain ⟨-, msg, rfl⟩ := loadImmAndJump_failed (i := i.charged) hs hexec
      exact absurd rfl (hpanic msg)
    · simp only [not_exists] at hload
      rcases exec_failed hexec hload with rfl | ⟨ra, value, rfl, rfl | ⟨msg, rfl⟩⟩
      · rfl
      · exact absurd rfl hhalt
      · exact absurd rfl (hpanic msg)

def tableCost (i : Instance) : Gas :=
  (i.code[i.instructionCounter.toNat]?.map fun byte => gasCosts (Opcode.ofByte byte)).getD 0

theorem tableCost_of_byte {byte : UInt8} (h : i.code[i.instructionCounter.toNat]? = some byte) :
    i.tableCost = gasCosts (Opcode.ofByte byte) := by
  rw [tableCost, h]
  rfl

/-- When an exit leaves the counter at the instruction. -/
theorem exits_stay_iff {i j : Instance} {e : Err} (h : i.step = .ret (j, some e)) :
    (j.instructionCounter = i.instructionCounter ↔ i.gasRemaining < i.tableCost ∨
      ¬ ∃ ra value target, i.Decodes (.regImmOffset .loadImmAndJump ra value target)) ∧
    ((e = .outOfGas ∨ ∃ reason address, e = .pageFault reason address) →
      j = { i with gasRemaining := j.gasRemaining }) := by
  constructor
  swap
  · rintro (rfl | ⟨reason, address, rfl⟩)
    · exact eq_of_exit h (by simp) (by simp)
    · exact eq_of_exit h (by simp) (by simp)
  obtain ⟨byte, s, hbyte, hs, hcase⟩ := step_cases h
  cases hcase with
  | outOfGas hgas =>
    rw [tableCost_of_byte hbyte]
    exact iff_of_true rfl (.inl hgas)
  | unknown hop hgas =>
    refine iff_of_true rfl (.inr ?_)
    rintro ⟨_, _, _, byte', op, _, hbyte', hop', -⟩
    rw [hbyte] at hbyte'
    cases hbyte'
    rw [hop] at hop'
    cases hop'
  | undecoded hop hgas hins =>
    refine iff_of_true rfl (.inr ?_)
    rintro ⟨_, _, _, hdec⟩
    cases hdec.unique hbyte hop hs hins
  | @executed op ins _ _ hop hgas hins hexec =>
    by_cases hload : ∃ ra value target, ins = .regImmOffset .loadImmAndJump ra value target
    · obtain ⟨ra, value, target, rfl⟩ := hload
      obtain ⟨hcounter, msg, rfl⟩ := loadImmAndJump_failed (i := i.charged) hs hexec
      refine iff_of_false ?_ ?_
      · rw [hcounter]
        intro heq
        have hle : s.toNat ≤ 24 := skip_le hs
        have hzero := congrArg UInt64.toNat (add_eq_left.mp heq)
        rw [toNat_add_of_lt (by simp; omega)] at hzero
        simp at hzero
      · rintro (hcost | hno)
        · rw [tableCost_of_byte hbyte, hop] at hcost
          exact hgas hcost
        · exact hno ⟨ra, value, target, byte, op, s, hbyte, hop, hs, hins⟩
    · refine iff_of_true ?_ (.inr ?_)
      · simp only [not_exists] at hload
        rcases exec_failed hexec hload with rfl | ⟨ra, value, rfl, -⟩
        · rfl
        · rfl
      · rintro ⟨ra, value, target, hdec⟩
        cases hdec.unique hbyte hop hs hins
        exact hload ⟨ra, value, target, rfl⟩

def selfLoadJump : Instance := bare 1 [80, 0, 1, 0] [true, false, false, true]

theorem step_selfLoadJump :
    selfLoadJump.step = .ret ({ selfLoadJump with instructionCounter := 3, gasRemaining := 0 },
      some (.panic (.nonBlockTarget 1 0))) := by
  decide

theorem exits_stay_of_selfLoadJump :
    ∃ j e, selfLoadJump.step = .ret (j, some e) ∧ (j.instructionCounter = 0 ↔
      selfLoadJump.gasRemaining < selfLoadJump.tableCost ∨
      ¬ ∃ ra value target, selfLoadJump.Decodes (.regImmOffset .loadImmAndJump ra value target)) :=
  ⟨_, _, step_selfLoadJump, (exits_stay_iff step_selfLoadJump).1⟩

theorem failed_jump_moves_on :
    ∃ j, selfLoadJump.step = .ret (j, some (.panic (.nonBlockTarget 1 0))) ∧
      j.instructionCounter = 3 ∧ selfLoadJump.instructionCounter = 0 :=
  ⟨_, step_selfLoadJump, rfl, rfl⟩

def paid (i : Instance) : Int := if i.gasRemaining < i.tableCost then 0 else i.tableCost.toInt

theorem toInt_charged (h : ¬ i.gasRemaining < 1) :
    i.charged.gasRemaining.toInt = i.gasRemaining.toInt - 1 ∧ 1 ≤ i.gasRemaining.toInt := by
  have hone : (1 : Gas).toInt = 1 := rfl
  have hhi := i.gasRemaining.toInt_lt
  rw [Int64.lt_iff_toInt_lt] at h
  rw [charged, toInt_sub_of_le (by omega) (by omega)]
  omega

theorem step_paid {e : Option Err} (h : i.step = .ret (j, e)) :
    (0 ≤ i.gasRemaining.toInt → 0 ≤ j.gasRemaining.toInt) ∧
      j.gasRemaining.toInt = i.gasRemaining.toInt - i.paid ∧ (e = none → 1 ≤ i.paid) := by
  obtain ⟨byte, s, hbyte, -, hcase⟩ := step_cases h
  have hcost := tableCost_of_byte hbyte
  have hpaid (op : Opcode) (hop : Opcode.ofByte byte = some op) (hgas : ¬ i.gasRemaining < 1) :
      i.paid = 1 := by
    rw [paid, hcost, hop]
    exact if_neg hgas
  cases hcase with
  | outOfGas hgas =>
    rw [paid, hcost, if_pos hgas]
    exact ⟨id, by omega, by simp⟩
  | unknown hop hgas =>
    have hzero : i.paid = 0 := by
      rw [paid, hcost, hop]
      exact if_neg hgas
    exact ⟨id, by omega, by simp⟩
  | undecoded hop hgas hins =>
    rw [hpaid _ hop hgas]
    have := toInt_charged hgas
    omega
  | executed hop hgas hins hexec =>
    rw [hpaid _ hop hgas, ((exec_total _ _).2 _ hexec).kept.gasRemaining]
    have := toInt_charged hgas
    omega

inductive Pays : Nat → Int → Instance → Instance → Prop where
  | refl (i : Instance) : Pays 0 0 i i
  | head {n : Nat} {total : Int} {i j k : Instance} (h : i.step = .ret (j, none))
    (hs : Pays n total j k) : Pays (n + 1) (i.paid + total) i k

theorem invokeRound_of_step (h : i.step = .ret (j, none)) : invokeRound i = .ret (.next j) := by
  simp [invokeRound, h]

theorem Pays.steps {n : Nat} {total : Int} {k : Instance} (h : Pays n total i k) :
    Steps invokeRound n i k := by
  induction h with
  | refl i => exact .refl i
  | head h _ ih => exact .head (invokeRound_of_step h) ih

theorem exists_pays {g : Nat} {i : Instance} (hg : i.gasRemaining.toInt = g)
    (hreads : ∀ n j, Steps invokeRound n i j → j.step.Returns) :
    ∃ n total k j e, Pays n total i k ∧ k.step = .ret (j, some e) ∧ n ≤ g ∧
      0 ≤ j.gasRemaining.toInt ∧ j.gasRemaining.toInt = g - (total + k.paid) := by
  induction g using Nat.strong_induction_on generalizing i with
  | _ g ih =>
    obtain ⟨⟨j, e⟩, hstep⟩ := hreads 0 i (.refl i)
    obtain ⟨hpos, hgas, hpaid⟩ := step_paid hstep
    cases e with
    | some e => exact ⟨0, 0, i, j, e, .refl i, hstep, Nat.zero_le g, by omega, by omega⟩
    | none =>
      have hone := hpaid rfl
      obtain ⟨n, total, k, j', e, hpays, hk, hn, hj', htotal⟩ :=
        ih (g - i.paid.toNat) (by omega) (i := j) (by omega)
          fun n k hs => hreads (n + 1) k (.head (invokeRound_of_step hstep) hs)
      exact ⟨n + 1, i.paid + total, k, j', e, .head hstep hpays, hk, by omega, hj', by omega⟩

/-- A machine that is stopped by nothing else runs out of gas. -/
theorem metered_termination {i : Instance} (hgas : 0 ≤ i.gasRemaining.toInt)
    (hreads : ∀ n j, Steps invokeRound n i j → j.step.Returns) :
    (∃ n total k j e, Pays n total i k ∧ k.step = .ret (j, some e) ∧ invoke i = .ret (j, e) ∧
      (n : Int) + 1 ≤ i.gasRemaining.toInt + 1 ∧ 0 ≤ j.gasRemaining.toInt ∧
      j.gasRemaining.toInt = i.gasRemaining.toInt - (total + k.paid)) ∧
    ∀ a b : Instance, a.step = .ret (b, none) → 1 ≤ a.paid := by
  refine ⟨?_, fun a b h => (step_paid h).2.2 rfl⟩
  obtain ⟨g, hg⟩ := Int.eq_ofNat_of_zero_le hgas
  obtain ⟨n, total, k, j, e, hpays, hk, hn, hj, htotal⟩ := exists_pays hg hreads
  refine ⟨n, total, k, j, e, hpays, hk, ?_, by omega, hj, by omega⟩
  exact loop_eq_ret.mpr ⟨n, k, by omega, hpays.steps, by simp [invokeRound, hk]⟩

theorem returns_of_exit (h : i.step = .ret (j, some e)) :
    ∀ n k, Steps invokeRound n i k → k.step.Returns := by
  intro n k hs
  cases hs with
  | refl => exact ⟨_, h⟩
  | head hround _ => simp [invokeRound, h] at hround

theorem returns_of_step (h : i.step = .ret (j, none))
    (hj : ∀ n k, Steps invokeRound n j k → k.step.Returns) :
    ∀ n k, Steps invokeRound n i k → k.step.Returns := by
  intro n k hs
  cases hs with
  | refl => exact ⟨_, h⟩
  | head hround hs =>
    rw [invokeRound_of_step h] at hround
    cases hround
    exact hj _ k hs

def twoFallthroughs : Instance := bare 3 [1, 1, 0] [true, true, true]

theorem metered_termination_of_twoFallthroughs :
    ∃ n total k j e, Pays n total twoFallthroughs k ∧ k.step = .ret (j, some e) ∧
      invoke twoFallthroughs = .ret (j, e) ∧ (n : Int) + 1 ≤ 3 + 1 ∧
      0 ≤ j.gasRemaining.toInt ∧ j.gasRemaining.toInt = 3 - (total + k.paid) := by
  have hfirst : twoFallthroughs.step =
      .ret ({ twoFallthroughs with instructionCounter := 1, gasRemaining := 2 }, none) := by decide
  have hsecond : { twoFallthroughs with instructionCounter := 1, gasRemaining := 2 : Instance }.step =
      .ret ({ twoFallthroughs with instructionCounter := 2, gasRemaining := 1 }, none) := by decide
  exact (metered_termination (i := twoFallthroughs) (by decide)
    (returns_of_step hfirst (returns_of_step hsecond (returns_of_exit rfl)))).1

end Instance
end Interpreter
end Strawberry
