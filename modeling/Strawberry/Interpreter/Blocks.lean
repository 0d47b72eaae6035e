import Strawberry.Interpreter.Runs
import Strawberry.Interpreter.Safety

/-!
# Basic blocks and where jumps land

Blocks are collected with the bitmask of the blob; at run time a one stands behind it.
-/

namespace Strawberry.Polkavm

open List

def gap (bitmask : List Bool) (n : Nat) : Nat := (bitmask.drop (n + 1)).findIdx id

def skipExtended (bitmask : List Bool) (n : Nat) : Nat := min bitmaskMax (gap bitmask n)

variable {bitmask : List Bool} {n m : Nat}

theorem gap_le (bitmask : List Bool) (n : Nat) : gap bitmask n ≤ bitmask.length - (n + 1) := by
  have hle : gap bitmask n ≤ (bitmask.drop (n + 1)).length := findIdx_le_length
  rwa [length_drop] at hle

theorem marked_of_gap_lt (h : gap bitmask n < bitmask.length - (n + 1)) :
    bitmask[n + 1 + gap bitmask n]? = some true := by
  rw [← length_drop] at h
  rw [← List.getElem?_drop, List.getElem?_eq_getElem h]
  exact congrArg some (findIdx_getElem (w := h))

theorem gap_le_of_marked (hn : n < m) (hm : bitmask[m]? = some true) :
    n + 1 + gap bitmask n ≤ m := by
  refine Nat.le_of_not_lt fun hlt => ?_
  have hbefore : m - (n + 1) < (bitmask.drop (n + 1)).findIdx id := by
    rw [gap] at hlt
    omega
  have hunmarked : (bitmask.drop (n + 1))[m - (n + 1)]? = some false := by
    rw [List.getElem?_eq_getElem (Nat.lt_of_lt_of_le hbefore findIdx_le_length)]
    exact congrArg some (not_of_lt_findIdx hbefore)
  rw [List.getElem?_drop, Nat.add_sub_cancel' hn, hm] at hunmarked
  cases hunmarked

theorem toNat_skipScan {rest : List Bool} {k : Nat} (hk : k ≤ 25) : (skipScan rest k).toNat =
      if rest.findIdx id < rest.length ∨ 26 ≤ k + rest.length
      then min bitmaskMax (k + rest.findIdx id) else 0 := by
  induction rest generalizing k with
  | nil =>
    rw [if_neg (by simp; omega)]
    rfl
  | cons b rest ih =>
    rw [skipScan, findIdx_cons, length_cons]
    by_cases hmax : bitmaskMax < k
    · -- the maximum is passed, by a mark behind it or by the length of the rest
      have hmax' : bitmaskMax = 24 := rfl
      rw [if_pos hmax, if_pos (by omega), Nat.min_eq_left (by omega)]
      rfl
    · have hmax' : bitmaskMax = 24 := rfl
      rw [if_neg hmax]
      cases b with
      | true =>
        rw [if_pos rfl, id, cond_true, if_pos (by omega), Nat.add_zero,
          Nat.min_eq_right (by omega), UInt64.toNat_ofNat']
        omega
      | false =>
        rw [if_neg Bool.false_ne_true, ih (by omega), id, cond_false]
        congr 1
        · rw [eq_iff_iff]
          omega
        · omega

def skipBefore (bitmask : List Bool) (n : Nat) : Nat :=
  if gap bitmask n < bitmask.length - (n + 1) ∨ 26 ≤ bitmask.length - (n + 1)
  then skipExtended bitmask n else 0

theorem skipBefore_le (bitmask : List Bool) (n : Nat) : skipBefore bitmask n ≤ gap bitmask n := by
  unfold skipBefore skipExtended
  split
  · exact Nat.min_le_right _ _
  · exact Nat.zero_le _

theorem skip_of_lt (h : n < bitmask.length)
    (hsize : bitmask.length < 2 ^ 64) :
    ∃ s, skip (UInt64.ofNat n) bitmask = .ret s ∧ s.toNat = skipBefore bitmask n := by
  have hn : (UInt64.ofNat n).toNat = n := toNat_ofNat_of_lt (by omega)
  have hnext : (UInt64.ofNat n + 1).toNat = n + 1 := by
    rw [toNat_add_of_lt (by simp only [hn, UInt64.reduceToNat]; omega), hn]
    rfl
  refine ⟨skipScan (bitmask.drop (n + 1)) 0, ?_, ?_⟩
  · rw [skip, hnext, sliceOf_of_le (by omega) (Nat.le_refl _),
      take_of_length_le (by rw [length_drop])]
    rfl
  · rw [toNat_skipScan (Nat.zero_le _), Nat.zero_add, Nat.zero_add, length_drop]
    rfl

structure Terminates (d : Deblobbed) (n : Nat) : Prop where
  marked : d.bitmask[n]? = some true
  opcode : ∃ c, d.code[n]? = some c ∧ (Opcode.ofByte c).any Opcode.isBasicBlockTermination

def blockStarts (d : Deblobbed) : Set Nat :=
  {b | b = 0 ∨ ∃ n, Terminates d n ∧ b = n + 1 + skipExtended d.bitmask n}

structure CutAt (d : Deblobbed) (n : Nat) : Prop where
  terminates : Terminates d n
  last : gap d.bitmask n = d.bitmask.length - (n + 1)
  operands : n + 1 < d.bitmask.length
  short : d.bitmask.length - (n + 1) ≤ 25

def ShortInstructions (d : Deblobbed) : Prop :=
  ∀ n, d.bitmask[n]? = some true → 1 + gap d.bitmask n ≤ 25

def LandsRight (d : Deblobbed) (target : Nat) : Prop :=
  target = 0 ∨ d.bitmask[target]? = some true ∨ target = d.code.length

def collectedStarts (d : Deblobbed) : Set Nat :=
  {b | b = 0 ∨ ∃ n, Terminates d n ∧ b = n + 1 + skipBefore d.bitmask n}

variable {d : Deblobbed}

theorem Terminates.lt (h : Terminates d n) : n < d.bitmask.length :=
  (List.getElem?_eq_some_iff.mp h.marked).1

theorem skipBefore_of_cutAt (h : CutAt d n) :
    skipBefore d.bitmask n = 0 ∧ 0 < skipExtended d.bitmask n := by
  have hlast := h.last
  have hops := h.operands
  have hshort := h.short
  have hmax : bitmaskMax = 24 := rfl
  refine ⟨if_neg (by omega), ?_⟩
  rw [skipExtended]
  omega

theorem skipBefore_of_not_cutAt (ht : Terminates d n) (h : ¬ CutAt d n) :
    skipBefore d.bitmask n = skipExtended d.bitmask n := by
  have hle := gap_le d.bitmask n
  unfold skipBefore
  split
  · rfl
  · next hnone =>
    have hend : ¬ n + 1 < d.bitmask.length := fun hops => h ⟨ht, by omega, hops, by omega⟩
    rw [skipExtended]
    omega

theorem collectedStarts_eq_iff : collectedStarts d = blockStarts d ↔ ¬ ∃ n, CutAt d n := by
  constructor
  · rintro heq ⟨n, hcut⟩
    obtain ⟨hzero, hpos⟩ := skipBefore_of_cutAt hcut
    have hstart : n + 1 + skipExtended d.bitmask n ∈ collectedStarts d := by
      rw [heq]
      exact .inr ⟨n, hcut.terminates, rfl⟩
    rcases hstart with h | ⟨m, hm, h⟩
    · omega
    · rcases Nat.lt_trichotomy m n with hlt | rfl | hgt
      · have hle := gap_le_of_marked hlt hcut.terminates.marked
        have hskip := skipBefore_le d.bitmask m
        omega
      · omega
      · have hle := gap_le_of_marked hgt hm.marked
        have hlast := hcut.last
        have hlt := hm.lt
        omega
  · intro hcut
    have hskip (n : Nat) (ht : Terminates d n) :
        skipBefore d.bitmask n = skipExtended d.bitmask n :=
      skipBefore_of_not_cutAt ht fun h => hcut ⟨n, h⟩
    ext b
    refine or_congr_right (exists_congr fun n => and_congr_right fun ht => ?_)
    rw [hskip n ht]

theorem lands_iff (hlen : d.bitmask.length = d.code.length) (hshort : ShortInstructions d)
    {b : Nat} (hb : b ∈ collectedStarts d) :
    LandsRight d b ↔ ∀ n, CutAt d n → b ≠ n + 1 := by
  constructor
  · rintro hlands n hcut rfl
    have hops := hcut.operands
    rcases hlands with h | h | h
    · omega
    · have hle := gap_le_of_marked (Nat.lt_succ_self n) h
      have hlast := hcut.last
      omega
    · omega
  · intro hne
    rcases hb with rfl | ⟨n, ht, rfl⟩
    · exact .inl rfl
    have hgap := hshort n ht.marked
    have hle := gap_le d.bitmask n
    have hmax : bitmaskMax = 24 := rfl
    by_cases hcut : CutAt d n
    · have hzero := (skipBefore_of_cutAt hcut).1
      exact absurd (by rw [hzero]) (hne n hcut)
    · have hskip : skipBefore d.bitmask n = gap d.bitmask n := by
        rw [skipBefore_of_not_cutAt ht hcut, skipExtended]
        omega
      rw [hskip]
      by_cases hmark : gap d.bitmask n < d.bitmask.length - (n + 1)
      · exact .inr (.inl (marked_of_gap_lt hmark))
      · have hlt := ht.lt
        refine .inr (.inr ?_)
        omega

end Strawberry.Polkavm

namespace Strawberry.Interpreter

open Polkavm Jam List

theorem mem_collectBlock {d : Deblobbed} (hd : d.Matched) {entry : Bool × Nat}
    {blocks blocks' : List UInt64} (hentry : d.bitmask[entry.2]? = some entry.1)
    (h : collectBlock d.code d.bitmask blocks entry = .ret blocks') (b : Nat) :
    (∃ w ∈ blocks', w.toNat = b) ↔ (∃ w ∈ blocks, w.toNat = b) ∨
      Terminates d entry.2 ∧ b = entry.2 + 1 + skipBefore d.bitmask entry.2 := by
  obtain ⟨hlen, hmax⟩ := hd
  have hmax' : maxUint32 < 2 ^ 32 := by decide
  have hlt := (List.getElem?_eq_some_iff.mp hentry).1
  have hcode : entry.2 < d.code.length := by omega
  unfold collectBlock at h
  split at h
  · next hmark =>
    rw [hmark] at hentry
    rw [indexAt_of_lt hcode, ret_bind] at h
    split at h
    · next hop =>
      obtain ⟨s, hs, hsnat⟩ := skip_of_lt hlt (by omega)
      rw [hs, ret_bind] at h
      cases h
      have hskip := skipBefore_le d.bitmask entry.2
      have hgap := gap_le d.bitmask entry.2
      have hn : (UInt64.ofNat entry.2).toNat = entry.2 := toNat_ofNat_of_lt (by omega)
      have hnext : (UInt64.ofNat entry.2 + 1 + s).toNat =
          entry.2 + 1 + skipBefore d.bitmask entry.2 := by
        have hone : (1 : UInt64).toNat = 1 := rfl
        rw [UInt64.toNat_add, UInt64.toNat_add, hn, hsnat, hone]
        omega
      have hterm : Terminates d entry.2 := ⟨hentry, _, List.getElem?_eq_getElem hcode, hop⟩
      simp only [mem_cons, exists_eq_or_imp, hnext, hterm, true_and]
      rw [or_comm, eq_comm (a := b)]
    · next hop =>
      cases h
      refine (or_iff_left ?_).symm
      rintro ⟨⟨-, c, hc, hterm⟩, -⟩
      rw [List.getElem?_eq_getElem hcode] at hc
      cases hc
      exact hop hterm
  · next hmark =>
    cases h
    refine (or_iff_left ?_).symm
    rintro ⟨hterm, -⟩
    rw [hterm.marked] at hentry
    exact hmark (Option.some.inj hentry).symm

theorem mem_collectBlocks {d : Deblobbed} (hd : d.Matched) {entries : List (Bool × Nat)}
    {blocks blocks' : List UInt64}
    (hent : ∀ entry ∈ entries, d.bitmask[entry.2]? = some entry.1)
    (h : entries.foldlM (collectBlock d.code d.bitmask) blocks = .ret blocks') (b : Nat) :
    (∃ w ∈ blocks', w.toNat = b) ↔ (∃ w ∈ blocks, w.toNat = b) ∨
      ∃ entry ∈ entries, Terminates d entry.2 ∧ b = entry.2 + 1 + skipBefore d.bitmask entry.2 := by
  induction entries generalizing blocks with
  | nil =>
    cases h
    simp
  | cons entry entries ih =>
    rw [foldlM_cons, bind_eq_ret] at h
    obtain ⟨blocks₁, hfirst, hrest⟩ := h
    rw [ih (fun e he => hent e (mem_cons_of_mem _ he)) hrest,
      mem_collectBlock hd (hent entry mem_cons_self) hfirst, or_assoc]
    simp only [mem_cons, exists_eq_or_imp]

def Instance.blockOffsets (i : Instance) : Set Nat :=
  {b | ∃ w ∈ i.basicBlockInstructions, w.toNat = b}

theorem blockOffsets_of_instantiate {program : List UInt8} {offset : UInt64} {gas : Gas}
    {regs : Registers} {memory : Memory} {i : Instance}
    (h : instantiate program offset gas regs memory = .ret (.ok i)) :
    ∃ d, deblob program = .ret (.ok d) ∧ d.Matched ∧ i.blockOffsets = collectedStarts d := by
  rw [instantiate, bind_eq_ret] at h
  obtain ⟨res, hres, h⟩ := h
  cases res with
  | error e => cases h
  | ok d =>
    have hd := deblob_matched hres
    simp only [bind_eq_ret] at h
    obtain ⟨blocks, hblocks, h⟩ := h
    cases h
    refine ⟨d, hres, hd, ?_⟩
    have hent : ∀ entry ∈ d.bitmask.zipIdx, d.bitmask[entry.2]? = some entry.1 :=
      fun entry he => mem_zipIdx_iff_getElem?.mp he
    ext b
    refine (mem_collectBlocks hd hent hblocks b).trans ?_
    refine or_congr (by simp [eq_comm]) ⟨?_, ?_⟩
    · rintro ⟨entry, -, hentry⟩
      exact ⟨entry.2, hentry⟩
    · rintro ⟨n, hn⟩
      exact ⟨(true, n), mem_zipIdx_iff_getElem?.mpr hn.1.marked, hn⟩

def Instruction.Transfers (i : Instance) : Instruction → Prop
  | .regImm .jumpIndirect _ _ => True
  | .reg2Imm2 .loadImmAndJumpIndirect _ _ _ _ => True
  | ins => ∃ target, ins.effect i = .jumps target

structure TakesJump (i j : Instance) : Prop where
  stepped : i.step = .ret (j, none)
  instruction : ∃ byte op s ins, i.code[i.instructionCounter.toNat]? = some byte ∧
    Opcode.ofByte byte = some op ∧ Polkavm.skip i.instructionCounter i.bitmask = .ret s ∧
    i.decode s op = .ret (.ok ins) ∧ ins.Transfers i

namespace Instance

variable {i j : Instance}

theorem branch_target {condition : Bool} {target t : UInt64}
    (heff : Effect.taken condition target = .jumps t)
    (h : i.branch condition target = .ret (j, none)) :
    j.instructionCounter ∈ i.basicBlockInstructions := by
  cases condition with
  | false => cases heff
  | true =>
    unfold branch at h
    rw [if_pos rfl] at h
    split at h
    · next hmem =>
      cases h
      exact hmem
    · rw [bind_eq_ret] at h
      obtain ⟨_, -, h⟩ := h
      cases h

theorem djump_target {address : UInt64} (h : i.djump address = .ret (j, none)) :
    j.instructionCounter ∈ i.basicBlockInstructions := by
  unfold djump at h
  simp only at h
  split at h
  · cases h
  · split at h
    · cases h
    · rw [bind_eq_ret] at h
      obtain ⟨offset, -, h⟩ := h
      split at h
      · next hmem =>
        cases h
        exact hmem
      · cases h

theorem loadImmAndJump_target {ra : Reg} {value target : UInt64}
    (h : i.loadImmAndJump ra value target = .ret (j, none)) :
    j.instructionCounter ∈ i.basicBlockInstructions := by
  unfold loadImmAndJump at h
  rw [bind_eq_ret] at h
  obtain ⟨r, hr, h⟩ := h
  have hkept := ((setAndSkip_total i ra value).2 r hr).kept
  rw [← hkept.basicBlockInstructions]
  exact branch_target rfl h

theorem Shape.target {x : Exec} {effect : Effect} {t : UInt64} (hx : Shape i x effect)
    (heff : effect = .jumps t) (h : x = .ret (j, none)) :
    j.instructionCounter ∈ i.basicBlockInstructions := by
  cases hx with
  | branch condition target => exact branch_target heff h
  | loadImmAndJump ra value target => exact loadImmAndJump_target h
  | _ => cases heff

theorem exec_target {ins : Instruction} (ht : ins.Transfers i)
    (h : i.exec ins = .ret (j, none)) : j.instructionCounter ∈ i.basicBlockInstructions := by
  unfold Instruction.Transfers at ht
  split at ht
  · exact djump_target h
  · next a _ x _ => exact djump_target (i := i.setReg a x) h
  · obtain ⟨t, ht⟩ := ht
    exact (exec_shape i _).target ht h

theorem transfers_charge {g : Gas} {ins : Instruction} (h : ins.Transfers i) :
    ins.Transfers { i with gasRemaining := g } := by
  exact h

end Instance

theorem TakesJump.target {i j : Instance} (h : TakesJump i j) :
    j.instructionCounter ∈ i.basicBlockInstructions := by
  obtain ⟨hstep, byte, op, s, ins, hbyte, hop, hs, hins, ht⟩ := h
  obtain ⟨hc, hget⟩ := List.getElem?_eq_some_iff.mp hbyte
  rw [Instance.step_eq hs hc, hget] at hstep
  split at hstep
  · cases hstep
  · next i' hgas =>
    obtain ⟨rfl, -⟩ := Instance.deductGas_ok hgas
    have hdecode (g : Gas) : Instance.decode { i with gasRemaining := g } s op = i.decode s op :=
      rfl
    rw [hop] at hstep
    simp only [hdecode, hins, ret_bind] at hstep
    exact Instance.exec_target (i := { i with gasRemaining := i.gasRemaining - gasCosts (some op) })
      (Instance.transfers_charge ht) hstep

theorem Runs.basicBlockInstructions {X : Type} {hostCall : HostCall X} {P : CallCondition X}
    {s t : Instance × X} {n k : Nat} (h : Runs hostCall P s n k t) :
    t.1.basicBlockInstructions = s.1.basicBlockInstructions := by
  induction h with
  | start => rfl
  | instruction _ hstep ih => exact (Instance.step_post _ _ hstep).basicBlockInstructions.trans ih
  | call _ hstep _ _ _ hskip ih =>
    have hkept := ((Instance.skip_total _).2 _ hskip).basicBlockInstructions
    exact hkept.trans ((Instance.step_post _ _ hstep).basicBlockInstructions.trans ih)

/-- When jumps land on the starts of instructions. -/
theorem jump_targets_iff (program : List UInt8) (offset : UInt64) (gas : Gas) (regs : Registers)
    (memory : Memory) (i₀ : Instance)
    (h : instantiate program offset gas regs memory = .ret (.ok i₀)) :
    ∃ d, deblob program = .ret (.ok d) ∧ (i₀.blockOffsets = blockStarts d ↔ ¬ ∃ n, CutAt d n) ∧
      (ShortInstructions d →
        ∀ (X : Type) (hostCall : HostCall X) (x : X) (n k : Nat) (t : Instance × X) (j : Instance),
          Runs hostCall (fun _ _ _ _ _ => True) (i₀, x) n k t → TakesJump t.1 j →
            (LandsRight d j.instructionCounter.toNat ↔
              ∀ m, CutAt d m → j.instructionCounter.toNat ≠ m + 1)) := by
  obtain ⟨d, hd, hmatched, hblocks⟩ := blockOffsets_of_instantiate h
  refine ⟨d, hd, ?_, ?_⟩
  · rw [hblocks]
    exact collectedStarts_eq_iff
  · intro hshort X hostCall x n k t j hrun hjump
    refine lands_iff hmatched.1 hshort ?_
    rw [← hblocks]
    refine ⟨j.instructionCounter, ?_, rfl⟩
    have hkept := hrun.basicBlockInstructions
    rw [← hkept]
    exact hjump.target

def selfJump : Instance :=
  { memory := Memory.emptyLayout, regs := Vector.replicate 13 0, instructionCounter := 0
    gasRemaining := 1, code := [40, 1, 0], jumpTable := [], bitmask := [true, false, true]
    basicBlockInstructions := [1, 0] }

theorem instantiate_selfJump :
    instantiate [0, 0, 2, 40, 1, 1] 0 1 (Vector.replicate 13 0) Memory.emptyLayout =
      .ret (.ok selfJump) := by
  decide

theorem jump_targets_of_selfJump : ∃ d, deblob [0, 0, 2, 40, 1, 1] = .ret (.ok d) ∧
      (selfJump.blockOffsets = blockStarts d ↔ ¬ ∃ n, CutAt d n) ∧
      (ShortInstructions d →
        ∀ (X : Type) (hostCall : HostCall X) (x : X) (n k : Nat) (t : Instance × X) (j : Instance),
          Runs hostCall (fun _ _ _ _ _ => True) (selfJump, x) n k t → TakesJump t.1 j →
            (LandsRight d j.instructionCounter.toNat ↔
              ∀ m, CutAt d m → j.instructionCounter.toNat ≠ m + 1)) :=
  jump_targets_iff _ _ _ _ _ _ instantiate_selfJump

theorem jump_into_operand : deblob [0, 0, 2, 40, 1, 1] = .ret (.ok ⟨[40, 1], [true, false], []⟩) ∧
      ShortInstructions ⟨[40, 1], [true, false], []⟩ ∧
      CutAt ⟨[40, 1], [true, false], []⟩ 0 ∧
      TakesJump selfJump { selfJump with instructionCounter := 1, gasRemaining := 0 } ∧
      ¬ LandsRight ⟨[40, 1], [true, false], []⟩ 1 := by
  refine ⟨by decide, ?_, ?_, ?_, ?_⟩
  · intro n hn
    have hle := gap_le [true, false] n
    simp only [length_cons, length_nil] at hle ⊢
    omega
  · exact ⟨⟨rfl, 40, rfl, by decide⟩, by decide, by decide, by decide⟩
  · exact ⟨by decide, 40, .offset .jump, 1, .offset .jump 1, by decide, by decide, by decide,
      by decide, 1, rfl⟩
  · rintro (h | h | h)
    · cases h
    · cases h
    · cases h

end Strawberry.Interpreter
