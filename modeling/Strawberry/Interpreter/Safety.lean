import Strawberry.Interpreter.Operands

/-!
# When the interpreter does not crash

A blob that is too short, a counter past the code, an access that wraps around.
-/

namespace Strawberry.Interpreter

open Polkavm Jam

def Effect.Safe (i : Instance) : Effect → Prop
  | quiet => True
  | touches address length => ¬ i.memory.Overruns address length
  | jumps target => target ∈ i.basicBlockInstructions ∨ target.toNat < i.code.length

namespace Instance

variable {i : Instance}

def CanSkip (i : Instance) : Prop := (Polkavm.skip i.instructionCounter i.bitmask).Returns

theorem done_returns (h : i.CanSkip) : i.done.Returns := by
  obtain ⟨s, hs⟩ := h
  simp [done, Instance.skip, hs]

theorem setAndSkip_returns (h : i.CanSkip) (dst : Reg) (v : UInt64) :
    (i.setAndSkip dst v).Returns :=
  done_returns (i := i.setReg dst v) h

theorem load_returns_iff (h : i.CanSkip) (hm : i.memory.Sized) {dst : Reg}
    {address length : UInt64} {value : Nat → UInt64} (hl : length.toNat < 2 ^ 63) :
    (i.load dst address length value).Returns ↔ ¬ i.memory.Overruns address length.toNat := by
  rw [load, returns_bind, ← Memory.read_returns_iff hm.fits hl]
  constructor
  · rintro ⟨res, hres, -⟩
    exact ⟨res, hres⟩
  · rintro ⟨res, hres⟩
    refine ⟨res, hres, ?_⟩
    cases res with
    | error e => exact returns_ret _
    | ok bytes => exact setAndSkip_returns h dst _

theorem store_returns_iff (h : i.CanSkip) (hm : i.memory.Sized) {address : UInt64}
    {length value : Nat} (hl : length ≤ 8) :
    (i.store address length value).Returns ↔ ¬ i.memory.Overruns address length := by
  have hlen : (toLE length value).length = length := length_toLE length value
  rw [store, returns_bind]
  rw [show (¬ i.memory.Overruns address length) ↔
    (i.memory.write address (toLE length value)).Returns by
      rw [Memory.write_returns_iff hm.fits (by omega), hlen]]
  constructor
  · rintro ⟨res, hres, -⟩
    exact ⟨res, hres⟩
  · rintro ⟨res, hres⟩
    refine ⟨res, hres, ?_⟩
    cases res with
    | error e => exact returns_ret _
    | ok m' => exact done_returns (i := { i with memory := m' }) h

theorem branch_returns_iff (h : i.CanSkip) {condition : Bool} {target : UInt64} :
    (i.branch condition target).Returns ↔ (Effect.taken condition target).Safe i := by
  cases condition with
  | false => simpa [branch, Effect.taken, Effect.Safe] using done_returns h
  | true =>
    by_cases hb : target ∈ i.basicBlockInstructions
    · simp [branch, Effect.taken, Effect.Safe, hb]
    · simp only [branch, if_true, hb, if_false, Effect.taken, Effect.Safe, false_or,
        returns_bind, pure_eq, returns_ret, and_true]
      exact indexAt_returns

theorem djump_returns (i : Instance) (address : UInt64) : (i.djump address).Returns := by
  unfold djump
  simp only
  split
  · exact returns_ret _
  · split
    · exact returns_ret _
    · next h =>
      have hidx : address.toUInt32.toNat / dynamicAddressAlignment - 1 < i.jumpTable.length := by
        simp only [dynamicAddressAlignment, not_or] at h ⊢
        have hne : address.toUInt32.toNat ≠ 0 := fun h0 =>
          h.1 (UInt32.toNat_inj.mp (by simpa using h0))
        omega
      rw [indexAt_of_lt hidx, ret_bind]
      split <;> exact returns_ret _

theorem sbrk_returns (h : i.CanSkip) (hm : i.memory.Sized) (dst sizeReg : Reg) :
    (i.sbrk dst sizeReg).Returns := by
  obtain ⟨res, hres⟩ := Memory.sbrk_returns hm (i.reg sizeReg)
  rw [sbrk, hres, ret_bind]
  cases res with
  | error e => exact returns_ret _
  | ok r => exact setAndSkip_returns (i := { i with memory := r.1 }) h dst r.2

theorem loadImmAndJump_returns_iff (h : i.CanSkip) {ra : Reg} {value target : UInt64} :
    (i.loadImmAndJump ra value target).Returns ↔ (Effect.jumps target).Safe i := by
  obtain ⟨s, hs⟩ := h
  have hload : i.loadImm ra value = .ret ({ i.setReg ra value with
      instructionCounter := i.instructionCounter + (1 + s) }, none) := by
    simp [loadImm, setAndSkip, done, Instance.skip, setReg, hs]
  rw [loadImmAndJump, hload, ret_bind]
  simp only [jump, branch, if_true]
  by_cases hb : target ∈ i.basicBlockInstructions
  · simp [setReg, Effect.Safe, hb]
  · simp only [setReg, hb, if_false, Effect.Safe, false_or, returns_bind,
      pure_eq, returns_ret, and_true]
    exact indexAt_returns

theorem quiet_iff {x : Exec} (h : x.Returns) : x.Returns ↔ Effect.quiet.Safe i :=
  ⟨fun _ => trivial, fun _ => h⟩

theorem Shape.returns_iff {x : Exec} {effect : Effect} (hx : Shape i x effect) (h : i.CanSkip)
    (hm : i.memory.Sized) : x.Returns ↔ effect.Safe i := by
  cases hx with
  | exit _ => exact quiet_iff (returns_ret _)
  | stay => exact quiet_iff (done_returns h)
  | set dst v => exact quiet_iff (setAndSkip_returns h dst v)
  | load dst address length value hl => exact load_returns_iff h hm (by omega)
  | store address length value hl => exact store_returns_iff h hm hl
  | branch condition target => exact branch_returns_iff h
  | loadImmAndJump ra value target => exact loadImmAndJump_returns_iff h
  | djump address => exact quiet_iff (djump_returns i address)
  | loadImmAndJumpIndirect ra base value offset => exact quiet_iff (djump_returns _ _)
  | sbrk dst sizeReg => exact quiet_iff (sbrk_returns h hm dst sizeReg)

theorem exec_returns_iff (h : i.CanSkip) (hm : i.memory.Sized) (ins : Instruction) :
    (i.exec ins).Returns ↔ (ins.effect i).Safe i :=
  (exec_shape i ins).returns_iff h hm

variable {op : Opcode} {j : Instance}

theorem Fetches.decode_returns_iff (h : i.Fetches) {skip : UInt64}
    (hlast : i.instructionCounter.toNat + 1 = i.code.length → op = .none .trap) :
    (i.decode skip op).Returns ↔
      ∀ o, op = .reg3 o → i.instructionCounter.toNat + 2 < i.code.length := by
  have htwo : op ≠ .none .trap → i.Covers 2 := by
    intro hop
    have hne : i.instructionCounter.toNat + 1 ≠ i.code.length := fun he => hop (hlast he)
    have hc := h.counter
    unfold Covers
    omega
  cases op with
  | regReg op => simp [h.decode_regReg, htwo (by simp)]
  | reg3 op =>
    rw [h.decode_reg3, if_pos (htwo (by simp))]
    by_cases hc : i.Covers 3
    · simp only [hc, if_true, returns_ret, true_iff]
      exact fun _ _ => hc
    · simp only [hc, if_false]
      refine ⟨fun hret => ?_, fun hlt => absurd (hlt op rfl) hc⟩
      simp [Outcome.Returns] at hret
  | _ =>
    rw [h.decode_eq _ _ (by simp) (by simp), checked]
    split <;> simp [outOfBound]

structure StepSafe (i : Instance) : Prop where
  /-- The counter points into the code (the trap that is appended to it included). -/
  counter : i.instructionCounter.toNat < i.code.length
  /-- A three-register instruction that is paid for has all its octets. -/
  operands : ∀ byte op, i.code[i.instructionCounter.toNat]? = some byte →
    Opcode.ofByte byte = some (.reg3 op) → 1 ≤ i.gasRemaining.toInt →
    i.instructionCounter.toNat + 2 < i.code.length
  /-- An instruction that is paid for and decoded reaches for nothing out of range. -/
  effect : ∀ byte op skip ins, i.code[i.instructionCounter.toNat]? = some byte →
    Opcode.ofByte byte = some op → 1 ≤ i.gasRemaining.toInt →
    Polkavm.skip i.instructionCounter i.bitmask = .ret skip →
    i.decode skip op = .ret (.ok ins) → (ins.effect i).Safe i

def StepOk (i : Instance) : Prop := ∃ j e, i.step = .ret (j, e) ∧ ∀ e', e = some e' → e'.IsExit

structure Wf (i : Instance) : Prop where
  sameLength : i.bitmask.length = i.code.length
  size : i.code.length ≤ 2 ^ 32
  last : i.code.getLast? = some 0
  memory : i.memory.Sized

theorem Wf.canSkip (h : i.Wf) (hc : i.instructionCounter.toNat < i.code.length) : i.CanSkip := by
  have hsize := h.size
  have hnext : (i.instructionCounter + 1).toNat = i.instructionCounter.toNat + 1 :=
    toNat_add_of_lt (by simp only [UInt64.reduceToNat]; omega)
  rw [CanSkip, Polkavm.skip, returns_bind, hnext, h.sameLength]
  rw [sliceOf_of_le (by omega) (Nat.le_of_eq h.sameLength.symm)]
  exact ⟨_, rfl, returns_ret _⟩

theorem Wf.trap_of_last (h : i.Wf) {byte : UInt8}
    (hbyte : i.code[i.instructionCounter.toNat]? = some byte)
    (hop : Opcode.ofByte byte = some op)
    (hlast : i.instructionCounter.toNat + 1 = i.code.length) : op = .none .trap := by
  have hl := h.last
  rw [List.getLast?_eq_getElem?, ← hlast, Nat.add_sub_cancel, hbyte] at hl
  cases hl
  exact (Option.some.inj hop).symm

theorem effect_charge (i : Instance) (g : Gas) (ins : Instruction) :
    ins.effect { i with gasRemaining := g } = ins.effect i := by
  rfl

def finish (i : Instance) : Except Err Instruction → Exec
  | .error e => .ret (i, some e)
  | .ok instruction => i.exec instruction

theorem step_eq {s : UInt64} (hs : Polkavm.skip i.instructionCounter i.bitmask = .ret s)
    (hc : i.instructionCounter.toNat < i.code.length) :
    i.step = match i.deductGas (gasCosts (Opcode.ofByte i.code[i.instructionCounter.toNat])) with
      | .error e => .ret (i, some e)
      | .ok i' =>
        match Opcode.ofByte i.code[i.instructionCounter.toNat] with
        | none => .ret (i', some (.panic (.unexpectedOpcode i.code[i.instructionCounter.toNat])))
        | some opcode => i'.decode s opcode >>= i'.finish := by
  rw [step, hs, ret_bind, indexAt_of_lt hc, ret_bind]
  rfl

theorem Wf.charged_returns_iff (h : i.Wf) (hskip : i.CanSkip) {g : Gas} {s : UInt64}
    (hj : j = { i with gasRemaining := g }) :
    (j.decode s op >>= j.finish).Returns ↔
      (i.decode s op).Returns ∧ ∀ ins, i.decode s op = .ret (.ok ins) → (ins.effect i).Safe i := by
  subst hj
  have hdecode : decode { i with gasRemaining := g } s op = i.decode s op := rfl
  have hexec : ∀ ins, (exec { i with gasRemaining := g } ins).Returns ↔ (ins.effect i).Safe i := by
    intro ins
    rw [exec_returns_iff (i := { i with gasRemaining := g }) hskip h.memory, effect_charge]
    rfl
  rw [returns_bind, hdecode]
  constructor
  · rintro ⟨res, hres, hret⟩
    refine ⟨⟨res, hres⟩, ?_⟩
    intro ins hins
    rw [hres] at hins
    cases hins
    exact (hexec ins).mp hret
  · rintro ⟨⟨res, hres⟩, hsafe⟩
    refine ⟨res, hres, ?_⟩
    cases res with
    | error e => exact returns_ret _
    | ok ins => exact (hexec ins).mpr (hsafe ins hres)

theorem Wf.step_returns_iff (h : i.Wf) : i.step.Returns ↔ i.StepSafe := by
  by_cases hc : i.instructionCounter.toNat < i.code.length
  swap
  · -- past the code: the mask is sliced or the code indexed out of range
    constructor
    · intro hret
      rw [step, returns_bind] at hret
      obtain ⟨s, -, hret⟩ := hret
      rw [returns_bind] at hret
      obtain ⟨b, hb, -⟩ := hret
      exact absurd (indexAt_returns.mp ⟨b, hb⟩) hc
    · intro hs
      exact absurd hs.counter hc
  have hskip := h.canSkip hc
  obtain ⟨s, hs⟩ := id hskip
  have hbyte : i.code[i.instructionCounter.toNat]? = some i.code[i.instructionCounter.toNat] :=
    List.getElem?_eq_getElem hc
  rw [step_eq hs hc]
  have hfree : (∀ op, Opcode.ofByte i.code[i.instructionCounter.toNat] = some op →
      ¬ 1 ≤ i.gasRemaining.toInt) → i.StepSafe := by
    intro hno
    refine ⟨hc, ?_, ?_⟩
    · intro byte op hb hop hgas
      rw [hbyte] at hb
      cases hb
      exact absurd hgas (hno _ hop)
    · intro byte op _ _ hb hop hgas
      rw [hbyte] at hb
      cases hb
      exact absurd hgas (hno _ hop)
  cases hop : Opcode.ofByte i.code[i.instructionCounter.toNat] with
  | none =>
    have hsafe := hfree (by simp [hop])
    split
    · exact ⟨fun _ => hsafe, fun _ => returns_ret _⟩
    · exact ⟨fun _ => hsafe, fun _ => returns_ret _⟩
  | some op =>
    cases hg : i.deductGas (gasCosts (some op)) with
    | error e =>
      have hsafe := hfree (by
        have hlt := (deductGas_error hg).2
        have hone : (gasCosts (some op)).toInt = 1 := rfl
        omega)
      exact ⟨fun _ => hsafe, fun _ => returns_ret _⟩
    | ok i' =>
      have hgas := (charged_of_deductGas hg).1
      obtain ⟨rfl, -⟩ := deductGas_ok hg
      have hfetch : i.Fetches := ⟨hc, h.size⟩
      rw [h.charged_returns_iff hskip rfl, hfetch.decode_returns_iff (h.trap_of_last hbyte hop)]
      constructor
      · rintro ⟨hargs, heff⟩
        refine ⟨hc, ?_, ?_⟩
        · intro byte o hb ho _
          rw [hbyte] at hb
          cases hb
          rw [hop] at ho
          exact hargs o (Option.some.inj ho)
        · intro byte op' s' ins hb ho _ hs' hins
          rw [hbyte] at hb
          cases hb
          rw [hop] at ho
          cases ho
          rw [hs] at hs'
          cases hs'
          exact heff ins hins
      · intro hsafe
        refine ⟨?_, fun ins hins => hsafe.effect _ op s ins hbyte hop hgas hs hins⟩
        rintro o rfl
        exact hsafe.operands _ o hbyte hop hgas

theorem Wf.stepOk_iff (h : i.Wf) : i.StepOk ↔ i.StepSafe := by
  rw [← h.step_returns_iff]
  constructor
  · rintro ⟨j, e, hstep, -⟩
    exact ⟨_, hstep⟩
  · rintro ⟨⟨j, e⟩, hstep⟩
    exact ⟨j, e, hstep, (step_post i _ hstep).exit⟩

inductive Reachable (i₀ : Instance) : Instance → Prop where
  | start : Reachable i₀ i₀
  | next {i j : Instance} (hi : Reachable i₀ i) (hstep : i.step = .ret (j, none)) :
    Reachable i₀ j
  | resume {i j k : Instance} {index : UInt64} {gas : Gas} {regs : Registers} {mem : Memory}
    (hi : Reachable i₀ i) (hstep : i.step = .ret (j, some (.hostCall index)))
    (hmem : mem.Sized)
    (hskip : { j with gasRemaining := gas, regs := regs, memory := mem }.skip = .ret k) :
    Reachable i₀ k

theorem Wf.of_stepped {e : Option Err} (h : i.Wf) (hs : Stepped i j e) : j.Wf :=
  ⟨by rw [hs.bitmask, hs.code]; exact h.sameLength, by rw [hs.code]; exact h.size,
    by rw [hs.code]; exact h.last, hs.memory h.memory⟩

theorem Wf.skip (h : i.Wf) (hs : i.skip = .ret j) : j.Wf := by
  rw [Instance.skip, bind_eq_ret] at hs
  obtain ⟨s, -, hs⟩ := hs
  cases hs
  exact ⟨h.sameLength, h.size, h.last, h.memory⟩

theorem Reachable.wf {i₀ : Instance} (h₀ : i₀.Wf) (h : Reachable i₀ i) : i.Wf := by
  induction h with
  | start => exact h₀
  | next _ hstep ih => exact ih.of_stepped (step_post _ _ hstep)
  | resume _ hstep hmem hskip ih =>
    have hj := ih.of_stepped (step_post _ _ hstep)
    refine Wf.skip ?_ hskip
    exact ⟨hj.sameLength, hj.size, hj.last, hmem⟩

end Instance

theorem collectBlock_returns {code : List UInt8} {bitmask : List Bool} {blocks : List UInt64}
    {entry : Bool × Nat} (hlen : bitmask.length = code.length) (hsize : code.length ≤ maxUint32)
    (hentry : entry.2 < code.length) : (collectBlock code bitmask blocks entry).Returns := by
  unfold collectBlock
  split
  · rw [indexAt_of_lt hentry, ret_bind]
    split
    · have hmax : maxUint32 < 2 ^ 32 := by decide
      have hnat : (UInt64.ofNat entry.2 + 1).toNat = entry.2 + 1 := by
        have h₀ : (UInt64.ofNat entry.2).toNat = entry.2 := toNat_ofNat_of_lt (by omega)
        rw [toNat_add_of_lt (by simp only [h₀, UInt64.reduceToNat]; omega), h₀]
        rfl
      rw [Polkavm.skip, hnat, sliceOf_of_le (by omega) (Nat.le_refl _), ret_bind, pure_eq, ret_bind]
      exact returns_ret _
    · exact returns_ret _
  · exact returns_ret _

theorem basicBlocks_returns {d : Deblobbed} (h : d.Matched) :
    (d.bitmask.zipIdx.foldlM (collectBlock d.code d.bitmask) [0]).Returns := by
  refine foldlM_returns ?_
  intro entry hentry blocks
  obtain ⟨-, hlt, -⟩ := List.mem_zipIdx hentry
  exact collectBlock_returns h.1 h.2 (by rw [← h.1]; omega)

variable {program : List UInt8} {offset : UInt64} {gas : Gas} {regs : Registers} {memory : Memory}

theorem instantiate_returns_iff :
    (instantiate program offset gas regs memory).Returns ↔ BlobSafe program := by
  rw [← deblob_returns_iff, instantiate, returns_bind]
  constructor
  · rintro ⟨res, hres, -⟩
    exact ⟨res, hres⟩
  · rintro ⟨res, hres⟩
    refine ⟨res, hres, ?_⟩
    cases res with
    | error e => exact returns_ret _
    | ok d =>
      obtain ⟨blocks, hblocks⟩ := basicBlocks_returns (deblob_matched hres)
      simp only [hblocks, ret_bind]
      exact returns_ret _

theorem instantiate_wf {i : Instance} (hmem : memory.Fits (2 ^ 32))
    (h : instantiate program offset gas regs memory = .ret (.ok i)) : i.Wf := by
  rw [instantiate, bind_eq_ret] at h
  obtain ⟨res, hres, h⟩ := h
  cases res with
  | error e => cases h
  | ok d =>
    obtain ⟨hlen, hmax⟩ := deblob_matched hres
    simp only [bind_eq_ret] at h
    obtain ⟨blocks, -, h⟩ := h
    cases h
    have hmax' : maxUint32 < 2 ^ 32 := by decide
    refine ⟨?_, ?_, ?_, hmem.sized⟩
    · simp only [List.length_append, hlen, List.length_singleton]
    · simp only [List.length_append, List.length_singleton]
      omega
    · simp only [List.getLast?_append, List.getLast?_singleton, Option.some_or]

/-- When neither the setup of a machine nor a step of its runs crashes. -/
theorem instantiate_and_step_crash_free_iff (program : List UInt8) (offset : UInt64) (gas : Gas)
    (regs : Registers) (memory : Memory) (hmem : memory.Fits (2 ^ 32)) :
    ((instantiate program offset gas regs memory).Returns ↔ BlobSafe program) ∧
      ∀ i₀, instantiate program offset gas regs memory = .ret (.ok i₀) →
        ∀ i, Instance.Reachable i₀ i → (i.StepOk ↔ i.StepSafe) := by
  refine ⟨instantiate_returns_iff, ?_⟩
  intro i₀ hi₀ i hi
  exact (hi.wf (instantiate_wf hmem hi₀)).stepOk_iff

theorem trap_program_crash_free_iff : Memory.emptyLayout.Fits (2 ^ 32) ∧
      ((instantiate [0, 0, 1, 0, 1] 0 1 (Vector.replicate 13 0) Memory.emptyLayout).Returns ↔
        BlobSafe [0, 0, 1, 0, 1]) ∧
      ∃ i₀, instantiate [0, 0, 1, 0, 1] 0 1 (Vector.replicate 13 0) Memory.emptyLayout =
          .ret (.ok i₀) ∧
        ∀ i, Instance.Reachable i₀ i → (i.StepOk ↔ i.StepSafe) := by
  obtain ⟨hreturns, hsteps⟩ := instantiate_and_step_crash_free_iff [0, 0, 1, 0, 1] 0 1
    (Vector.replicate 13 0) Memory.emptyLayout Memory.emptyLayout_fits
  have hi₀ : instantiate [0, 0, 1, 0, 1] 0 1 (Vector.replicate 13 0) Memory.emptyLayout =
      .ret (.ok ⟨Memory.emptyLayout, Vector.replicate 13 0, 0, 1, [0, 0], [], [true, true], [1, 0]⟩) := by
    decide +kernel
  exact ⟨Memory.emptyLayout_fits, hreturns, _, hi₀, hsteps _ hi₀⟩

theorem short_mask_and_far_counter_crash : Memory.emptyLayout.Fits (2 ^ 32) ∧
      instantiate [0, 0, 1, 0] 0 1 (Vector.replicate 13 0) Memory.emptyLayout =
        .crash .sliceOutOfRange ∧
      ∃ i₀, instantiate [0, 0, 0] 5 1 (Vector.replicate 13 0) Memory.emptyLayout = .ret (.ok i₀) ∧
        i₀.step = .crash .sliceOutOfRange ∧ ¬ i₀.StepOk := by
  refine ⟨Memory.emptyLayout_fits, by decide +kernel,
    ⟨Memory.emptyLayout, Vector.replicate 13 0, 5, 1, [0], [], [true], [0]⟩, by decide +kernel, ?_⟩
  have hstep : Instance.step ⟨Memory.emptyLayout, Vector.replicate 13 0, 5, 1, [0], [], [true], [0]⟩ =
      .crash .sliceOutOfRange := by decide +kernel
  refine ⟨hstep, ?_⟩
  rintro ⟨j, e, hret, -⟩
  cases hret

end Strawberry.Interpreter
