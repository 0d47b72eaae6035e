import Strawberry.Interpreter.Runs
import Strawberry.Refine
import Strawberry.StateTransition.OnTransfer

/-!
# Reporting of exit reasons

Which exits of a run reach the caller of `InvokeWholeProgram`.
-/

namespace Strawberry

open Polkavm Interpreter Service HostCall

section

variable {X : Type}

structure Faithful (e : RunEnd X) (r : ProgramResult X) : Prop where
  halted : r.err = none → e.exit = .machine .halt
  machine : ∀ err, e.exit = .machine err → err ≠ .halt → r.err = some err
  host : ∀ err, e.exit = .host err → r.err = some err

def EndReported (e : RunEnd X) : Prop :=
  ∀ err, e.exit = .machine err → err ≠ .halt → readResult e.machine = .ret (.error err)

theorem faithful_iff_of_end {x : X} {e : RunEnd X} {r : ProgramResult X}
    (hend : ProgramEnd x e r) : Faithful e r ↔ EndReported e := by
  cases hend with
  | @host err hexit =>
    refine iff_of_true ⟨fun h => (by cases h), fun _ h => ?_, fun _ h => ?_⟩ fun _ h => ?_
    · rw [hexit] at h
      cases h
    · rw [hexit] at h
      cases h
      rfl
    · rw [hexit] at h
      cases h
  | @unreadable err err' hexit hread =>
    constructor
    · intro h err₁ hexit₁ hne
      have herr := h.machine err₁ hexit₁ hne
      cases herr
      exact hread
    · intro h
      refine ⟨fun h => (by cases h), fun err₁ hexit₁ hne => ?_, fun _ hexit₁ => ?_⟩
      · have hread₁ := h err₁ hexit₁ hne
        rw [hread] at hread₁
        cases hread₁
        rfl
      · rw [hexit] at hexit₁
        cases hexit₁
  | @readable err result hexit hread =>
    constructor
    · intro h err₁ hexit₁ hne
      rw [h.halted rfl] at hexit₁
      cases hexit₁
      exact absurd rfl hne
    · intro h
      have hhalt : err = .halt := by
        by_contra hne
        have hread₁ := h err hexit hne
        rw [hread] at hread₁
        cases hread₁
      subst hhalt
      refine ⟨fun _ => hexit, fun err₁ hexit₁ hne => ?_, fun _ hexit₁ => ?_⟩
      · rw [hexit] at hexit₁
        cases hexit₁
        exact absurd rfl hne
      · rw [hexit] at hexit₁
        cases hexit₁

end

section

variable (H : HashData) (serviceState : ServiceState) (serviceIndex : ServiceId)
  (hostCall : UInt64) (gasCounter : Gas) (regs : Registers) (mem : Memory) (x : ServiceAccount)

def onTransferError : Outcome (Option Err) :=
  let services := StateTransition.sharedState serviceState serviceIndex x
  match HostFunction.ofNumber hostCall with
  | some .gasID => HostResult.err <$> gasRemaining gasCounter regs mem
  | some .lookupID => HostResult.err <$> lookup gasCounter regs mem x serviceIndex services
  | some .readID => HostResult.err <$> read H gasCounter regs mem x serviceIndex services
  | some .writeID => HostResult.err <$> write H gasCounter regs mem x serviceIndex
  | some .infoID => HostResult.err <$> info gasCounter regs mem serviceIndex services
  | _ => .ret none

theorem withAccount_err {X : Type} (x : ServiceAccount) (o : Outcome (HostResult X)) :
    HostResult.err <$> (StateTransition.withAccount x <$> o) = HostResult.err <$> o := by
  cases o <;> rfl

theorem onTransferHostCall_err :
    HostResult.err <$> StateTransition.onTransferHostCall H serviceState serviceIndex
        hostCall gasCounter regs mem x =
      onTransferError H serviceState serviceIndex hostCall gasCounter regs mem x := by
  unfold StateTransition.onTransferHostCall onTransferError
  dsimp only
  rcases HostFunction.ofNumber hostCall with _ | f
  · rfl
  · cases f <;> first | rfl | exact withAccount_err x _

end

/-- When the exit that is reported is the exit of the machine. -/
theorem exit_fidelity_iff (X : Type) (hostCall : HostCall X) (fuel : Nat) (p : List UInt8)
    (entryPoint initialGas : UInt64) (args : List UInt8) (x : X) (r : ProgramResult X)
    (h : invokeWholeProgram hostCall fuel p entryPoint initialGas args x = .ret r) :
    ((∃ err, setUp p entryPoint initialGas args = .ret (.error err) ∧ r.err = some err) ∨
        ∃ i e, setUp p entryPoint initialGas args = .ret (.ok i) ∧
          runHostCalls hostCall fuel i x = .ret e ∧ (Faithful e r ↔ EndReported e)) ∧
      (∀ job w hostCall gas regs mem ctxPair r,
        Refine.serveRefine job w hostCall gas regs mem ctxPair = .ret r →
          ∃ r', Refine.refineHostCall job w hostCall gas regs mem ctxPair = .ret r' ∧
            (r'.err = r.err ↔ r.err = none)) ∧
      ∀ H serviceState serviceIndex hostCall gas regs mem x,
        HostResult.err <$> StateTransition.onTransferHostCall H serviceState serviceIndex
            hostCall gas regs mem x =
          onTransferError H serviceState serviceIndex hostCall gas regs mem x := by
  refine ⟨?_, ?_, onTransferHostCall_err⟩
  · rcases invokeWholeProgram_cases h with ⟨err, hsetUp, rfl⟩ | ⟨i, e, hsetUp, hrun, hend⟩
    · exact .inl ⟨err, hsetUp, rfl⟩
    · exact .inr ⟨i, e, hsetUp, hrun, faithful_iff_of_end hend⟩
  · intro job w hostCall gas regs mem ctxPair r h
    refine ⟨Refine.dropError r, ?_, eq_comm⟩
    rw [Refine.refineHostCall, h, map_ret]

def trapProgram : List UInt8 :=
  [0, 0, 0, 0, 0, 0, 0, 0, 0, 0, 0, 20, 0, 0, 0] ++ [0, 0, 5] ++ [51, 7, 100, 0x18, 0] ++ [21]

def idleHost : HostCall Unit := fun _ gas regs mem x => .ret ⟨gas, regs, mem, x, none⟩

/-- The run of program `p` from the instance that is set up for it to its end. -/
structure Ends (p args : List UInt8) (i : Instance) (e : RunEnd Unit) : Prop where
  setUp : setUp p 0 100 args = .ret (.ok i)
  run : runHostCalls idleHost 1 i () = .ret e

theorem exists_ends {α : Type} {f : RunEnd Unit → α} {p args : List UInt8} {a : α}
    (h : (do
      match ← setUp p 0 100 args with
      | .error _ => return none
      | .ok i => return some (f (← runHostCalls idleHost 1 i ()))) = .ret (some a)) :
    ∃ i e, Ends p args i e ∧ f e = a := by
  obtain ⟨s, hs, h⟩ := bind_eq_ret.mp h
  cases s with
  | error _ => cases h
  | ok i =>
    obtain ⟨e, he, h⟩ := bind_eq_ret.mp h
    exact ⟨i, e, ⟨hs, he⟩, Option.some.inj (Outcome.ret.inj h)⟩

theorem trapProgram_ends : ∃ r i e, invokeWholeProgram idleHost 1 trapProgram 0 100 [] () = .ret r ∧
      Ends trapProgram [] i e ∧ e.exit = .machine (.panic .explicitTrap) ∧ r.err = none := by
  have hprogram : ProgramResult.err <$> invokeWholeProgram idleHost 1 trapProgram 0 100 [] () =
      .ret none := by decide +kernel
  obtain ⟨r, hr, hnone⟩ := map_eq_ret.mp hprogram
  obtain ⟨i, e, hends, htrap⟩ := @exists_ends _ RunEnd.exit trapProgram []
    (.machine (.panic .explicitTrap)) (by decide +kernel)
  exact ⟨r, i, e, hr, hends, htrap, hnone⟩

theorem trapProgram_faithful_iff :
    ∃ r i e, invokeWholeProgram idleHost 1 trapProgram 0 100 [] () = .ret r ∧
      Ends trapProgram [] i e ∧ (Faithful e r ↔ EndReported e) := by
  obtain ⟨r, i, e, hr, hends, -, -⟩ := trapProgram_ends
  rcases (exit_fidelity_iff Unit idleHost 1 trapProgram 0 100 [] () r hr).1 with
    ⟨err, herr, -⟩ | ⟨i', e', hi', he', hiff⟩
  · rw [hends.setUp] at herr
    cases herr
  · exact ⟨r, i', e', hr, ⟨hi', he'⟩, hiff⟩

theorem trap_not_reported :
    ∃ r i e, invokeWholeProgram idleHost 1 trapProgram 0 100 [] () = .ret r ∧
      Ends trapProgram [] i e ∧ e.exit = .machine (.panic .explicitTrap) ∧ r.err = none ∧
      ¬ Faithful e r := by
  obtain ⟨r, i, e, hr, hends, htrap, hnone⟩ := trapProgram_ends
  refine ⟨r, i, e, hr, hends, htrap, hnone, fun h => ?_⟩
  have hhalt := h.halted hnone
  rw [htrap] at hhalt
  cases hhalt

def resultOf (i : Instance) : List UInt8 :=
  match i.memory.read (i.reg .A0) (i.reg .A1) with
  | .ret (.ok bytes) => bytes
  | _ => []

/-- `InvokeWholeProgram` takes A1 for the address and A0 for the length of the result. -/
def ReadsAsGiven (i : Instance) : Prop :=
  (i.reg .A0 = i.reg .A1 ∨ i.reg .A0 = 0) ∧ (i.reg .A0).toNat ≤ maxAlloc ∧
    ∃ bytes, i.memory.read (i.reg .A1) (i.reg .A0) = .ret (.ok bytes)

theorem readResult_right_iff (i : Instance) :
    readResult i = .ret (.ok (resultOf i)) ↔ ReadsAsGiven i := by
  rw [readResult, bind_eq_ret]
  constructor
  · rintro ⟨_, hcheck, hread⟩
    have hlen := Memory.length_of_read hread
    refine ⟨?_, by simpa using makeCheck_eq_ret.mp hcheck, _, hread⟩
    unfold resultOf at hlen
    split at hlen
    · next bytes hbytes =>
      rw [Memory.length_of_read hbytes] at hlen
      exact .inl (UInt64.toNat_inj.mp hlen.symm)
    · exact .inr (UInt64.toNat_inj.mp hlen.symm)
  · rintro ⟨hor, halloc, bytes, hread⟩
    refine ⟨(), makeCheck_of_le (by simpa using halloc), hread.trans ?_⟩
    rcases hor with hsame | hzero
    · have hgiven : i.memory.read (i.reg .A0) (i.reg .A1) = .ret (.ok bytes) := by
        rw [hsame] at hread ⊢
        exact hread
      rw [resultOf, hgiven]
    · -- nothing can be read at address 0, and the code reads nothing
      have hnone : i.memory.read (i.reg .A0) (i.reg .A1) =
          .ret (.error (.panic .forbiddenMemoryAccess)) := by
        rw [hzero]
        rfl
      have hlen := Memory.length_of_read hread
      rw [hzero] at hlen
      rw [resultOf, hnone, List.eq_nil_of_length_eq_zero hlen]

/-- When the result is what the memory holds. -/
theorem program_result_iff {X : Type} {hostCall : HostCall X} {fuel : Nat} {p : List UInt8}
    {entryPoint initialGas : UInt64} {args : List UInt8} {x : X} {i : Instance} {e : RunEnd X}
    (hset : setUp p entryPoint initialGas args = .ret (.ok i))
    (hrun : runHostCalls hostCall fuel i x = .ret e) (hhalt : e.exit = .machine .halt) :
    (initializeRegisters args.length).get Reg.A0 = argsAddressLow ∧
    (initializeRegisters args.length).get Reg.A1 = UInt64.ofNat args.length ∧
    (invokeWholeProgram hostCall fuel p entryPoint initialGas args x =
        .ret ⟨e.machine.gasRemaining, resultOf e.machine, e.x, none⟩ ↔
      ReadsAsGiven e.machine) := by
  refine ⟨rfl, rfl, ?_⟩
  rw [← readResult_right_iff]
  rw [invokeWholeProgram, hset, ret_bind]
  simp only [invokeHostCall, hrun, ret_bind, pure_eq, hhalt, Exit.reported]
  refine bind_eq_ret.trans ?_
  constructor
  · rintro ⟨err | result, hread, h⟩
    · cases congrArg ProgramResult.err (Outcome.ret.inj h)
    · cases h
      exact hread
  · intro h
    exact ⟨_, h, rfl⟩

def returnProgram : List UInt8 :=
  [0, 0, 0, 0, 0, 0, 0, 0, 0, 0, 0, 17, 0, 0, 0] ++ [0, 0, 2] ++ [50, 0] ++ [1]

theorem returnProgram_ends : ∃ i e, Ends returnProgram [7] i e ∧ e.exit = .machine .halt ∧
      resultOf e.machine = [7] := by
  obtain ⟨i, e, hends, h⟩ := @exists_ends _ (fun e => (e.exit, resultOf e.machine)) returnProgram [7]
    (.machine .halt, [7]) (by decide +kernel)
  exact ⟨i, e, hends, Prod.mk.inj h⟩

theorem program_result_of_returnProgram : ∃ e : RunEnd Unit, e.exit = .machine .halt ∧
      (invokeWholeProgram idleHost 1 returnProgram 0 100 [7] () =
          .ret ⟨e.machine.gasRemaining, resultOf e.machine, e.x, none⟩ ↔
        ReadsAsGiven e.machine) := by
  obtain ⟨i, e, hends, hhalt, -⟩ := returnProgram_ends
  exact ⟨e, hhalt, (program_result_iff hends.setUp hends.run hhalt).2.2⟩

theorem arguments_not_returned :
    (∃ i e, Ends returnProgram [7] i e ∧ e.exit = .machine .halt ∧ resultOf e.machine = [7]) ∧
    ∃ r, invokeWholeProgram idleHost 1 returnProgram 0 100 [7] () = .ret r ∧ r.result = [] ∧
      r.gas = 0 ∧ r.err = some (.panic .forbiddenMemoryAccess) := by
  refine ⟨returnProgram_ends, ?_⟩
  have hprogram : (fun r => (r.result, r.gas, r.err)) <$>
      invokeWholeProgram idleHost 1 returnProgram 0 100 [7] () =
        .ret ([], 0, some (.panic .forbiddenMemoryAccess)) := by decide +kernel
  obtain ⟨r, hr, heq⟩ := map_eq_ret.mp hprogram
  simp only [Prod.mk.injEq] at heq
  exact ⟨r, hr, heq⟩

end Strawberry
