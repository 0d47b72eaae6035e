import Strawberry.HostCall.InnerMemory
import Strawberry.Interpreter.Exits

/-!
# Host calls of inner machines

Where an inner machine that stopped at a host call goes on.
-/

namespace Strawberry.HostCall

open Polkavm Interpreter

structure StopsAtCall (regs : Registers) (mem : Memory) (ctxPair : RefineContextPair)
    (pvm : IntegratedPVM) (i j : Instance) (index : UInt64) : Prop where
  lookup : ctxPair.machines.lookup (regs.get Reg.A0) = some pvm
  start : ∃ gas ws, readNumber mem (regs.get Reg.A1) 8 = .ret (.ok gas) ∧
    readRegs mem (regs.get Reg.A1) 13 0 (.replicate _ 0) = .ret (.ok ws) ∧
    instantiate pvm.code pvm.instructionCounter gas.toInt64 ws pvm.ram = .ret (.ok i)
  stop : Interpreter.invoke i = .ret (j, .hostCall index)

variable {gas : Gas} {regs : Registers} {mem : Memory} {ctxPair : RefineContextPair}
  {pvm : IntegratedPVM} {i j : Instance} {index : UInt64}

theorem StopsAtCall.invoke_eq (h : StopsAtCall regs mem ctxPair pvm i j index)
    (hgas : ¬ gas < callCost) : ∃ ctxPair', ctxPair'.machines.lookup (regs.get Reg.A0) =
      some { pvm with ram := j.memory, instructionCounter := j.instructionCounter + 1 } ∧
    invoke gas regs mem ctxPair = do
      match ← mem.write (regs.get Reg.A1)
          (encodeUint64 j.gasRemaining.toUInt64 ++ j.regs.toList.flatMap encodeUint64) with
      | .error e => return ⟨gas - callCost, regs, mem, ctxPair, some (.panicOf e)⟩
      | .ok mem => return ⟨gas - callCost, withInnerCode (regs.set Reg.A1 index) .host, mem, ctxPair',
          none⟩ := by
  obtain ⟨hpvm, ⟨g, ws, hg, hws, hi⟩, hstop⟩ := h
  obtain ⟨ctxPair', hset, hget⟩ := setMachine_of_lookup hpvm
    { pvm with ram := j.memory, instructionCounter := j.instructionCounter + 1 }
  refine ⟨ctxPair', hget, ?_⟩
  have hinvoke : invoke gas regs mem ctxPair = charged callCost gas regs mem ctxPair _ := rfl
  rw [charged, if_neg hgas] at hinvoke
  simp only [hg, hws, hpvm, hi, hstop, ret_bind, innerExit, if_true, hset] at hinvoke
  exact hinvoke

theorem StopsAtCall.canSkip (h : StopsAtCall regs mem ctxPair pvm i j index) :
    ∃ s, Polkavm.skip j.instructionCounter j.bitmask = .ret s := by
  obtain ⟨n, k, -, -, hdone⟩ := loop_eq_ret.mp h.stop
  have hstep := invokeRound_done hdone
  obtain ⟨-, s, -, hs, -⟩ := Instance.step_cases hstep
  rw [Instance.eq_of_exit hstep (by simp) (by simp)]
  exact ⟨s, hs⟩

/-- When the two ways of going on agree. -/
theorem resumption_iff {res : HostResult RefineContextPair}
    (h : StopsAtCall regs mem ctxPair pvm i j index)
    (hcall : invoke gas regs mem ctxPair = .ret res) (hres : res.err = none) :
    ∃ s m, Polkavm.skip j.instructionCounter j.bitmask = .ret s ∧
      (∀ (X : Type) (hostCall : HostCall X) (x : X) (r : HostResult X),
        hostCall index j.gasRemaining j.regs j.memory x = .ret r → r.err = none →
          ∃ k, hostCallRound hostCall (i, x) = .ret (.next (k, r.x)) ∧
            k.instructionCounter = j.instructionCounter + (1 + s)) ∧
      res.x.machines.lookup (regs.get Reg.A0) = some m ∧ m.code = pvm.code ∧
      m.instructionCounter = j.instructionCounter + 1 ∧
      (m.instructionCounter = j.instructionCounter + (1 + s) ↔ s = 0) := by
  obtain ⟨s, hs⟩ := h.canSkip
  refine ⟨s, { pvm with ram := j.memory, instructionCounter := j.instructionCounter + 1 }, hs, ?_,
    ?_, rfl, rfl, by simp⟩
  · intro X hostCall x r hr hok
    refine ⟨{ j.afterCall r with instructionCounter := j.instructionCounter + (1 + s) }, ?_, rfl⟩
    simp [hostCallRound, h.stop, hr, hok, Instance.skip, hs, Instance.afterCall]
  · by_cases hgas : gas < callCost
    · rw [invoke, charged, if_pos hgas] at hcall
      cases hcall
      cases hres
    · obtain ⟨ctxPair', hget, heq⟩ := h.invoke_eq hgas
      rw [heq, bind_eq_ret] at hcall
      obtain ⟨e | mem', -, hcall⟩ := hcall
      · cases hcall
        cases hres
      · cases hcall
        exact hget

def callProgram : IntegratedPVM := ⟨[0, 0, 2, 10, 5, 1], Memory.emptyLayout, 0⟩

def callContext : RefineContextPair := ⟨some (Finmap.singleton 0 callProgram), []⟩

def oneUnit : Memory :=
  { Memory.emptyLayout with rw := ⟨0x20000, 1 :: List.replicate 111 0, .readWrite⟩ }

def callMachine (gas : Gas) : Instance := .bare gas [10, 5, 0] [true, false, true]

theorem callProgram_stops :
    StopsAtCall (ranging 0x20000 0) oneUnit callContext callProgram (callMachine 1) (callMachine 0)
      5 :=
  ⟨rfl, ⟨1, .replicate _ 0, by decide, by decide, by decide⟩, by decide⟩

theorem invoke_callProgram :
    ∃ res, invoke 10 (ranging 0x20000 0) oneUnit callContext = .ret res ∧ res.err = none ∧
      res.x.machines.lookup 0 = some { callProgram with instructionCounter := 1 } := by
  obtain ⟨ctxPair', hget, heq⟩ := callProgram_stops.invoke_eq (show ¬ (10 : Gas) < callCost by decide)
  have hwrite : oneUnit.write 0x20000 (List.replicate 112 0) = .ret (.ok
      { Memory.emptyLayout with rw := ⟨0x20000, List.replicate 112 0, .readWrite⟩ }) := by
    decide
  have hbytes : encodeUint64 (callMachine 0).gasRemaining.toUInt64 ++
      (callMachine 0).regs.toList.flatMap encodeUint64 = List.replicate 112 0 := by decide
  have haddress : (ranging 0x20000 0).get Reg.A1 = 0x20000 := rfl
  rw [hbytes, haddress, hwrite] at heq
  exact ⟨_, heq, rfl, hget⟩

theorem resumption_of_callProgram :
    ∃ res s m, invoke 10 (ranging 0x20000 0) oneUnit callContext = .ret res ∧
      Polkavm.skip 0 [true, false, true] = .ret s ∧ res.x.machines.lookup 0 = some m ∧
      (m.instructionCounter = 0 + (1 + s) ↔ s = 0) := by
  obtain ⟨res, hcall, hres, -⟩ := invoke_callProgram
  obtain ⟨s, m, hs, -, hm, -, -, hiff⟩ := resumption_iff callProgram_stops hcall hres
  exact ⟨res, s, m, hcall, hs, hm, hiff⟩

theorem resumptions_differ :
    (∃ k, hostCallRound (fun _ gas regs mem x => .ret ⟨gas, regs, mem, x, none⟩)
        (callMachine 1, ()) = .ret (.next (k, ())) ∧ k.instructionCounter = 2) ∧
      ∃ res, invoke 10 (ranging 0x20000 0) oneUnit callContext = .ret res ∧ res.err = none ∧
        res.x.machines.lookup 0 = some { callProgram with instructionCounter := 1 } :=
  ⟨⟨_, rfl, rfl⟩, invoke_callProgram⟩

end Strawberry.HostCall
