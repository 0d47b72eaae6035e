import Strawberry.Work
import Strawberry.HostCall.General

/-!
# Host functions of refinement

They work on the inner machines and the exported segments.
-/

namespace Strawberry.HostCall

open Polkavm Interpreter Service Work Constants Reg

structure IntegratedPVM where
  code : List UInt8
  ram : Memory
  instructionCounter : UInt64
  deriving DecidableEq

structure RefineContextPair where
  integratedPVMMap : Option (GoMap UInt64 IntegratedPVM)
  segments : List Segment
  deriving DecidableEq

namespace RefineContextPair

def zero : RefineContextPair := ⟨none, []⟩

def machines (c : RefineContextPair) : GoMap UInt64 IntegratedPVM := c.integratedPVMMap.getD ∅

def setMachine (c : RefineContextPair) (n : UInt64) (pvm : IntegratedPVM) :
    Outcome RefineContextPair :=
  match c.integratedPVMMap with
  | none => .crash .nilMapAssignment
  | some m => .ret { c with integratedPVMMap := some (m.insert n pvm) }

end RefineContextPair

abbrev RefineResult := Outcome (HostResult RefineContextPair)

variable (gas : Gas) (regs : Registers) (mem : Memory) (ctxPair : RefineContextPair)

def historicalLookup (serviceId : ServiceId) (serviceState : ServiceState) (t : Timeslot) :
    RefineResult :=
  charged callCost gas regs mem ctxPair fun gas =>
    let omega7 := regs.get A0
    match serviceState.lookup (if omega7 = self then serviceId else omega7.toUInt32) with
    | none => .ret ⟨gas, regs, mem, .zero, some (.panic .accountNotFound)⟩
    | some a => do
      match ← mem.read (regs.get A1) 32 with
      | .error e => return ⟨gas, regs, mem, ctxPair, some (.panicOf e)⟩
      | .ok hashData =>
        match (a.lookupPreimage t (hashOf hashData)).getD [] with
        | [] => return ⟨gas, withCode regs .none, mem, ctxPair, none⟩
        | v =>
          match ← writeFromOffset mem (regs.get A2) v (regs.get A3) (regs.get A4) with
          | .error e => return ⟨gas, regs, mem, ctxPair, some e⟩
          | .ok mem =>
            return ⟨gas, regs.set A0 (UInt64.ofNat v.length), mem, ctxPair, none⟩

abbrev PreimageFetcher := Hash → Except Err (Option (List UInt8))

def passesCheck (index : UInt64) (length : Nat) : Bool := index.toInt64.toInt < length

def fetchData (itemIndex : UInt32) (workPackage : Package)
    (authorizerHashOutput : Option (List UInt8)) (importedSegments : List Segment)
    (fetcher : Option PreimageFetcher) (dataID index1 index2 : UInt64) :
    Outcome (Except Err (Option (List UInt8))) :=
  match dataID.toNat with
  | 0 => .ret (.ok (some workPackage.encode))
  | 1 => .ret (.ok authorizerHashOutput)
  | 2 =>
    if passesCheck index1 workPackage.workItems.length then do
      let w ← indexAt workPackage.workItems index1.toNat
      return .ok w.payload
    else .ret (.ok none)
  | 3 =>
    match fetcher with
    | none => .ret (.ok none)
    | some fetchPreimage =>
      if passesCheck index1 workPackage.workItems.length then do
        let w ← indexAt workPackage.workItems index1.toNat
        if passesCheck index2 w.extrinsics.length then
          let extrinsicPair ← indexAt w.extrinsics index2.toNat
          return fetchPreimage extrinsicPair.hash
        else return .ok none
      else .ret (.ok none)
  | 4 =>
    match fetcher with
    | none => .ret (.ok none)
    | some fetchPreimage => do
      let w ← indexAt workPackage.workItems itemIndex.toNat
      if passesCheck index1 w.extrinsics.length then
        let extrinsicPair ← indexAt w.extrinsics index1.toNat
        return fetchPreimage extrinsicPair.hash
      else return .ok none
  | 5 =>
    if passesCheck index1 importedSegments.length && passesCheck index2 sizeOfSegment then do
      let segment ← indexAt importedSegments index1.toNat
      let octet ← indexAt segment.toList index2.toNat
      return .ok (some [octet])
    else .ret (.ok none)
  | 6 =>
    if itemIndex.toNat < importedSegments.length && passesCheck index1 sizeOfSegment then do
      let segment ← indexAt importedSegments itemIndex.toNat
      let octet ← indexAt segment.toList index1.toNat
      return .ok (some [octet])
    else .ret (.ok none)
  | _ => .ret (.ok none)

def fetch (itemIndex : UInt32) (workPackage : Package)
    (authorizerHashOutput : Option (List UInt8)) (importedSegments : List Segment)
    (fetcher : Option PreimageFetcher) : RefineResult :=
  charged callCost gas regs mem ctxPair fun gas => do
    match ← fetchData itemIndex workPackage authorizerHashOutput importedSegments fetcher
        (regs.get A3) (regs.get A4) (regs.get A5) with
    | .error e => return ⟨gas, regs, mem, ctxPair, some e⟩
    | .ok none => return ⟨gas, withCode regs .none, mem, ctxPair, none⟩
    | .ok (some v) =>
      match ← writeFromOffset mem (regs.get A0) v (regs.get A1) (regs.get A2) with
      | .error e => return ⟨gas, regs, mem, ctxPair, some e⟩
      | .ok mem => return ⟨gas, regs.set A0 (UInt64.ofNat v.length), mem, ctxPair, none⟩

def exportSegment (exportOffset : UInt64) : RefineResult :=
  charged callCost gas regs mem ctxPair fun gas => do
    match ← mem.read (regs.get A0) (min (regs.get A1) (UInt64.ofNat sizeOfSegment)) with
    | .error e => return ⟨gas, regs, mem, ctxPair, some (.panicOf e)⟩
    | .ok data =>
      let segmentData : Segment := toArray sizeOfSegment (zeroPadding data sizeOfSegment)
      let currentCount := UInt64.ofNat ctxPair.segments.length
      if UInt64.ofNat maxNumberOfEntries ≤ exportOffset + currentCount then
        return ⟨gas, withCode regs .full, mem, ctxPair, none⟩
      else
        let segments := ctxPair.segments ++ [segmentData]
        return ⟨gas, regs.set A0 (exportOffset + UInt64.ofNat segments.length), mem,
          { ctxPair with segments }, none⟩

def missingKeyFrom (m : GoMap UInt64 IntegratedPVM) : Nat → UInt64 → UInt64
  | 0, n => n
  | rounds + 1, n => if n ∈ m then missingKeyFrom m rounds (n + 1) else n

def findSmallestMissingKey (m : GoMap UInt64 IntegratedPVM) : UInt64 := missingKeyFrom m m.len 0

def zeroMemory : Memory :=
  ⟨⟨0, [], .inaccessible⟩, ⟨0, [], .inaccessible⟩, ⟨0, [], .inaccessible⟩, ⟨0, [], .inaccessible⟩⟩

def machine : RefineResult :=
  charged callCost gas regs mem ctxPair fun gas => do
    let pz := regs.get A1
    makeCheck 1 pz.toNat
    match ← mem.read (regs.get A0) pz with
    | .error e => return ⟨gas, regs, mem, ctxPair, some (.panicOf e)⟩
    | .ok p =>
      match ← deblob p with
      | .error _ => return ⟨gas, withCode regs .huh, mem, ctxPair, none⟩
      | .ok _ =>
        let n := findSmallestMissingKey ctxPair.machines
        let ctxPair ← ctxPair.setMachine n
          { code := p, ram := zeroMemory, instructionCounter := regs.get A2 }
        return ⟨gas, regs.set A0 n, mem, ctxPair, none⟩

def peek : RefineResult :=
  charged callCost gas regs mem ctxPair fun gas =>
    match ctxPair.machines.lookup (regs.get A0) with
    | none => .ret ⟨gas, withCode regs .who, mem, ctxPair, none⟩
    | some u => do
      let z := regs.get A3
      makeCheck 1 z.toNat
      match ← u.ram.read (regs.get A2) z with
      | .error _ => return ⟨gas, withCode regs .oob, mem, ctxPair, none⟩
      | .ok s =>
        match ← mem.write (regs.get A1) s with
        | .error e => return ⟨gas, regs, mem, ctxPair, some (.panicOf e)⟩
        | .ok mem => return ⟨gas, withCode regs .ok, mem, ctxPair, none⟩

def poke : RefineResult :=
  charged callCost gas regs mem ctxPair fun gas =>
    let n := regs.get A0
    match ctxPair.machines.lookup n with
    | none => .ret ⟨gas, withCode regs .who, mem, ctxPair, none⟩
    | some innerPVM => do
      let z := regs.get A3
      makeCheck 1 z.toNat
      match ← mem.read (regs.get A1) z with
      | .error e => return ⟨gas, regs, mem, ctxPair, some (.panicOf e)⟩
      | .ok s =>
        match ← innerPVM.ram.write (regs.get A2) s with
        | .error _ => return ⟨gas, withCode regs .oob, mem, ctxPair, none⟩
        | .ok ram =>
          let ctxPair ← ctxPair.setMachine n { innerPVM with ram }
          return ⟨gas, withCode regs .ok, mem, ctxPair, none⟩

def withDataOf (m m' : Memory) : Memory :=
  ⟨{ m.ro with data := m'.ro.data }, { m.rw with data := m'.rw.data },
    { m.stack with data := m'.stack.data }, { m.args with data := m'.args.data }⟩

def maxPageIndex : UInt64 := 0x100000

def badPages (p c : UInt64) : Bool := p < 16 || maxPageIndex ≤ p + c

def pageCount (p c : UInt64) : Nat := (p + c).toNat - p.toNat

def clearPage (u : Memory) (pageIndex : UInt64) : Outcome (Except Err Memory) :=
  u.write (pageIndex * pageSize) (List.replicate pageSize.toNat 0)

def zeroLoop : Nat → UInt64 → Memory → Outcome (Memory × Option Err)
  | 0, _, u => .ret (u, none)
  | rounds + 1, pageIndex, u =>
    match u.setAccess pageIndex .readWrite with
    | .error e => .ret (u, some e)
    | .ok u => do
      match ← clearPage u pageIndex with
      | .error e => return (u, some e)
      | .ok u => zeroLoop rounds (pageIndex + 1) u

def zero : RefineResult :=
  charged callCost gas regs mem ctxPair fun gas =>
    let n := regs.get A0
    let p := regs.get A1
    let c := regs.get A2
    if badPages p c then .ret ⟨gas, withCode regs .huh, mem, ctxPair, none⟩
    else
      match ctxPair.machines.lookup n with
      | none => .ret ⟨gas, withCode regs .who, mem, ctxPair, none⟩
      | some u => do
        match ← zeroLoop (pageCount p c) p u.ram with
        | (ram, some e) =>
          let ctxPair ← ctxPair.setMachine n { u with ram := withDataOf u.ram ram }
          return ⟨gas, regs, mem, ctxPair, some e⟩
        | (ram, none) =>
          let ctxPair ← ctxPair.setMachine n { u with ram }
          return ⟨gas, withCode regs .ok, mem, ctxPair, none⟩

inductive VoidEnd where
  | done
  | huh
  | err (e : Err)
  deriving DecidableEq

def voidLoop : Nat → UInt64 → Memory → Outcome (Memory × VoidEnd)
  | 0, _, u => .ret (u, .done)
  | rounds + 1, pageIndex, u =>
    if u.getAccess pageIndex = .inaccessible then .ret (u, .huh)
    else do
      match ← clearPage u pageIndex with
      | .error e => return (u, .err e)
      | .ok u => voidLoop rounds (pageIndex + 1) u

def revokeLoop : Nat → UInt64 → Memory → Memory × Option Err
  | 0, _, u => (u, none)
  | rounds + 1, pageIndex, u =>
    match u.setAccess pageIndex .inaccessible with
    | .error e => (u, some e)
    | .ok u => revokeLoop rounds (pageIndex + 1) u

def void : RefineResult :=
  charged callCost gas regs mem ctxPair fun gas =>
    let n := regs.get A0
    let p := regs.get A1
    let c := regs.get A2
    match ctxPair.machines.lookup n with
    | none => .ret ⟨gas, withCode regs .who, mem, ctxPair, none⟩
    | some u =>
      if badPages p c then .ret ⟨gas, withCode regs .huh, mem, ctxPair, none⟩
      else do
        let (cleared, e) ← voidLoop (pageCount p c) p u.ram
        let kept ← ctxPair.setMachine n { u with ram := withDataOf u.ram cleared }
        match e with
        | .huh => return ⟨gas, withCode regs .huh, mem, kept, none⟩
        | .err e => return ⟨gas, regs, mem, kept, some e⟩
        | .done =>
          match revokeLoop (pageCount p c) p cleared with
          | (_, some e) => return ⟨gas, regs, mem, kept, some e⟩
          | (ram, none) =>
            let ctxPair ← ctxPair.setMachine n { u with ram }
            return ⟨gas, withCode regs .ok, mem, ctxPair, none⟩

def expunge : RefineResult :=
  charged callCost gas regs mem ctxPair fun gas =>
    let n := regs.get A0
    match ctxPair.machines.lookup n with
    | none => .ret ⟨gas, withCode regs .who, mem, ctxPair, none⟩
    | some pvm =>
      .ret ⟨gas, regs.set A0 pvm.instructionCounter, mem,
        { ctxPair with integratedPVMMap := ctxPair.integratedPVMMap.map (·.erase n) }, none⟩

def readRegs (mem : Memory) (addr : UInt64) : Nat → Nat → Registers → Outcome (Except Err Registers)
  | 0, _, w => .ret (.ok w)
  | k + 1, i, w => do
    match ← readNumber mem (addr + UInt64.ofNat (i + 1) * 8) 8 with
    | .error e => return .error e
    | .ok invokeReg => readRegs mem addr k (i + 1) (w.setIfInBounds i invokeReg)

def innerExit : Err → Outcome (InnerCode × Option UInt64 × Bool)
  | .outOfGas => .ret (.oog, none, false)
  | .halt => .ret (.halt, none, false)
  | .hostCall index => .ret (.host, some index, true)
  | .pageFault _ address => .ret (.fault, some address, false)
  | .panic _ => .ret (.panic, none, false)
  | .panicOf _ => .ret (.panic, none, false)
  | _ => .crash .explicitPanic

def invoke : RefineResult :=
  charged callCost gas regs mem ctxPair fun gas => do
    let pvmKey := regs.get A0
    let addr := regs.get A1
    match ← readNumber mem addr 8 with
    | .error e => return ⟨gas, regs, mem, ctxPair, some (.panicOf e)⟩
    | .ok invokeGas =>
      match ← readRegs mem addr 13 0 (.replicate _ 0) with
      | .error e => return ⟨gas, regs, mem, ctxPair, some (.panicOf e)⟩
      | .ok invokeRegs =>
        match ctxPair.machines.lookup pvmKey with
        | none => return ⟨gas, withCode regs .who, mem, ctxPair, none⟩
        | some pvm =>
          match ← instantiate pvm.code pvm.instructionCounter invokeGas.toInt64 invokeRegs
              pvm.ram with
          | .error _ => return ⟨gas, withInnerCode regs .panic, mem, ctxPair, none⟩
          | .ok i =>
            let (i, invokeErr) ← Interpreter.invoke i
            let bb := encodeUint64 i.gasRemaining.toUInt64 ++ i.regs.toList.flatMap encodeUint64
            match ← mem.write addr bb with
            | .error e => return ⟨gas, regs, mem, ctxPair, some (.panicOf e)⟩
            | .ok mem =>
              let (code, a1, isHostCall) ← innerExit invokeErr
              let ctxPair ← ctxPair.setMachine pvmKey { pvm with
                  ram := i.memory
                  instructionCounter :=
                    if isHostCall then i.instructionCounter + 1 else i.instructionCounter }
              let regs := match a1 with
                | some value => regs.set A1 value
                | none => regs
              return ⟨gas, withInnerCode regs code, mem, ctxPair, none⟩

end Strawberry.HostCall
