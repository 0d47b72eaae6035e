import Strawberry.HostCall.General
import Strawberry.State.State

/-!
# Host functions of accumulation

Contexts are values; what a failing call has changed in a map is in the context it hands back.
-/

namespace Strawberry.HostCall

open Polkavm Interpreter Service State Constants Reg

abbrev AccumulateResult := Outcome (HostResult AccumulateContextPair)

variable (gas : Gas) (regs : Registers) (mem : Memory) (ctxPair : AccumulateContextPair)

def blessLoop (mem : Memory) (addr : UInt64) :
    Nat → UInt64 → GoMap ServiceId UInt64 → Outcome (Option Err × GoMap ServiceId UInt64)
  | 0, _, g => .ret (none, g)
  | n + 1, i, g => do
    match ← readNumber mem (addr + 12 * i) 4 with
    | .error e => return (some (.panicOf e), g)
    | .ok serviceId =>
      match ← readNumber mem (addr + 12 * i + 4) 8 with
      | .error e => return (some (.panicOf e), g)
      | .ok serviceGas => blessLoop mem addr n (i + 1) (g.insert serviceId.toUInt32 serviceGas)

def setPrivileges (ctxPair : AccumulateContextPair) (p : PrivilegedServices) :
    AccumulateContextPair :=
  { ctxPair with regularCtx.accumulationState.privilegedServices := p }

def bless : AccumulateResult :=
  charged callCost gas regs mem ctxPair fun gas => do
    let p := ctxPair.regularCtx.accumulationState.privilegedServices
    match ← blessLoop mem (regs.get A3) (regs.get A4).toNat 0 p.amountOfGasPerServiceId with
    | (some e, g) =>
      return ⟨gas, regs, mem, setPrivileges ctxPair { p with amountOfGasPerServiceId := g }, some e⟩
    | (none, g) =>
      return ⟨gas, withCode regs .ok, mem, setPrivileges ctxPair
        { managerServiceId := (regs.get A0).toUInt32
          assignServiceId := (regs.get A1).toUInt32
          designateServiceId := (regs.get A2).toUInt32
          amountOfGasPerServiceId := g }, none⟩

def fillLoop {α : Type} {n : Nat} (mem : Memory) (addr size : UInt64) (decode : List UInt8 → α) :
    Nat → Nat → Vector α n → Outcome (Option Err × Vector α n)
  | 0, _, v => .ret (none, v)
  | k + 1, i, v => do
    match ← mem.read (addr + size * UInt64.ofNat i) size with
    | .error e => return (some (.panicOf e), v)
    | .ok bytes => fillLoop mem addr size decode k (i + 1) (v.setIfInBounds i (decode bytes))

def setQueues (ctxPair : AccumulateContextPair) (q : PendingAuthorizersQueues) :
    AccumulateContextPair :=
  { ctxPair with regularCtx.accumulationState.pendingAuthorizersQueues := q }

def assign : AccumulateResult :=
  charged callCost gas regs mem ctxPair fun gas =>
    let core := (regs.get A0).toNat
    let queues := ctxPair.regularCtx.accumulationState.pendingAuthorizersQueues
    match queues[core]? with
    | none => .ret ⟨gas, withCode regs .core, mem, ctxPair, none⟩
    | some queue => do
      match ← fillLoop mem (regs.get A1) 32 hashOf pendingAuthorizersQueueSize 0 queue with
      | (some e, q) =>
        return ⟨gas, regs, mem, setQueues ctxPair (queues.setIfInBounds core q), some e⟩
      | (none, q) =>
        return ⟨gas, withCode regs .ok, mem, setQueues ctxPair (queues.setIfInBounds core q), none⟩

def decodeValidatorKey (bytes : List UInt8) : Option ValidatorKey :=
  some
    { bandersnatch := toArray 32 bytes
      ed25519 := toArray 32 (bytes.drop 32)
      bls := toArray 144 (bytes.drop 64)
      metadata := toArray 128 (bytes.drop 208) }

def setValidatorKeys (ctxPair : AccumulateContextPair) (v : ValidatorsData) :
    AccumulateContextPair :=
  { ctxPair with regularCtx.accumulationState.validatorKeys := v }

def designate : AccumulateResult :=
  charged callCost gas regs mem ctxPair fun gas => do
    match ← fillLoop mem (regs.get A0) 336 decodeValidatorKey numberOfValidators 0
        ctxPair.regularCtx.accumulationState.validatorKeys with
    | (some e, v) => return ⟨gas, regs, mem, setValidatorKeys ctxPair v, some e⟩
    | (none, v) => return ⟨gas, withCode regs .ok, mem, setValidatorKeys ctxPair v, none⟩

def checkpoint : AccumulateResult :=
  charged callCost gas regs mem ctxPair fun gas =>
    .ret ⟨gas, regs.set A0 gas.toUInt64, mem,
      { ctxPair with exceptionalCtx := ctxPair.regularCtx }, none⟩

def newAccount (codeHash : Hash) (preimageLength gasLimitAccumulator gasLimitTransfer : UInt64) :
    ServiceAccount :=
  let account : ServiceAccount :=
    { storage := ∅, preimageLookup := ∅
      preimageMeta := Finmap.singleton ⟨codeHash, preimageLength.toUInt32⟩ []
      codeHash, balance := 0, gasLimitForAccumulator := gasLimitAccumulator
      gasLimitOnTransfer := gasLimitTransfer }
  { account with balance := account.thresholdBalance }

def new : AccumulateResult :=
  charged callCost gas regs mem ctxPair fun gas => do
    match ← mem.read (regs.get A0) 32 with
    | .error e => return ⟨gas, regs, mem, ctxPair, some (.panicOf e)⟩
    | .ok codeHashBytes =>
      let x := ctxPair.regularCtx
      let account := newAccount (hashOf codeHashBytes) (regs.get A1) (regs.get A2)
        (regs.get A3)
      let b := x.serviceAccount.balance - account.thresholdBalance
      if x.serviceAccount.thresholdBalance ≤ b then
        let newId ← checkIndex (bumpIndex x.newServiceId) x.accumulationState.serviceState
        let x' := { x with newServiceId := newId }
        return ⟨gas, regs.set A0 x.newServiceId.toUInt64, mem, { ctxPair with
            regularCtx := (x'.setAccount x.serviceId { x.serviceAccount with balance := b }).setAccount
              newId account }, none⟩
      else return ⟨gas, withCode regs .cash, mem, ctxPair, none⟩

def upgrade : AccumulateResult :=
  charged callCost gas regs mem ctxPair fun gas => do
    match ← mem.read (regs.get A0) 32 with
    | .error e => return ⟨gas, regs, mem, ctxPair, some (.panicOf e)⟩
    | .ok codeHash =>
      let x := ctxPair.regularCtx
      let currentService :=
        { x.serviceAccount with
          codeHash := hashOf codeHash
          gasLimitForAccumulator := regs.get A1
          gasLimitOnTransfer := regs.get A2 }
      return ⟨gas, withCode regs .ok, mem,
        { ctxPair with regularCtx := x.setAccount x.serviceId currentService }, none⟩

def transfer : AccumulateResult :=
  charged (callCost + (regs.get A2).toInt64) gas regs mem ctxPair fun gas => do
    match ← mem.read (regs.get A3) (UInt64.ofNat transferMemoSizeBytes) with
    | .error e => return ⟨gas, regs, mem, ctxPair, some (.panicOf e)⟩
    | .ok m =>
      let x := ctxPair.regularCtx
      let receiverId := (regs.get A0).toUInt32
      let newBalance := regs.get A1
      let gasLimit := regs.get A2
      let deferredTransfer : DeferredTransfer :=
        { senderServiceIndex := x.serviceId, receiverServiceIndex := receiverId
          balance := newBalance, memo := toArray _ m, gasLimit }
      match x.accumulationState.serviceState.lookup receiverId with
      | none => return ⟨gas, withCode regs .who, mem, ctxPair, none⟩
      | some receiverService =>
        if gasLimit < receiverService.gasLimitOnTransfer then
          return ⟨gas, withCode regs .low, mem, ctxPair, none⟩
        else if x.serviceAccount.balance - newBalance < x.serviceAccount.thresholdBalance then
          return ⟨gas, withCode regs .cash, mem, ctxPair, none⟩
        else
          return ⟨gas, withCode regs .ok, mem, { ctxPair with
              regularCtx := { x with deferredTransfers := x.deferredTransfers ++ [deferredTransfer] } },
            none⟩

def ejectable (x : AccumulateContext) (d : ServiceAccount) (h : Hash) (timeslot : Timeslot) :
    Except Code Unit :=
  if d.codeHash.toList ≠ Jam.toLE 32 x.serviceId.toNat then .error .who
  else if d.totalItems ≠ 2 then .error .huh
  else
    let l := max 81 (d.code.getD []).length - 81
    match d.preimageMeta.lookup ⟨h, UInt32.ofNat l⟩ with
    | some [_, y] => if y < timeslot - preimageExpulsionPeriod then .ok () else .error .huh
    | _ => .error .huh

def eject (timeslot : Timeslot) : AccumulateResult :=
  charged callCost gas regs mem ctxPair fun gas => do
    match ← mem.read (regs.get A1) 32 with
    | .error e => return ⟨gas, regs, mem, ctxPair, some (.panicOf e)⟩
    | .ok h =>
      let x := ctxPair.regularCtx
      let d := (regs.get A0).toUInt32
      if d = x.serviceId then return ⟨gas, withCode regs .who, mem, ctxPair, none⟩
      else
        match x.accumulationState.serviceState.lookup d with
        | none => return ⟨gas, withCode regs .who, mem, ctxPair, none⟩
        | some serviceAccount =>
          match ejectable x serviceAccount (hashOf h) timeslot with
          | .error code => return ⟨gas, withCode regs code, mem, ctxPair, none⟩
          | .ok () =>
            let xs := { x.serviceAccount with
              balance := x.serviceAccount.balance + serviceAccount.balance }
            return ⟨gas, withCode regs .ok, mem,
              { ctxPair with regularCtx := (x.deleteAccount d).setAccount x.serviceId xs }, none⟩

def queryResult (regs : Registers) : List Timeslot → Registers
  | [] => (regs.set A0 0).set A1 0
  | [x] => (regs.set A0 ((1 : UInt64) + (x.toUInt64 <<< 32))).set A1 0
  | [x, y] => (regs.set A0 ((2 : UInt64) + (x.toUInt64 <<< 32))).set A1 y.toUInt64
  | [x, y, z] =>
    (regs.set A0 ((3 : UInt64) + (x.toUInt64 <<< 32))).set A1 (y.toUInt64 + (z.toUInt64 <<< 32))
  | _ => regs

def query : AccumulateResult :=
  charged callCost gas regs mem ctxPair fun gas => do
    match ← mem.read (regs.get A0) 32 with
    | .error e => return ⟨gas, regs, mem, ctxPair, some (.panicOf e)⟩
    | .ok h =>
      match ctxPair.regularCtx.serviceAccount.preimageMeta.lookup
          ⟨hashOf h, (regs.get A1).toUInt32⟩ with
      | none => return ⟨gas, withCode (regs.set A1 0) .none, mem, ctxPair, none⟩
      | some a => return ⟨gas, queryResult regs a, mem, ctxPair, none⟩

def setOwn (ctxPair : AccumulateContextPair) (account : ServiceAccount) : AccumulateContextPair :=
  { ctxPair with regularCtx := ctxPair.regularCtx.setAccount ctxPair.regularCtx.serviceId account }

def solicit (timeslot : Timeslot) : AccumulateResult :=
  charged callCost gas regs mem ctxPair fun gas => do
    match ← mem.read (regs.get A0) 32 with
    | .error e => return ⟨gas, regs, mem, ctxPair, some (.panicOf e)⟩
    | .ok h =>
      let x := ctxPair.regularCtx
      let key : PreImageMetaKey := ⟨hashOf h, (regs.get A1).toUInt32⟩
      match x.accumulationState.serviceState.lookup x.serviceId with
      | none => .crash .nilMapAssignment
      | some a =>
        let history :=
          match a.preimageMeta.lookup key with
          | none => some []
          | some [t₀, t₁] => some [t₀, t₁, timeslot]
          | some _ => none
        match history with
        | none => return ⟨gas, withCode regs .huh, mem, ctxPair, none⟩
        | some history =>
          let a' := { a with preimageMeta := a.preimageMeta.insert key history }
          let code := if a'.balance < a'.thresholdBalance then Code.full else Code.ok
          return ⟨gas, withCode regs code, mem, setOwn ctxPair a', none⟩

def forgetIn (a : ServiceAccount) (key : PreImageMetaKey) (timeslot : Timeslot) :
    Option ServiceAccount :=
  let forgotten :=
    { a with
      preimageMeta := a.preimageMeta.erase key
      preimageLookup := a.preimageLookup.erase key.hash }
  match a.preimageMeta.getD key [] with
  | [] => some forgotten
  | [_, y] => if y < timeslot - preimageExpulsionPeriod then some forgotten else none
  | [x] => some { a with preimageMeta := a.preimageMeta.insert key [x, timeslot] }
  | [_, y, w] =>
    if y < timeslot - preimageExpulsionPeriod then
      some { a with preimageMeta := a.preimageMeta.insert key [w, timeslot] }
    else none
  | _ => none

def forget (timeslot : Timeslot) : AccumulateResult :=
  charged callCost gas regs mem ctxPair fun gas => do
    match ← mem.read (regs.get A0) 32 with
    | .error e => return ⟨gas, regs, mem, ctxPair, some (.panicOf e)⟩
    | .ok h =>
      match forgetIn ctxPair.regularCtx.serviceAccount ⟨hashOf h, (regs.get A1).toUInt32⟩
          timeslot with
      | some a => return ⟨gas, withCode regs .ok, mem, setOwn ctxPair a, none⟩
      | none => return ⟨gas, withCode regs .huh, mem, ctxPair, none⟩

def yield : AccumulateResult :=
  charged callCost gas regs mem ctxPair fun gas => do
    match ← mem.read (regs.get A0) 32 with
    | .error e => return ⟨gas, regs, mem, ctxPair, some (.panicOf e)⟩
    | .ok h =>
      return ⟨gas, withCode regs .ok, mem,
        { ctxPair with regularCtx.accumulationHash := some (hashOf h) }, none⟩

end Strawberry.HostCall
