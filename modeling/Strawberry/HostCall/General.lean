import Strawberry.Interpreter.Step
import Strawberry.Service

/-!
# General host functions

`GasRemaining`, `Lookup`, `Read`, `Write` and `Info`, which accumulation and on-transfer
runs share.
-/

namespace Strawberry.HostCall

open Polkavm Interpreter Reg

inductive HostFunction where
  | gasID | lookupID | readID | writeID | infoID | blessID | assignID | designateID
  | checkpointID | newID | upgradeID | transferID | ejectID | queryID | solicitID | forgetID
  | yieldID | historicalLookupID | fetchID | exportID | machineID | peekID | pokeID | zeroID
  | voidID | invokeID | expungeID
  deriving DecidableEq

open HostFunction in
def hostFunctions : List HostFunction :=
  [gasID, lookupID, readID, writeID, infoID, blessID, assignID, designateID, checkpointID, newID,
    upgradeID, transferID, ejectID, queryID, solicitID, forgetID, yieldID, historicalLookupID,
    fetchID, exportID, machineID, peekID, pokeID, zeroID, voidID, invokeID, expungeID]

def HostFunction.ofNumber (hostCall : UInt64) : Option HostFunction :=
  hostFunctions[hostCall.toNat]?

def callCost : Gas := 10

inductive Code where
  | none | what | oob | who | full | core | cash | low | huh | ok
  deriving DecidableEq

def Code.toUInt64 : Code → UInt64
  | none => 0xFFFFFFFFFFFFFFFF
  | what => 0xFFFFFFFFFFFFFFFE
  | oob => 0xFFFFFFFFFFFFFFFD
  | who => 0xFFFFFFFFFFFFFFFC
  | full => 0xFFFFFFFFFFFFFFFB
  | core => 0xFFFFFFFFFFFFFFFA
  | cash => 0xFFFFFFFFFFFFFFF9
  | low => 0xFFFFFFFFFFFFFFF8
  | huh => 0xFFFFFFFFFFFFFFF7
  | ok => 0

inductive InnerCode where
  | halt | panic | fault | host | oog
  deriving DecidableEq

def InnerCode.toUInt64 : InnerCode → UInt64
  | halt => 0
  | panic => 1
  | fault => 2
  | host => 3
  | oog => 4

def withCode (regs : Registers) (s : Code) : Registers := regs.set A0 s.toUInt64

def withInnerCode (regs : Registers) (s : InnerCode) : Registers := regs.set A0 s.toUInt64

theorem get_set_self (regs : Registers) (value : UInt64) :
    (regs.set A0 value).get A0 = value :=
  Vector.getElem_set_self _

def charged {X : Type} (cost gas : Gas) (regs : Registers) (mem : Memory) (x : X)
    (body : Gas → Outcome (HostResult X)) : Outcome (HostResult X) :=
  if gas < cost then .ret ⟨gas, regs, mem, x, some .outOfGas⟩ else body (gas - cost)

def readNumber (mem : Memory) (addr length : UInt64) : Outcome (Except Err UInt64) := do
  match ← mem.read addr length with
  | .error e => return .error e
  | .ok b => return .ok (Jam.leUInt64 b)

def writeFromOffset (mem : Memory) (addressToWrite : UInt64) (data : List UInt8)
    (offset length : UInt64) : Outcome (Except Err Memory) :=
  let vLen := UInt64.ofNat data.length
  let f := min offset vLen
  let l := min length (vLen - f)
  if 0 < l then do
    match ← mem.write addressToWrite ((data.drop f.toNat).take l.toNat) with
    | .error _ => return .error (.panic (.outOfBoundsWrite addressToWrite))
    | .ok mem => return .ok mem
  else .ret (.ok mem)

open Service

def gasRemaining (gas : Gas) (regs : Registers) (mem : Memory) : Outcome (HostResult Unit) :=
  charged callCost gas regs mem () fun gas =>
    .ret ⟨gas, regs.set A0 gas.toUInt64, mem, (), none⟩

def self : UInt64 := 0xFFFFFFFFFFFFFFFF

def lookup (gas : Gas) (regs : Registers) (mem : Memory) (s : ServiceAccount)
    (serviceId : ServiceId) (serviceState : ServiceState) : Outcome (HostResult Unit) :=
  charged callCost gas regs mem () fun gas =>
    let omega7 := regs.get A0
    let account :=
      if omega7 ≠ self ∧ omega7 ≠ serviceId.toUInt64 then serviceState.lookup serviceId else some s
    match account with
    | none => .ret ⟨gas, withCode regs .none, mem, (), none⟩
    | some a => do
      match ← mem.read (regs.get A1) 32 with
      | .error e => return ⟨gas, regs, mem, (), some (.panicOf e)⟩
      | .ok key =>
        match a.preimageLookup.lookup (hashOf key) with
        | none => return ⟨gas, withCode regs .none, mem, (), none⟩
        | some v =>
          match ← writeFromOffset mem (regs.get A2) v (regs.get A3) (regs.get A4) with
          | .error e => return ⟨gas, regs, mem, (), some e⟩
          | .ok mem =>
            return ⟨gas, regs.set A0 (UInt64.ofNat v.length), mem, (), none⟩

variable (hashData : HashData)

def storageKey (serviceId : ServiceId) (keyData : List UInt8) : Hash :=
  hashData (encodeUint32 serviceId ++ keyData)

def read (gas : Gas) (regs : Registers) (mem : Memory) (s : ServiceAccount)
    (serviceId : ServiceId) (serviceState : ServiceState) : Outcome (HostResult Unit) :=
  charged callCost gas regs mem () fun gas =>
    let omega7 := regs.get A0
    let ss := if omega7 = self then serviceId else omega7.toUInt32
    let account := if ss ≠ serviceId then serviceState.lookup ss else some s
    match account with
    | none => .ret ⟨gas, regs, mem, (), some (.panic .accountNotFound)⟩
    | some a => do
      let kz := regs.get A2
      makeCheck 1 kz.toNat
      match ← mem.read (regs.get A1) kz with
      | .error e => return ⟨gas, regs, mem, (), some (.panicOf e)⟩
      | .ok keyData =>
        match a.storage.lookup (storageKey hashData ss keyData) with
        | none => return ⟨gas, withCode regs .none, mem, (), none⟩
        | some v =>
          match ← writeFromOffset mem (regs.get A3) v (regs.get A4) (regs.get A5) with
          | .error e => return ⟨gas, regs, mem, (), some e⟩
          | .ok mem =>
            return ⟨gas, regs.set A0 (UInt64.ofNat v.length), mem, (), none⟩

def writeResult (gas : Gas) (regs : Registers) (mem : Memory) (a : ServiceAccount) (k : Hash) :
    HostResult ServiceAccount :=
  match a.storage.lookup k with
  | none => ⟨gas, withCode regs .none, mem, a, none⟩
  | some storageItem =>
    if a.balance < a.thresholdBalance then ⟨gas, withCode regs .full, mem, a, none⟩
    else ⟨gas, regs.set A0 (UInt64.ofNat storageItem.length), mem, a, none⟩

def write (gas : Gas) (regs : Registers) (mem : Memory) (s : ServiceAccount)
    (serviceId : ServiceId) : Outcome (HostResult ServiceAccount) :=
  charged callCost gas regs mem s fun gas => do
    let kz := regs.get A1
    let vz := regs.get A3
    makeCheck 1 kz.toNat
    match ← mem.read (regs.get A0) kz with
    | .error e => return ⟨gas, regs, mem, s, some (.panicOf e)⟩
    | .ok keyData =>
      let k := storageKey hashData serviceId keyData
      if vz = 0 then return writeResult gas regs mem { s with storage := s.storage.erase k } k
      else
        makeCheck 1 vz.toNat
        match ← mem.read (regs.get A2) vz with
        | .error e => return ⟨gas, regs, mem, s, some (.panicOf e)⟩
        | .ok valueData =>
          return writeResult gas regs mem { s with storage := s.storage.insert k valueData } k

def encodeAccountInfo (t : ServiceAccount) : List UInt8 :=
  t.codeHash.toList ++ encodeUint64 t.balance ++ encodeUint64 t.thresholdBalance ++
    encodeUint64 t.gasLimitForAccumulator ++ encodeUint64 t.gasLimitOnTransfer ++
    encodeUint64 t.totalStorageSize ++ encodeUint32 t.totalItems

def info (gas : Gas) (regs : Registers) (mem : Memory) (serviceId : ServiceId)
    (serviceState : ServiceState) : Outcome (HostResult Unit) :=
  charged callCost gas regs mem () fun gas =>
    let omega7 := regs.get A0
    match serviceState.lookup (if omega7 ≠ self then omega7.toUInt32 else serviceId) with
    | none => .ret ⟨gas, withCode regs .none, mem, (), none⟩
    | some t => do
      match ← mem.write (regs.get A1) (encodeAccountInfo t) with
      | .error e => return ⟨gas, regs, mem, (), some (.panicOf e)⟩
      | .ok mem => return ⟨gas, withCode regs .ok, mem, (), none⟩

end Strawberry.HostCall
