import Strawberry.HostCall.Accumulate

namespace Strawberry.HostCall

open Polkavm Interpreter Service State Constants Reg

/-! ## Gas -/

def GasLaw {X : Type} (cost gas : Gas) (r : HostResult X) : Prop :=
  if gas < cost then r.gas = gas ∧ r.err = some .outOfGas else r.gas = gas - cost

variable {X : Type} {cost gas : Gas} {regs : Registers} {mem : Memory}

variable {x : X} {body : Gas → Outcome (HostResult X)}

theorem post_charged {P : HostResult X → Prop}
    (hout : gas < cost → P ⟨gas, regs, mem, x, some .outOfGas⟩)
    (hbody : ¬ gas < cost → (body (gas - cost)).Post P) :
    (charged cost gas regs mem x body).Post P := by
  unfold charged
  split
  · next h => exact post_ret.mpr (hout h)
  · next h => exact hbody h

theorem charged_post {P : HostResult X → Prop}
    (hout : gas < cost → P ⟨gas, regs, mem, x, some .outOfGas⟩)
    (hbody : ¬ gas < cost → ∀ g, (body g).Post fun r => r.gas = g ∧ P r) :
    (charged cost gas regs mem x body).Post fun r => GasLaw cost gas r ∧ P r := by
  refine post_charged (fun h => ?_) fun h => (hbody h _).mono ?_
  · rw [GasLaw, if_pos h]
    exact ⟨⟨rfl, rfl⟩, hout h⟩
  · rintro r ⟨hgas, hP⟩
    rw [GasLaw, if_neg h]
    exact ⟨hgas, hP⟩

theorem charged_gas (hbody : ∀ g, (body g).Post fun r => r.gas = g) :
    (charged cost gas regs mem x body).Post (GasLaw cost gas) := by
  have h : (charged cost gas regs mem x body).Post fun r => GasLaw cost gas r ∧ True :=
    charged_post (fun _ => trivial) fun _ g => (hbody g).mono fun r hr => ⟨hr, trivial⟩
  exact h.mono fun r hr => hr.1

def stored (s : ServiceAccount) (k : Hash) (value : Option (List UInt8)) : ServiceAccount :=
  { s with
    storage := match value with
      | none => s.storage.erase k
      | some v => s.storage.insert k v }

def ValueOf (regs : Registers) (mem : Memory) : Option (List UInt8) → Prop
  | none => regs.get A3 = 0
  | some v => regs.get A3 ≠ 0 ∧ mem.read (regs.get A2) (regs.get A3) = .ret (.ok v)

variable {s : ServiceAccount} {serviceId : ServiceId} {serviceState : ServiceState}
  {H : HashData}

theorem gasRemaining_post : (gasRemaining gas regs mem).Post (GasLaw callCost gas) :=
  charged_gas fun g => by simp

theorem lookup_post : (lookup gas regs mem s serviceId serviceState).Post
    (GasLaw callCost gas) := by
  refine charged_gas fun g => ?_
  dsimp only
  split
  · simp
  · rw [post_bind]
    rintro (e | key) -
    · simp
    · dsimp only
      split
      · simp
      · rw [post_bind]
        rintro (e | mem') - <;> simp

theorem read_post : (read H gas regs mem s serviceId serviceState).Post (GasLaw callCost gas) := by
  refine charged_gas fun g => ?_
  dsimp only
  split
  · simp
  · rw [post_bind]
    rintro _ -
    rw [post_bind]
    rintro (e | keyData) -
    · simp
    · dsimp only
      split
      · simp
      · rw [post_bind]
        rintro (e | mem') - <;> simp

theorem writeResult_gas (gas : Gas) (regs : Registers) (mem : Memory) (a : ServiceAccount)
    (k : Hash) : (writeResult gas regs mem a k).gas = gas := by
  unfold writeResult
  split
  · rfl
  · split <;> rfl

theorem writeResult_x (gas : Gas) (regs : Registers) (mem : Memory) (a : ServiceAccount)
    (k : Hash) : (writeResult gas regs mem a k).x = a := by
  unfold writeResult
  split
  · rfl
  · split <;> rfl

theorem lookup_stored {k : Hash} {value : Option (List UInt8)} :
    (stored s k value).storage.lookup k = value := by
  cases value with
  | none => exact Finmap.lookup_erase _ _
  | some v => exact Finmap.lookup_insert _

theorem write_post : (write H gas regs mem s serviceId).Post fun r => GasLaw callCost gas r ∧
    (r.x = s ∧ r.err ≠ none ∨
      ∃ keyData value, mem.read (regs.get A0) (regs.get A1) = .ret (.ok keyData) ∧
        ValueOf regs mem value ∧ (∀ v, value = some v → v.length ≤ maxAlloc) ∧
        r = writeResult r.gas regs mem (stored s (storageKey H serviceId keyData) value)
          (storageKey H serviceId keyData)) := by
  refine charged_post (fun _ => .inl ⟨rfl, nofun⟩) fun _ g => ?_
  rw [post_bind]
  rintro _ -
  rw [post_bind]
  rintro (e | keyData) hkey
  · exact post_ret.mpr ⟨rfl, .inl ⟨rfl, nofun⟩⟩
  · dsimp only
    split
    · next hzero =>
      refine post_ret.mpr ⟨writeResult_gas .., .inr ⟨keyData, none, hkey, hzero, nofun, ?_⟩⟩
      rw [writeResult_gas]
      rfl
    · next hzero =>
      rw [post_bind]
      rintro _ hcheck
      rw [post_bind]
      rintro (e | v) hvalue
      · exact post_ret.mpr ⟨rfl, .inl ⟨rfl, nofun⟩⟩
      · refine post_ret.mpr
          ⟨writeResult_gas .., .inr ⟨keyData, some v, hkey, ⟨hzero, hvalue⟩, ?_, ?_⟩⟩
        · rintro _ ⟨⟩
          have hlen := Memory.length_of_read hvalue
          have halloc := makeCheck_eq_ret.mp hcheck
          omega
        · rw [writeResult_gas]
          rfl

theorem info_post : (info gas regs mem serviceId serviceState).Post (GasLaw callCost gas) := by
  refine charged_gas fun g => ?_
  dsimp only
  split
  · simp
  · rw [post_bind]
    rintro (e | mem') - <;> simp

def failureCodes : List Code := [.core, .cash, .who, .low, .full, .huh]

def Failed {X : Type} (r : HostResult X) : Prop :=
  r.err ≠ none ∨ ∃ code ∈ failureCodes, r.regs.get A0 = code.toUInt64

theorem failureCodes_large : ∀ code ∈ failureCodes, 2 ^ 32 ≤ code.toUInt64.toNat := by decide

theorem not_failed_of_lt {value : UInt64} (h : value.toNat < 2 ^ 32) :
    ¬ Failed (⟨gas, regs.set A0 value, mem, x, none⟩ : HostResult X) := by
  rintro (herr | ⟨code, hcode, heq⟩)
  · exact herr rfl
  · have hlarge := failureCodes_large code hcode
    rw [← heq, get_set_self] at hlarge
    omega

theorem not_failed_of_ok : ¬ Failed (⟨gas, withCode regs .ok, mem, x, none⟩ : HostResult X) :=
  not_failed_of_lt (by decide)

theorem failed_of_code {code : Code} (h : code ∈ failureCodes) :
    Failed (⟨gas, withCode regs code, mem, x, none⟩ : HostResult X) :=
  .inr ⟨code, h, get_set_self regs code.toUInt64⟩

theorem serviceAccount_setOwn (x : AccumulateContextPair) (a : ServiceAccount) :
    (setOwn x a).regularCtx.serviceAccount = a := GoMap.getD_insert

def Readable (mem : Memory) (address size : UInt64) : Prop :=
  ∃ bytes, mem.read address size = .ret (.ok bytes)

def NewCreates (gas : Gas) (regs : Registers) (mem : Memory) (x : AccumulateContext) : Prop :=
  ¬ gas < callCost ∧ Readable mem (regs.get A0) 32 ∧
    x.serviceAccount.thresholdBalance ≤ x.serviceAccount.balance - basicMinimumBalance

def createIn (x : AccumulateContext) (newId : ServiceId) (account : ServiceAccount) :
    AccumulateContext :=
  (AccumulateContext.setAccount { x with newServiceId := newId } x.serviceId
    { x.serviceAccount with balance := x.serviceAccount.balance - basicMinimumBalance }).setAccount
      newId account

def TransferSends (gas : Gas) (regs : Registers) (mem : Memory) (x : AccumulateContext) : Prop :=
  ¬ gas < callCost + (regs.get A2).toInt64 ∧ Readable mem (regs.get A3) 128 ∧
    (∃ receiver, x.accumulationState.serviceState.lookup (regs.get A0).toUInt32 = some receiver ∧
      ¬ regs.get A2 < receiver.gasLimitOnTransfer) ∧
    ¬ x.serviceAccount.balance - regs.get A1 < x.serviceAccount.thresholdBalance

def EjectRemoves (gas : Gas) (regs : Registers) (mem : Memory) (x : AccumulateContext)
    (timeslot : Timeslot) (account : ServiceAccount) : Prop :=
  ¬ gas < callCost ∧ (regs.get A0).toUInt32 ≠ x.serviceId ∧
    x.accumulationState.serviceState.lookup (regs.get A0).toUInt32 = some account ∧
    ∃ h, mem.read (regs.get A1) 32 = .ret (.ok h) ∧ ejectable x account (hashOf h) timeslot = .ok ()

def ejectIn (x : AccumulateContext) (d : ServiceId) (account : ServiceAccount) :
    AccumulateContext :=
  (x.deleteAccount d).setAccount x.serviceId
    { x.serviceAccount with balance := x.serviceAccount.balance + account.balance }

structure Fresh (a : ServiceAccount) : Prop where
  storage : a.storage = ∅
  preimageLookup : a.preimageLookup = ∅
  balance : a.balance = basicMinimumBalance

theorem newAccount_thresholdBalance (c : Hash) (l g m : UInt64) :
    (newAccount c l g m).thresholdBalance = basicMinimumBalance := by
  rfl

theorem newAccount_fresh (c : Hash) (l g m : UInt64) : Fresh (newAccount c l g m) :=
  ⟨rfl, rfl, newAccount_thresholdBalance c l g m⟩

theorem Fresh.totalItems_ne {account : ServiceAccount} (h : Fresh account) :
    account.totalItems ≠ 2 := by
  unfold ServiceAccount.totalItems
  rw [h.storage, h.preimageLookup]
  decide

inductive ContextStep (f : Option HostFunction) (x : AccumulateContextPair) :
    AccumulateContextPair → Prop where
  | same : ContextStep f x x
  /-- The accounts and the transfers stay as they are. -/
  | fields (u : AccumulateContext) (hid : u.serviceId = x.regularCtx.serviceId)
    (hstate : u.accumulationState.serviceState = x.regularCtx.accumulationState.serviceState)
    (htransfers : u.deferredTransfers = x.regularCtx.deferredTransfers) :
    ContextStep f x { x with regularCtx := u }
  /-- The running service sends a transfer. -/
  | sent (t : DeferredTransfer) (hsender : t.senderServiceIndex = x.regularCtx.serviceId) :
    ContextStep f x { x with regularCtx.deferredTransfers := x.regularCtx.deferredTransfers ++ [t] }
  /-- The running service's own account changes. -/
  | own (a : ServiceAccount) : ContextStep f x (setOwn x a)
  | created (hf : f = some .newID) (newId : ServiceId) (account : ServiceAccount)
    (hfresh : Fresh account) (hnew : newId ∉ x.regularCtx.accumulationState.serviceState) :
    ContextStep f x { x with regularCtx := createIn x.regularCtx newId account }
  | ejected (hf : f = some .ejectID) (d : ServiceId) (account : ServiceAccount)
    (hd : d ≠ x.regularCtx.serviceId)
    (hget : x.regularCtx.accumulationState.serviceState.lookup d = some account)
    (hitems : account.totalItems = 2) :
    ContextStep f x { x with regularCtx := ejectIn x.regularCtx d account }

def SameReady (x : AccumulateContextPair) (r : HostResult AccumulateContextPair) : Prop :=
  r.x.regularCtx.newServiceId = x.regularCtx.newServiceId

section

variable {f : Option HostFunction} {x : AccumulateContextPair} {timeslot : Timeslot}

theorem bless_post : (bless gas regs mem x).Post fun r =>
    GasLaw callCost gas r ∧ ContextStep f x r.x ∧ SameReady x r := by
  refine charged_post (fun _ => ⟨.same, rfl⟩) fun _ g => ?_
  rw [post_bind]
  rintro ⟨_ | e, m⟩ -
  · exact post_ret.mpr ⟨rfl, .fields _ rfl rfl rfl, rfl⟩
  · exact post_ret.mpr ⟨rfl, .fields _ rfl rfl rfl, rfl⟩

theorem assign_post : (assign gas regs mem x).Post fun r =>
    GasLaw callCost gas r ∧ ContextStep f x r.x ∧ SameReady x r := by
  refine charged_post (fun _ => ⟨.same, rfl⟩) fun _ g => ?_
  dsimp only
  split
  · exact post_ret.mpr ⟨rfl, .same, rfl⟩
  · rw [post_bind]
    rintro ⟨_ | e, q⟩ -
    · exact post_ret.mpr ⟨rfl, .fields _ rfl rfl rfl, rfl⟩
    · exact post_ret.mpr ⟨rfl, .fields _ rfl rfl rfl, rfl⟩

theorem designate_post : (designate gas regs mem x).Post fun r =>
    GasLaw callCost gas r ∧ ContextStep f x r.x ∧ SameReady x r := by
  refine charged_post (fun _ => ⟨.same, rfl⟩) fun _ g => ?_
  rw [post_bind]
  rintro ⟨_ | e, v⟩ -
  · exact post_ret.mpr ⟨rfl, .fields _ rfl rfl rfl, rfl⟩
  · exact post_ret.mpr ⟨rfl, .fields _ rfl rfl rfl, rfl⟩

theorem checkpoint_post : (checkpoint gas regs mem x).Post fun r =>
    GasLaw callCost gas r ∧ (¬ gas < callCost → r.err = none) ∧
      r.x = if gas < callCost then x else { x with exceptionalCtx := x.regularCtx } := by
  refine charged_post (fun h => ⟨absurd h, (if_pos h).symm⟩) fun h g => ?_
  exact post_ret.mpr ⟨rfl, fun _ => rfl, (if_neg h).symm⟩

inductive NewDone (gas : Gas) (regs : Registers) (mem : Memory) (x : AccumulateContextPair)
    (r : HostResult AccumulateContextPair) : Prop where
  | created (newId : ServiceId) (account : ServiceAccount)
    (hcreates : NewCreates gas regs mem x.regularCtx) (hdone : ¬ Failed r)
    (hA0 : r.regs.get A0 = x.regularCtx.newServiceId.toUInt64) (hfresh : Fresh account)
    (hcheck : checkIndex (bumpIndex x.regularCtx.newServiceId)
      x.regularCtx.accumulationState.serviceState = .ret newId)
    (hx : r.x = { x with regularCtx := createIn x.regularCtx newId account })
  | failed (hcreates : ¬ NewCreates gas regs mem x.regularCtx) (hfailed : Failed r) (hx : r.x = x)
    (hcash : r.err = none → r.regs.get A0 = Code.cash.toUInt64 ∧
      x.regularCtx.serviceAccount.balance - basicMinimumBalance <
        x.regularCtx.serviceAccount.thresholdBalance)

theorem new_post : (new gas regs mem x).Post fun r =>
    GasLaw callCost gas r ∧ NewDone gas regs mem x r := by
  refine charged_post (fun h => .failed (fun hc => hc.1 h) (.inl nofun) rfl nofun) fun h g => ?_
  rw [post_bind]
  rintro (e | codeHashBytes) hread
  · refine post_ret.mpr ⟨rfl, .failed ?_ (.inl nofun) rfl nofun⟩
    rintro ⟨-, ⟨bytes, hbytes⟩, -⟩
    rw [hread] at hbytes
    cases hbytes
  · simp only [newAccount_thresholdBalance]
    split
    · next hb =>
      rw [post_bind]
      intro newId hnew
      exact post_ret.mpr ⟨rfl, .created newId _ ⟨h, ⟨_, hread⟩, hb⟩
        (not_failed_of_lt x.regularCtx.newServiceId.toNat_lt) (get_set_self regs _)
        (newAccount_fresh ..) hnew rfl⟩
    · next hb =>
      exact post_ret.mpr ⟨rfl, .failed (fun hc => hb hc.2.2) (failed_of_code (by decide)) rfl
        fun _ => ⟨get_set_self regs _, UInt64.not_le.mp hb⟩⟩

theorem new_failed : (new gas regs mem x).Post fun r => Failed r → r.x = x := by
  intro r hr hfailed
  cases (new_post r hr).2 with
  | created _ _ _ hdone => exact absurd hfailed hdone
  | failed _ _ hx => exact hx

theorem upgrade_post : (upgrade gas regs mem x).Post fun r => GasLaw callCost gas r ∧
    (r.x = x ∨ ∃ a, a.balance = x.regularCtx.serviceAccount.balance ∧ r.x = setOwn x a) := by
  refine charged_post (fun _ => .inl rfl) fun _ g => ?_
  rw [post_bind]
  rintro (e | codeHash) -
  · exact post_ret.mpr ⟨rfl, .inl rfl⟩
  · refine post_ret.mpr ⟨rfl, .inr ⟨_, ?_, rfl⟩⟩
    rfl

inductive TransferDone (gas : Gas) (regs : Registers) (mem : Memory) (x : AccumulateContextPair)
    (r : HostResult AccumulateContextPair) : Prop where
  | sent (t : DeferredTransfer) (hsends : TransferSends gas regs mem x.regularCtx)
    (hdone : ¬ Failed r) (hbalance : t.balance = regs.get A1)
    (hsender : t.senderServiceIndex = x.regularCtx.serviceId)
    (hx : r.x = { x with regularCtx.deferredTransfers := x.regularCtx.deferredTransfers ++ [t] })
  | failed (hsends : ¬ TransferSends gas regs mem x.regularCtx) (hx : r.x = x)
    (hcode : r.err = none → r.regs.get A0 = Code.who.toUInt64 ∨
      r.regs.get A0 = Code.low.toUInt64 ∨ r.regs.get A0 = Code.cash.toUInt64 ∧
        x.regularCtx.serviceAccount.balance - regs.get A1 <
          x.regularCtx.serviceAccount.thresholdBalance)

theorem transfer_post : (transfer gas regs mem x).Post fun r =>
    GasLaw (callCost + (regs.get A2).toInt64) gas r ∧
    (¬ gas < callCost + (regs.get A2).toInt64 → r.err ≠ some .outOfGas) ∧
    TransferDone gas regs mem x r := by
  refine charged_post (fun h => ⟨fun hn => absurd h hn, .failed (fun hs => hs.1 h) rfl nofun⟩)
    fun h g => ?_
  rw [post_bind]
  rintro (e | memo) hread
  · refine post_ret.mpr ⟨rfl, by simp, .failed ?_ rfl nofun⟩
    rintro ⟨-, ⟨bytes, hbytes⟩, -, -⟩
    rw [show (128 : UInt64) = UInt64.ofNat transferMemoSizeBytes from rfl, hread] at hbytes
    cases hbytes
  · dsimp only
    split
    · next hnone =>
      refine post_ret.mpr ⟨rfl, by simp, .failed ?_ rfl fun _ => .inl (get_set_self regs _)⟩
      rintro ⟨-, -, ⟨receiver, hreceiver, -⟩, -⟩
      rw [hnone] at hreceiver
      cases hreceiver
    · next receiver hreceiver =>
      split
      · next hlow =>
        refine post_ret.mpr
          ⟨rfl, by simp, .failed ?_ rfl fun _ => .inr (.inl (get_set_self regs _))⟩
        rintro ⟨-, -, ⟨receiver', hreceiver', hlimit⟩, -⟩
        rw [hreceiver] at hreceiver'
        cases hreceiver'
        exact hlimit hlow
      · next hlimit =>
        split
        · next hcash =>
          exact post_ret.mpr ⟨rfl, by simp, .failed (fun hs => hs.2.2.2 hcash) rfl
            fun _ => .inr (.inr ⟨get_set_self regs _, hcash⟩)⟩
        · next hcash =>
          refine post_ret.mpr ⟨rfl, by simp, .sent _ ?_ not_failed_of_ok rfl rfl rfl⟩
          exact ⟨h, ⟨memo, hread⟩, ⟨receiver, hreceiver, hlimit⟩, hcash⟩

theorem ejectable_totalItems {y : AccumulateContext} {d : ServiceAccount} {h : Hash}
    (hok : ejectable y d h timeslot = .ok ()) : d.totalItems = 2 := by
  unfold ejectable at hok
  split at hok
  · cases hok
  · split at hok
    · cases hok
    · next hitems => exact Decidable.not_not.mp hitems

theorem eject_post : (eject gas regs mem x timeslot).Post fun r => GasLaw callCost gas r ∧
    ((∃ account, EjectRemoves gas regs mem x.regularCtx timeslot account ∧
        ¬ Failed r ∧ r.x = { x with
          regularCtx := ejectIn x.regularCtx (regs.get A0).toUInt32 account }) ∨
      ((∀ account, ¬ EjectRemoves gas regs mem x.regularCtx timeslot account) ∧ r.x = x)) := by
  refine charged_post (fun h => .inr ⟨fun _ hr => hr.1 h, rfl⟩) fun h g => ?_
  rw [post_bind]
  rintro (e | hash) hread
  · refine post_ret.mpr ⟨rfl, .inr ⟨?_, rfl⟩⟩
    rintro account ⟨-, -, -, bytes, hbytes, -⟩
    rw [hread] at hbytes
    cases hbytes
  · dsimp only
    split
    · next hself => exact post_ret.mpr ⟨rfl, .inr ⟨fun _ hr => hr.2.1 hself, rfl⟩⟩
    · next hself =>
      split
      · next hnone =>
        refine post_ret.mpr ⟨rfl, .inr ⟨?_, rfl⟩⟩
        rintro account ⟨-, -, hsome, -⟩
        rw [hnone] at hsome
        cases hsome
      · next account hsome =>
        split
        · next code hcode =>
          refine post_ret.mpr ⟨rfl, .inr ⟨?_, rfl⟩⟩
          rintro account' ⟨-, -, hsome', bytes, hbytes, hok⟩
          rw [hread] at hbytes
          rw [hsome] at hsome'
          cases hbytes
          cases hsome'
          rw [hcode] at hok
          cases hok
        · next hok =>
          exact post_ret.mpr
            ⟨rfl, .inl ⟨account, ⟨h, hself, hsome, hash, hread, hok⟩, not_failed_of_ok, rfl⟩⟩

theorem query_post : (query gas regs mem x).Post fun r => GasLaw callCost gas r ∧ r.x = x := by
  refine charged_post (fun _ => rfl) fun _ g => ?_
  rw [post_bind]
  rintro (e | h) -
  · exact post_ret.mpr ⟨rfl, rfl⟩
  · dsimp only
    split
    · exact post_ret.mpr ⟨rfl, rfl⟩
    · exact post_ret.mpr ⟨rfl, rfl⟩

/-- The preimage that a paid solicit or forget call names. -/
def Names (gas : Gas) (regs : Registers) (mem : Memory) (key : PreImageMetaKey) : Prop :=
  ¬ gas < callCost ∧ ∃ bytes, mem.read (regs.get A0) 32 = .ret (.ok bytes) ∧
    key = ⟨hashOf bytes, (regs.get A1).toUInt32⟩

/-- A request for `key` at `timeslot` can be entered in the account, as `history`. -/
def Requests (a : ServiceAccount) (key : PreImageMetaKey) (timeslot : Timeslot)
    (history : List Timeslot) : Prop :=
  (a.preimageMeta.lookup key = none ∧ history = []) ∨
    ∃ t₀ t₁, a.preimageMeta.lookup key = some [t₀, t₁] ∧ history = [t₀, t₁, timeslot]

inductive SolicitDone (gas : Gas) (regs : Registers) (mem : Memory) (x : AccumulateContextPair)
    (timeslot : Timeslot) (r : HostResult AccumulateContextPair) : Prop where
  | same (hx : r.x = x) (hnone : ∀ key a history, Names gas regs mem key →
      x.regularCtx.accumulationState.serviceState.lookup x.regularCtx.serviceId = some a →
      ¬ Requests a key timeslot history)
  | entered (a : ServiceAccount) (key : PreImageMetaKey) (history : List Timeslot)
    (hnames : Names gas regs mem key)
    (hown : x.regularCtx.accumulationState.serviceState.lookup x.regularCtx.serviceId = some a)
    (hist : Requests a key timeslot history)
    (hx : r.x = setOwn x { a with preimageMeta := a.preimageMeta.insert key history })
    (herr : r.err = none)
    (hcode : r.regs.get A0 = (if r.x.regularCtx.serviceAccount.balance <
      r.x.regularCtx.serviceAccount.thresholdBalance then Code.full else Code.ok).toUInt64)

theorem solicit_post : (solicit gas regs mem x timeslot).Post fun r =>
    GasLaw callCost gas r ∧ SolicitDone gas regs mem x timeslot r := by
  refine charged_post (fun hgas => .same rfl fun _ _ _ hnames => absurd hgas hnames.1)
    fun hgas g => ?_
  rw [post_bind]
  rintro (e | h) hread
  · refine post_ret.mpr ⟨rfl, .same rfl ?_⟩
    rintro _ _ _ ⟨-, bytes, hbytes, -⟩
    rw [hread] at hbytes
    cases hbytes
  · dsimp only
    split
    · exact post_crash
    · next a hown =>
      split
      · next hist =>
        -- any other history under the key is answered with HUH
        refine post_ret.mpr ⟨rfl, .same rfl ?_⟩
        rintro _ a' history ⟨-, bytes, hbytes, rfl⟩ hown'
        rw [hread] at hbytes
        cases hbytes
        rw [hown] at hown'
        cases hown'
        rintro (⟨hkey, -⟩ | ⟨t₀, t₁, hkey, -⟩)
        · rw [hkey] at hist
          cases hist
        · rw [hkey] at hist
          cases hist
      · next history hist =>
        refine post_ret.mpr
          ⟨rfl, .entered a _ history ⟨hgas, h, hread, rfl⟩ hown ?_ rfl rfl ?_⟩
        · split at hist
          · next hkey => exact .inl ⟨hkey, (Option.some.inj hist).symm⟩
          · next t₀ t₁ hkey => exact .inr ⟨t₀, t₁, hkey, (Option.some.inj hist).symm⟩
          · cases hist
        · rw [serviceAccount_setOwn]
          exact get_set_self regs _

theorem forget_post : (forget gas regs mem x timeslot).Post fun r => GasLaw callCost gas r ∧
    (r.x = x ∨ ¬ Failed r ∧ ∃ key a, Names gas regs mem key ∧
      forgetIn x.regularCtx.serviceAccount key timeslot = some a ∧ r.x = setOwn x a) := by
  refine charged_post (fun _ => .inl rfl) fun hgas g => ?_
  rw [post_bind]
  rintro (e | h) hread
  · exact post_ret.mpr ⟨rfl, .inl rfl⟩
  · dsimp only
    split
    · next a hin =>
      exact post_ret.mpr ⟨rfl, .inr ⟨not_failed_of_ok, _, a, ⟨hgas, h, hread, rfl⟩, hin, rfl⟩⟩
    · exact post_ret.mpr ⟨rfl, .inl rfl⟩

theorem yield_post : (yield gas regs mem x).Post fun r => GasLaw callCost gas r ∧
    ContextStep f x r.x ∧ SameReady x r ∧ (Failed r → r.x = x) := by
  refine charged_post (fun _ => ⟨.same, rfl, fun _ => rfl⟩) fun _ g => ?_
  rw [post_bind]
  rintro (e | h) -
  · exact post_ret.mpr ⟨rfl, .same, rfl, fun _ => rfl⟩
  · exact post_ret.mpr ⟨rfl, .fields _ rfl rfl rfl, rfl,
      fun hfailed => absurd hfailed not_failed_of_ok⟩

end

end Strawberry.HostCall
