import Strawberry.HostCall.Balance
import Strawberry.Lib.Entries

/-!
# Failed calls

Most calls look first and change then. `Bless`, `Assign`, `Designate` and `Solicit` do not.
-/

namespace Strawberry.HostCall

open Polkavm Interpreter Service State Constants Reg

inductive ContextCall where
  | bless
  | assign
  | designate
  | new
  | transfer
  | eject
  | solicit
  | forget
  | yield
  deriving DecidableEq

def ContextCall.run (c : ContextCall) (gas : Gas) (regs : Registers) (mem : Memory)
    (x : AccumulateContextPair) (timeslot : Timeslot) : AccumulateResult :=
  match c with
  | bless => HostCall.bless gas regs mem x
  | assign => HostCall.assign gas regs mem x
  | designate => HostCall.designate gas regs mem x
  | new => HostCall.new gas regs mem x
  | transfer => HostCall.transfer gas regs mem x
  | eject => HostCall.eject gas regs mem x timeslot
  | solicit => HostCall.solicit gas regs mem x timeslot
  | forget => HostCall.forget gas regs mem x timeslot
  | yield => HostCall.yield gas regs mem x

def entriesRead (mem : Memory) (addr : UInt64) : Nat → UInt64 → List (ServiceId × UInt64)
  | 0, _ => []
  | n + 1, i =>
    match readNumber mem (addr + 12 * i) 4, readNumber mem (addr + 12 * i + 4) 8 with
    | .ret (.ok serviceId), .ret (.ok serviceGas) =>
      (serviceId.toUInt32, serviceGas) :: entriesRead mem addr n (i + 1)
    | _, _ => []

def valuesRead {α : Type} (mem : Memory) (addr size : UInt64) (decode : List UInt8 → α) :
    Nat → Nat → List α
  | 0, _ => []
  | k + 1, i =>
    match mem.read (addr + size * UInt64.ofNat i) size with
    | .ret (.ok bytes) => decode bytes :: valuesRead mem addr size decode k (i + 1)
    | _ => []

def ContextCall.LeavesNothing (c : ContextCall) (gas : Gas) (regs : Registers) (mem : Memory)
    (x : AccumulateContext) (timeslot : Timeslot) : Prop :=
  match c with
  | bless => gas < callCost ∨
      ∀ id serviceGas, (entriesRead mem (regs.get A3) (regs.get A4).toNat 0).reverse.lookup id =
          some serviceGas →
        x.accumulationState.privilegedServices.amountOfGasPerServiceId.lookup id = some serviceGas
  | assign => gas < callCost ∨
      ∀ queue, x.accumulationState.pendingAuthorizersQueues[(regs.get A0).toNat]? = some queue →
        valuesRead mem (regs.get A1) 32 hashOf pendingAuthorizersQueueSize 0 <+: queue.toList
  | designate => gas < callCost ∨
      valuesRead mem (regs.get A0) 336 decodeValidatorKey numberOfValidators 0 <+:
        x.accumulationState.validatorKeys.toList
  | solicit => ∀ key a history, Names gas regs mem key →
      x.accumulationState.serviceState.lookup x.serviceId = some a →
      Requests a key timeslot history →
      ¬ a.balance < { a with
        preimageMeta := a.preimageMeta.insert key history : ServiceAccount }.thresholdBalance
  | new | transfer | eject | forget | yield => True

variable {mem : Memory} {addr size : UInt64}

theorem blessLoop_eq {n : Nat} {i : UInt64} {g g' : GoMap ServiceId UInt64} {e : Option Err}
    (h : blessLoop mem addr n i g = .ret (e, g')) : g' = g.assign (entriesRead mem addr n i) := by
  induction n generalizing i g with
  | zero =>
    cases h
    rfl
  | succ n ih =>
    rw [blessLoop, bind_eq_ret] at h
    obtain ⟨_ | serviceId, hid, h⟩ := h
    · cases h
      rw [entriesRead, hid]
      rfl
    · rw [bind_eq_ret] at h
      obtain ⟨_ | serviceGas, hgas, h⟩ := h
      · cases h
        rw [entriesRead, hid, hgas]
        rfl
      · rw [entriesRead, hid, hgas]
        exact ih h

variable {α : Type} {decode : List UInt8 → α} {m : Nat}

theorem fillLoop_eq {k i : Nat} {v v' : Vector α m} {e : Option Err} (hk : i + k ≤ m)
    (h : fillLoop mem addr size decode k i v = .ret (e, v')) :
    v'.toList = v.toList.take i ++ valuesRead mem addr size decode k i ++
      v.toList.drop (i + (valuesRead mem addr size decode k i).length) := by
  induction k generalizing i v with
  | zero =>
    cases h
    simp [valuesRead]
  | succ k ih =>
    rw [fillLoop, bind_eq_ret] at h
    obtain ⟨_ | bytes, hread, h⟩ := h
    · cases h
      simp [valuesRead, hread]
    · have hi : i < v.toList.length := by
        rw [Vector.length_toList]
        omega
      have hset : (v.setIfInBounds i (decode bytes)).toList = v.toList.set i (decode bytes) := by
        simp
      have htake : (v.toList.set i (decode bytes)).take (i + 1) =
          v.toList.take i ++ [decode bytes] := by
        rw [List.take_add_one, List.take_set_of_le (Nat.le_refl i), List.getElem?_set_self hi]
        rfl
      rw [ih (by omega) h, hset, htake, List.drop_set_of_lt (by omega), valuesRead, hread]
      simp [Nat.add_assoc, Nat.add_comm 1]

theorem fillLoop_eq_self_iff {v v' : Vector α m} {e : Option Err}
    (h : fillLoop mem addr size decode m 0 v = .ret (e, v')) :
    v' = v ↔ valuesRead mem addr size decode m 0 <+: v.toList := by
  have heq := fillLoop_eq (Nat.le_of_eq (Nat.zero_add m)) h
  rw [List.take_zero, List.nil_append, Nat.zero_add] at heq
  rw [← Vector.toList_inj, heq]
  constructor
  · intro hv
    exact ⟨_, hv⟩
  · rintro ⟨rest, hrest⟩
    rw [← hrest, List.drop_left]

variable {gas : Gas} {regs : Registers} {x : AccumulateContextPair} {timeslot : Timeslot}

theorem bless_failed : (bless gas regs mem x).Post fun r => Failed r →
    (r.x = x ↔ ContextCall.bless.LeavesNothing gas regs mem x.regularCtx timeslot) := by
  refine post_charged (fun h _ => iff_of_true rfl (.inl h)) fun h => ?_
  rw [post_bind]
  rintro ⟨_ | e, g⟩ hloop
  · exact post_ret.mpr fun hfailed => absurd hfailed not_failed_of_ok
  · refine post_ret.mpr fun _ => ?_
    have heq : setPrivileges x { x.regularCtx.accumulationState.privilegedServices with
        amountOfGasPerServiceId := g } = x ↔
        g = x.regularCtx.accumulationState.privilegedServices.amountOfGasPerServiceId := by
      constructor
      · intro hx
        exact congrArg (fun y : AccumulateContextPair =>
          y.regularCtx.accumulationState.privilegedServices.amountOfGasPerServiceId) hx
      · rintro rfl
        rfl
    rw [heq, blessLoop_eq hloop, GoMap.assign_eq_self_iff]
    exact (or_iff_right h).symm

theorem assign_failed : (assign gas regs mem x).Post fun r => Failed r →
    (r.x = x ↔ ContextCall.assign.LeavesNothing gas regs mem x.regularCtx timeslot) := by
  refine post_charged (fun h _ => iff_of_true rfl (.inl h)) fun h => ?_
  dsimp only
  split
  · next hnone =>
    refine post_ret.mpr fun _ => iff_of_true rfl (.inr ?_)
    intro queue hsome
    rw [hnone] at hsome
    cases hsome
  · next queue hsome =>
    rw [post_bind]
    rintro ⟨_ | e, q⟩ hloop
    · exact post_ret.mpr fun hfailed => absurd hfailed not_failed_of_ok
    · refine post_ret.mpr fun _ => ?_
      have heq : setQueues x (x.regularCtx.accumulationState.pendingAuthorizersQueues.setIfInBounds
          (regs.get A0).toNat q) = x ↔ q = queue := by
        obtain ⟨hcore, hget⟩ := Vector.getElem?_eq_some_iff.mp hsome
        constructor
        · intro hx
          have hqueues := congrArg (fun y : AccumulateContextPair =>
            y.regularCtx.accumulationState.pendingAuthorizersQueues[(regs.get A0).toNat]?) hx
          rw [hsome] at hqueues
          simpa [setQueues, hcore] using hqueues
        · rintro rfl
          have hsame : x.regularCtx.accumulationState.pendingAuthorizersQueues.setIfInBounds
              (regs.get A0).toNat q =
              x.regularCtx.accumulationState.pendingAuthorizersQueues := by
            apply Vector.ext
            intro j hj
            rw [Vector.getElem_setIfInBounds]
            split
            · next hj' =>
              subst hj'
              exact hget.symm
            · rfl
          rw [hsame]
          rfl
      rw [heq, fillLoop_eq_self_iff hloop]
      constructor
      · intro hread
        refine .inr fun queue' hsome' => ?_
        rw [hsome, Option.some.injEq] at hsome'
        rwa [← hsome']
      · intro hread
        exact (hread.resolve_left h) queue hsome

theorem designate_failed : (designate gas regs mem x).Post fun r => Failed r → (r.x = x ↔
      ContextCall.designate.LeavesNothing gas regs mem x.regularCtx timeslot) := by
  refine post_charged (fun h _ => iff_of_true rfl (.inl h)) fun h => ?_
  rw [post_bind]
  rintro ⟨_ | e, v⟩ hloop
  · exact post_ret.mpr fun hfailed => absurd hfailed not_failed_of_ok
  · refine post_ret.mpr fun _ => ?_
    have heq : setValidatorKeys x v = x ↔ v = x.regularCtx.accumulationState.validatorKeys := by
      constructor
      · intro hx
        exact congrArg (fun y : AccumulateContextPair =>
          y.regularCtx.accumulationState.validatorKeys) hx
      · rintro rfl
        rfl
    rw [heq, fillLoop_eq_self_iff hloop]
    exact (or_iff_right h).symm

theorem solicit_failed : (solicit gas regs mem x timeslot).Post fun r => Failed r → (r.x = x ↔
      ContextCall.solicit.LeavesNothing gas regs mem x.regularCtx timeslot) := by
  intro r hr hfailed
  cases (solicit_post r hr).2 with
  | same hx hnone =>
    refine iff_of_true hx ?_
    intro key a history hnames hown hist
    exact absurd hist (hnone key a history hnames hown)
  | entered a key history hnames hown hist hx herr hcode =>
    refine iff_of_false ?_ ?_
    · intro hsame
      have hacc := congrArg (fun y : AccumulateContextPair =>
        y.regularCtx.accumulationState.serviceState.lookup x.regularCtx.serviceId)
        (hx.symm.trans hsame)
      dsimp only [setOwn, AccumulateContext.setAccount] at hacc
      rw [Finmap.lookup_insert, hown, Option.some.injEq] at hacc
      have hkey : a.preimageMeta.lookup key = some history := by
        rw [← hacc]
        exact Finmap.lookup_insert _
      rcases hist with ⟨hnone, -⟩ | ⟨t₀, t₁, hpair, rfl⟩
      · rw [hkey] at hnone
        cases hnone
      · rw [hkey] at hpair
        cases hpair
    · intro henough
      -- the balance covers the entry, so the call ended with OK and has not failed
      have hbalance := henough key a history hnames hown hist
      rw [hx, serviceAccount_setOwn, if_neg hbalance] at hcode
      obtain hne | ⟨code, hmem, heq⟩ := hfailed
      · exact absurd herr hne
      · have hlarge := failureCodes_large code hmem
        rw [← heq, hcode] at hlarge
        exact absurd hlarge (by decide)

/-- When a failed call leaves the contexts as they were. -/
theorem failed_calls_change_nothing_iff (c : ContextCall) {gas : Gas} {regs : Registers}
    {mem : Memory} {x : AccumulateContextPair} {timeslot : Timeslot}
    {r : HostResult AccumulateContextPair} (h : c.run gas regs mem x timeslot = .ret r)
    (hfailed : Failed r) :
    r.x = x ↔ c.LeavesNothing gas regs mem x.regularCtx timeslot := by
  cases c with
  | bless => exact bless_failed r h hfailed
  | assign => exact assign_failed r h hfailed
  | designate => exact designate_failed r h hfailed
  | new => exact iff_of_true (new_failed r h hfailed) trivial
  | transfer =>
    refine iff_of_true ?_ trivial
    cases (transfer_post r h).2.2 with
    | sent _ _ hdone => exact absurd hfailed hdone
    | failed _ hx => exact hx
  | eject =>
    refine iff_of_true ?_ trivial
    rcases (eject_post r h).2 with ⟨-, -, hdone, -⟩ | ⟨-, hx⟩
    · exact absurd hfailed hdone
    · exact hx
  | solicit => exact solicit_failed r h hfailed
  | forget =>
    refine iff_of_true ?_ trivial
    rcases (forget_post r h).2 with hx | ⟨hdone, -⟩
    · exact hx
    · exact absurd hfailed hdone
  | yield => exact iff_of_true ((yield_post (f := none) r h).2.2.2 hfailed) trivial

theorem transfer_to_nobody_changes_nothing :
    ∃ r, ContextCall.transfer.run 100 (withArgs 3 0 0 0xFEFF0000) memoMemory
        ⟨twoServices, twoServices⟩ 0 = .ret r ∧ Failed r ∧ r.x = ⟨twoServices, twoServices⟩ := by
  have hrun : (fun r => r.regs.get A0) <$>
      ContextCall.transfer.run 100 (withArgs 3 0 0 0xFEFF0000) memoMemory
        ⟨twoServices, twoServices⟩ 0 = .ret Code.who.toUInt64 := by decide +kernel
  obtain ⟨r, hr, hcode⟩ := map_eq_ret.mp hrun
  have hfailed : Failed r := .inr ⟨.who, by decide, hcode⟩
  exact ⟨r, hr, hfailed, (failed_calls_change_nothing_iff .transfer hr hfailed).mpr trivial⟩

def noBalance : AccumulateContext := { twoServices with serviceId := 2 }

theorem failed_calls_leave_traces :
    (∃ r, ContextCall.solicit.run 100 (withArgs 0xFEFF0000 1 0 0) memoMemory
        ⟨noBalance, noBalance⟩ 0 = .ret r ∧ Failed r ∧ r.x ≠ ⟨noBalance, noBalance⟩) ∧
      ∃ r, ContextCall.bless.run 100 ((withArgs 0 0 0 0xFEFF0000).set A4 11) memoMemory
        ⟨noBalance, noBalance⟩ 0 = .ret r ∧ Failed r ∧ r.x ≠ ⟨noBalance, noBalance⟩ := by
  constructor
  · have hrun : (fun r => (r.regs.get A0,
        r.x.regularCtx.serviceAccount.preimageMeta.lookup ⟨.replicate 32 0, 1⟩)) <$>
        ContextCall.solicit.run 100 (withArgs 0xFEFF0000 1 0 0) memoMemory
          ⟨noBalance, noBalance⟩ 0 = .ret (Code.full.toUInt64, some []) := by decide +kernel
    obtain ⟨r, hr, heq⟩ := map_eq_ret.mp hrun
    rw [Prod.mk.injEq] at heq
    refine ⟨r, hr, .inr ⟨.full, by decide, heq.1⟩, ?_⟩
    intro hx
    rw [hx] at heq
    exact absurd heq.2 (by decide +kernel)
  · have hrun : (fun r => (r.err.isSome,
        r.x.regularCtx.accumulationState.privilegedServices.amountOfGasPerServiceId.lookup 0)) <$>
        ContextCall.bless.run 100 ((withArgs 0 0 0 0xFEFF0000).set A4 11) memoMemory
          ⟨noBalance, noBalance⟩ 0 = .ret (true, some 0) := by decide +kernel
    obtain ⟨r, hr, heq⟩ := map_eq_ret.mp hrun
    rw [Prod.mk.injEq] at heq
    refine ⟨r, hr, .inl (Option.isSome_iff_ne_none.mp heq.1), ?_⟩
    intro hx
    rw [hx] at heq
    exact absurd heq.2 (by decide +kernel)

def EntriesReadable (mem : Memory) (addr : UInt64) (n : Nat) (i : UInt64) : Prop :=
  ∀ k < n, ∃ serviceId serviceGas,
    readNumber mem (addr + 12 * (i + UInt64.ofNat k)) 4 = .ret (.ok serviceId) ∧
      readNumber mem (addr + 12 * (i + UInt64.ofNat k) + 4) 8 = .ret (.ok serviceGas)

variable {n : Nat} {i : UInt64} {g : GoMap ServiceId UInt64}

theorem entriesReadable_succ : EntriesReadable mem addr (n + 1) i ↔
    (∃ serviceId serviceGas, readNumber mem (addr + 12 * i) 4 = .ret (.ok serviceId) ∧
      readNumber mem (addr + 12 * i + 4) 8 = .ret (.ok serviceGas)) ∧
      EntriesReadable mem addr n (i + 1) := by
  have hnext (k : Nat) : i + UInt64.ofNat (k + 1) = i + 1 + UInt64.ofNat k := by
    rw [UInt64.ofNat_add, UInt64.add_comm (UInt64.ofNat k), ← UInt64.add_assoc]
    rfl
  have hfirst : i + UInt64.ofNat 0 = i := UInt64.add_zero i
  unfold EntriesReadable
  rw [Nat.forall_lt_succ_left]
  simp only [hfirst, hnext]

theorem blessLoop_succeeds_iff :
    (∃ g', blessLoop mem addr n i g = .ret (none, g')) ↔ EntriesReadable mem addr n i := by
  induction n generalizing i g with
  | zero => exact iff_of_true ⟨g, rfl⟩ (fun _ hk => absurd hk (Nat.not_lt_zero _))
  | succ n ih =>
    rw [entriesReadable_succ]
    constructor
    · rintro ⟨g', h⟩
      rw [blessLoop, bind_eq_ret] at h
      obtain ⟨_ | serviceId, hid, h⟩ := h
      · cases h
      · rw [bind_eq_ret] at h
        obtain ⟨_ | serviceGas, hgas, h⟩ := h
        · cases h
        · exact ⟨⟨serviceId, serviceGas, hid, hgas⟩, ih.mp ⟨g', h⟩⟩
    · rintro ⟨⟨serviceId, serviceGas, hid, hgas⟩, hrest⟩
      rw [blessLoop, hid, ret_bind]
      dsimp only
      rw [hgas, ret_bind]
      exact ih.mpr hrest

theorem bless_succeeds_iff {r : HostResult AccumulateContextPair} :
    bless gas regs mem x = .ret r ∧ r.err = none ↔
      ¬ gas < callCost ∧ EntriesReadable mem (regs.get A3) (regs.get A4).toNat 0 ∧
      r = ⟨gas - callCost, withCode regs .ok, mem, setPrivileges x
        { managerServiceId := (regs.get A0).toUInt32
          assignServiceId := (regs.get A1).toUInt32
          designateServiceId := (regs.get A2).toUInt32
          amountOfGasPerServiceId :=
            x.regularCtx.accumulationState.privilegedServices.amountOfGasPerServiceId.assign
              (entriesRead mem (regs.get A3) (regs.get A4).toNat 0) }, none⟩ := by
  unfold bless charged
  constructor
  · rintro ⟨hr, herr⟩
    split at hr
    · cases hr
      cases herr
    · next hgas =>
      rw [bind_eq_ret] at hr
      obtain ⟨⟨_ | e, g⟩, hloop, hr⟩ := hr
      · refine ⟨hgas, blessLoop_succeeds_iff.mp ⟨g, hloop⟩, ?_⟩
        rw [← blessLoop_eq hloop]
        cases hr
        rfl
      · cases hr
        cases herr
  · rintro ⟨hgas, hread, rfl⟩
    obtain ⟨g, hloop⟩ := (blessLoop_succeeds_iff
      (g := x.regularCtx.accumulationState.privilegedServices.amountOfGasPerServiceId)).mpr hread
    rw [if_neg hgas, ← blessLoop_eq hloop]
    dsimp only
    rw [hloop]
    exact ⟨rfl, rfl⟩

/-- When Bless installs what it has read. -/
theorem bless_installs_iff (gas : Gas) (regs : Registers) (mem : Memory)
    (x : AccumulateContextPair) :
    ((∃ r, bless gas regs mem x = .ret r ∧ r.err = none) ↔
      ¬ gas < callCost ∧ EntriesReadable mem (regs.get A3) (regs.get A4).toNat 0) ∧
    ∀ r, bless gas regs mem x = .ret r ∧ r.err = none →
      let entries := entriesRead mem (regs.get A3) (regs.get A4).toNat 0
      let p := r.x.regularCtx.accumulationState.privilegedServices
      p.managerServiceId = (regs.get A0).toUInt32 ∧
      p.assignServiceId = (regs.get A1).toUInt32 ∧
      p.designateServiceId = (regs.get A2).toUInt32 ∧
      (p.amountOfGasPerServiceId = GoMap.assign ∅ entries ↔
        ∀ id ∈ x.regularCtx.accumulationState.privilegedServices.amountOfGasPerServiceId,
          id ∈ entries.map Prod.fst) := by
  constructor
  · constructor
    · rintro ⟨r, hr⟩
      obtain ⟨hgas, hread, -⟩ := bless_succeeds_iff.mp hr
      exact ⟨hgas, hread⟩
    · rintro ⟨hgas, hread⟩
      exact ⟨_, bless_succeeds_iff.mpr ⟨hgas, hread, rfl⟩⟩
  · intro r hr
    obtain ⟨-, -, rfl⟩ := bless_succeeds_iff.mp hr
    exact ⟨rfl, rfl, rfl, GoMap.assign_eq_assign_empty_iff⟩

theorem bless_of_nothing_keeps_dictionary :
    ∃ (x : AccumulateContextPair) (r : HostResult AccumulateContextPair),
      bless 10 (withArgs 0 0 0 0) memoMemory x = .ret r ∧ r.err = none ∧
      r.x.regularCtx.accumulationState.privilegedServices.amountOfGasPerServiceId.lookup 1 =
        some 5 ∧
      entriesRead memoMemory 0 0 0 = [] := by
  refine ⟨setPrivileges ⟨noBalance, noBalance⟩ { noBalance.accumulationState.privilegedServices with
      amountOfGasPerServiceId := Finmap.singleton 1 5 }, _, rfl, rfl, ?_, rfl⟩
  exact Finmap.lookup_singleton_eq

def lengthOrNone : Option (List UInt8) → UInt64
  | none => Code.none.toUInt64
  | some v => UInt64.ofNat v.length

def WriteLaw (s : ServiceAccount) (k : Hash) (value : Option (List UInt8))
    (r : HostResult ServiceAccount) : Prop :=
  if s.balance < (stored s k value).thresholdBalance then
    r.regs.get A0 = Code.full.toUInt64 ∧ r.x = s
  else r.regs.get A0 = lengthOrNone (s.storage.lookup k) ∧ r.x = stored s k value

def Indistinct (s : ServiceAccount) (k : Hash) (value : Option (List UInt8)) : Prop :=
  if s.balance < (stored s k value).thresholdBalance then
    value ≠ none ∧ s.storage.lookup k = value
  else (s.storage.lookup k).map List.length = value.map List.length

structure AsksFor (serviceId : ServiceId) (keyData : List UInt8) (gas : Gas) (regs : Registers)
    (mem : Memory) : Prop where
  paid : ¬ gas < callCost
  own : regs.get A0 = self ∨ (regs.get A0).toUInt32 = serviceId
  size : (regs.get A2).toNat ≤ maxAlloc
  key : mem.read (regs.get A1) (regs.get A2) = .ret (.ok keyData)

def answer (gas : Gas) (regs : Registers) (mem : Memory) :
    Option (List UInt8) → Outcome (HostResult Unit)
  | none => .ret ⟨gas, withCode regs .none, mem, (), none⟩
  | some v => do
    match ← writeFromOffset mem (regs.get A3) v (regs.get A4) (regs.get A5) with
    | .error e => return ⟨gas, regs, mem, (), some e⟩
    | .ok mem => return ⟨gas, regs.set A0 (UInt64.ofNat v.length), mem, (), none⟩

variable {H : HashData} {serviceId : ServiceId} {keyData : List UInt8} {gas : Gas}
  {regs : Registers} {mem : Memory}

theorem read_eq (h : AsksFor serviceId keyData gas regs mem) (s : ServiceAccount)
    (services : ServiceState) :
    read H gas regs mem s serviceId services =
      answer (gas - callCost) regs mem (s.storage.lookup (storageKey H serviceId keyData)) := by
  have hss : (if regs.get A0 = self then serviceId else (regs.get A0).toUInt32) =
      serviceId := by
    split
    · rfl
    · next hne => exact h.own.resolve_left hne
  have hsize : makeCheck 1 (regs.get A2).toNat = .ret () :=
    makeCheck_of_le (by rw [Nat.one_mul]; exact h.size)
  unfold read charged
  rw [if_neg h.paid]
  dsimp only
  rw [hss, if_neg (not_not_intro rfl)]
  dsimp only
  rw [hsize, h.key]
  cases hv : s.storage.lookup (storageKey H serviceId keyData) with
  | none | some =>
    simp only [ret_bind, hv]
    rfl

variable {s : ServiceAccount} {k : Hash} {value : Option (List UInt8)}
  {r : HostResult ServiceAccount}

theorem writeResult_stored : writeResult gas regs mem (stored s k value) k =
      if value ≠ none ∧ s.balance < (stored s k value).thresholdBalance then
        ⟨gas, withCode regs .full, mem, stored s k value, none⟩
      else ⟨gas, regs.set A0 (lengthOrNone value), mem, stored s k value, none⟩ := by
  unfold writeResult
  rw [lookup_stored]
  cases value with
  | none =>
    rw [if_neg (fun h => h.1 rfl)]
    rfl
  | some v =>
    dsimp only
    split
    · next h => rw [if_pos ⟨nofun, h⟩]
    · next h =>
      rw [if_neg fun hfull => h hfull.2]
      rfl

theorem stored_eq_self_iff : stored s k value = s ↔ s.storage.lookup k = value := by
  have hstorage : stored s k value = s ↔ (stored s k value).storage = s.storage := by
    constructor
    · intro h
      rw [h]
    · intro h
      calc stored s k value = { s with storage := (stored s k value).storage } := rfl
        _ = s := by rw [h]
  rw [hstorage]
  cases value with
  | none => exact GoMap.erase_eq_self_iff
  | some v => exact GoMap.insert_eq_self_iff

theorem lengthOrNone_eq_iff {p q : Option (List UInt8)} (hp : ∀ v, p = some v → v.length < 2 ^ 63)
    (hq : ∀ v, q = some v → v.length < 2 ^ 63) :
    lengthOrNone p = lengthOrNone q ↔ q.map List.length = p.map List.length := by
  have hnone : Code.none.toUInt64.toNat = 2 ^ 64 - 1 := rfl
  rw [← UInt64.toNat_inj]
  cases p with
  | none =>
    cases q with
    | none => exact iff_of_true rfl rfl
    | some v =>
      have hv := hq v rfl
      refine iff_of_false ?_ nofun
      rw [lengthOrNone, lengthOrNone, hnone, toNat_ofNat_of_lt (by omega)]
      omega
  | some u =>
    have hu := hp u rfl
    cases q with
    | none =>
      refine iff_of_false ?_ nofun
      rw [lengthOrNone, lengthOrNone, hnone, toNat_ofNat_of_lt (by omega)]
      omega
    | some v =>
      have hv := hq v rfl
      rw [lengthOrNone, lengthOrNone, toNat_ofNat_of_lt (by omega), toNat_ofNat_of_lt (by omega),
        Option.map_some, Option.map_some, Option.some.injEq]
      exact eq_comm

theorem writeLaw_iff (hstored : ∀ v, s.storage.lookup k = some v → v.length < 2 ^ 63)
    (hvalue : ∀ v, value = some v → v.length ≤ maxAlloc) :
    WriteLaw s k value (writeResult gas regs mem (stored s k value) k) ↔ Indistinct s k value := by
  have hsmall : ∀ v, value = some v → v.length < 2 ^ 63 :=
    fun v hv => Nat.lt_of_le_of_lt (hvalue v hv) (by decide)
  rw [writeResult_stored]
  unfold WriteLaw Indistinct
  by_cases hfull : s.balance < (stored s k value).thresholdBalance
  · rw [if_pos hfull, if_pos hfull]
    by_cases hnone : value = none
    · rw [if_neg fun h => h.1 hnone]
      refine iff_of_false ?_ fun h => h.1 hnone
      rintro ⟨hcode, -⟩
      rw [get_set_self, hnone] at hcode
      cases hcode
    · rw [if_pos ⟨hnone, hfull⟩, stored_eq_self_iff]
      exact and_congr (iff_of_true (get_set_self regs _) hnone) Iff.rfl
  · rw [if_neg hfull, if_neg hfull, if_neg fun h => hfull h.2, get_set_self,
      and_iff_left rfl, lengthOrNone_eq_iff hsmall hstored]

/-- When Write returns the length of the old value. -/
theorem write_law_iff {H : HashData} {serviceId : ServiceId} {gas : Gas} {regs : Registers}
    {mem : Memory} {s : ServiceAccount} {r : HostResult ServiceAccount}
    (hlen : ∀ k v, s.storage.lookup k = some v → v.length < 2 ^ 63)
    (h : write H gas regs mem s serviceId = .ret r) (herr : r.err = none) :
    ∃ keyData value, mem.read (regs.get A0) (regs.get A1) = .ret (.ok keyData) ∧
      ValueOf regs mem value ∧
      (WriteLaw s (storageKey H serviceId keyData) value r ↔
        Indistinct s (storageKey H serviceId keyData) value) ∧
      (r.regs.get A0 ≠ Code.full.toUInt64 →
        ∀ (a : ServiceAccount) (gas' : Gas) (regs' : Registers) (mem' : Memory)
          (services : ServiceState), a.storage = r.x.storage →
          AsksFor serviceId keyData gas' regs' mem' →
          read H gas' regs' mem' a serviceId services =
            answer (gas' - callCost) regs' mem' value) := by
  rcases (write_post r h).2 with ⟨-, hfailed⟩ | ⟨keyData, value, hkey, hvalue, halloc, heq⟩
  · exact absurd herr hfailed
  · rw [heq]
    refine ⟨keyData, value, hkey, hvalue, writeLaw_iff (hlen _) halloc, ?_⟩
    intro _ a gas' regs' mem' services hstorage hasks
    rw [read_eq hasks, hstorage, writeResult_x, lookup_stored]

def oneEntry : ServiceAccount :=
  { ServiceAccount.zero with
    balance := 1000
    storage := Finmap.singleton (storageKey hashOf 1 [0]) [7] }

theorem overwrite_keeps_law :
    ∃ r, write hashOf 100 (withArgs 0xFEFF0000 1 0xFEFF0000 1) memoMemory oneEntry 1 = .ret r ∧
      WriteLaw oneEntry (storageKey hashOf 1 [0]) (some [0]) r := by
  have hrun : (fun r => r.err.isNone) <$> write hashOf 100 (withArgs 0xFEFF0000 1 0xFEFF0000 1)
      memoMemory oneEntry 1 = .ret true := by decide +kernel
  obtain ⟨r, hr, herr⟩ := map_eq_ret.mp hrun
  have hlen : ∀ k v, oneEntry.storage.lookup k = some v → v.length < 2 ^ 63 := by
    intro k v hv
    by_cases hk : k = storageKey hashOf 1 [0]
    · rw [hk, oneEntry, Finmap.lookup_singleton_eq, Option.some.injEq] at hv
      rw [← hv]
      decide
    · have hmem := Finmap.mem_of_lookup_eq_some hv
      exact absurd ((Finmap.mem_singleton _ _ _).mp hmem) hk
  obtain ⟨keyData, value, hkey, hvalue, hlaw, -⟩ :=
    write_law_iff hlen hr (Option.isNone_iff_eq_none.mp herr)
  have hread : memoMemory.read 0xFEFF0000 1 = .ret (.ok [0]) := by decide +kernel
  obtain rfl : keyData = [0] := by
    have heq := hkey.symm.trans hread
    cases heq
    rfl
  obtain rfl : value = some [0] := by
    cases value with
    | none =>
      unfold ValueOf at hvalue
      exact absurd hvalue (by decide)
    | some v =>
      have heq := hvalue.2.symm.trans hread
      cases heq
      rfl
  refine ⟨r, hr, hlaw.mpr ?_⟩
  unfold Indistinct
  decide +kernel

theorem write_reports_itself :
    (∃ r, write hashOf 100 (withArgs 0xFEFF0000 1 0xFEFF0000 1) memoMemory
        { ServiceAccount.zero with balance := 1000 } 1 = .ret r ∧ r.err = none ∧
      r.regs.get A0 = 1) ∧
    ∃ r, write hashOf 100 (withArgs 0xFEFF0000 1 0xFEFF0000 1) memoMemory .zero 1 = .ret r ∧
      r.regs.get A0 = Code.full.toUInt64 ∧ r.x ≠ .zero := by
  constructor
  · have hrun : (fun r => (r.err.isNone, r.regs.get A0)) <$>
        write hashOf 100 (withArgs 0xFEFF0000 1 0xFEFF0000 1) memoMemory
          { ServiceAccount.zero with balance := 1000 } 1 = .ret (true, 1) := by decide +kernel
    obtain ⟨r, hr, heq⟩ := map_eq_ret.mp hrun
    rw [Prod.mk.injEq, Option.isNone_iff_eq_none] at heq
    exact ⟨r, hr, heq⟩
  · have hrun : (fun r => (r.regs.get A0, r.x.storage.len)) <$>
        write hashOf 100 (withArgs 0xFEFF0000 1 0xFEFF0000 1) memoMemory .zero 1 =
          .ret (Code.full.toUInt64, 1) := by decide +kernel
    obtain ⟨r, hr, heq⟩ := map_eq_ret.mp hrun
    rw [Prod.mk.injEq] at heq
    refine ⟨r, hr, heq.1, ?_⟩
    intro hx
    rw [hx] at heq
    exact absurd heq.2 (by decide)

end Strawberry.HostCall
