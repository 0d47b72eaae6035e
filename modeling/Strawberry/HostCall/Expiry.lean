import Strawberry.HostCall.Preimages

/-!
# When a preimage has expired

`forgetRule` is the rule for `Forget`. The code departs from it for a request that does not exist,
and `timeslot - D` wraps around in the first slots.
-/

namespace Strawberry.HostCall

open Polkavm Interpreter Service State Constants Reg

def Expired (now y : Timeslot) : Prop :=
  y.toNat + preimageExpulsionPeriod.toNat < now.toNat

instance (now y : Timeslot) : Decidable (Expired now y) := inferInstanceAs (Decidable (_ < _))

def NotWrapped (now y : Timeslot) : Prop :=
  preimageExpulsionPeriod.toNat ≤ now.toNat ∨
    now.toNat + 2 ^ 32 - preimageExpulsionPeriod.toNat ≤ y.toNat

def forgetRule (a : ServiceAccount) (key : PreImageMetaKey) (now : Timeslot) :
    Option ServiceAccount :=
  match a.preimageMeta.lookup key with
  | none => none
  | some [] => some (without a key)
  | some [x] => some (withHistory a key [x, now])
  | some [_, y] => if Expired now y then some (without a key) else none
  | some [_, y, w] => if Expired now y then some (withHistory a key [w, now]) else none
  | some _ => none

def FollowsRule (x : AccumulateContextPair) (rule : Option ServiceAccount)
    (r : HostResult AccumulateContextPair) : Prop :=
  r.err = none ∧
    match rule with
    | some a => r.regs.get A0 = Code.ok.toUInt64 ∧ r.x = setOwn x a
    | none => r.regs.get A0 = Code.huh.toUInt64 ∧ r.x = x

structure ReachesHistory (gas : Gas) (regs : Registers) (mem : Memory) (x : AccumulateContext)
    (account : ServiceAccount) (key : PreImageMetaKey) : Prop where
  paid : ¬ gas < callCost
  other : (regs.get A0).toUInt32 ≠ x.serviceId
  found : x.accumulationState.serviceState.lookup (regs.get A0).toUInt32 = some account
  hash : ∃ bytes, mem.read (regs.get A1) 32 = .ret (.ok bytes) ∧ key.hash = hashOf bytes
  length : key.length = UInt32.ofNat (max 81 (account.code.getD []).length - 81)
  owner : account.codeHash.toList = Jam.toLE 32 x.serviceId.toNat
  items : account.totalItems = 2

theorem lt_sub_exact_iff {now y : Timeslot} :
    (y < now - preimageExpulsionPeriod ↔ Expired now y) ↔ NotWrapped now y := by
  have hnow := now.toNat_lt
  have hy := y.toNat_lt
  have hperiod : preimageExpulsionPeriod.toNat = 28800 := rfl
  unfold Expired NotWrapped
  rw [UInt32.lt_iff_toNat_lt, UInt32.toNat_sub, hperiod]
  rcases Nat.lt_or_ge now.toNat 28800 with hearly | hlate
  · have hmod : (2 ^ 32 - 28800 + now.toNat) % 2 ^ 32 = now.toNat + 2 ^ 32 - 28800 := by omega
    omega
  · have hmod : (2 ^ 32 - 28800 + now.toNat) % 2 ^ 32 = now.toNat - 28800 := by omega
    omega

theorem ite_some_eq_iff {α : Type} {p q : Prop} [Decidable p] [Decidable q] {a : α} :
    ((if p then some a else none) = if q then some a else none) ↔ (p ↔ q) := by
  by_cases hp : p <;> by_cases hq : q <;> simp [hp, hq]

variable {a : ServiceAccount} {key : PreImageMetaKey} {now : Timeslot}

theorem forgetIn_of_absent (h : a.preimageMeta.lookup key = none) :
    forgetIn a key now = some (without a key) := by
  unfold forgetIn GoMap.getD
  rw [h]
  rfl

theorem forgetIn_eq_rule_iff : forgetIn a key now = forgetRule a key now ↔
      key ∈ a.preimageMeta ∧ ∀ x y later, a.preimageMeta.lookup key = some (x :: y :: later) →
        later.length ≤ 1 → NotWrapped now y := by
  cases hkey : a.preimageMeta.lookup key with
  | none =>
    have habsent : key ∉ a.preimageMeta := Finmap.lookup_eq_none.mp hkey
    rw [forgetIn_of_absent hkey, forgetRule, hkey]
    exact iff_of_false (by simp) fun h => habsent h.1
  | some history =>
    have hmem : key ∈ a.preimageMeta := Finmap.mem_of_lookup_eq_some hkey
    rw [and_iff_right hmem, forgetRule, hkey, forgetIn, GoMap.getD, hkey, Option.getD_some]
    rcases history with _ | ⟨x, _ | ⟨y, _ | ⟨w, _ | ⟨v, later⟩⟩⟩⟩
    · exact iff_of_true rfl (by simp)
    · exact iff_of_true rfl (by simp)
    · refine (ite_some_eq_iff.trans lt_sub_exact_iff).trans ⟨?_, ?_⟩
      · rintro h _ _ _ ⟨⟩ -
        exact h
      · intro h
        exact h x y [] rfl (by simp)
    · refine (ite_some_eq_iff.trans lt_sub_exact_iff).trans ⟨?_, ?_⟩
      · rintro h _ _ _ ⟨⟩ -
        exact h
      · intro h
        exact h x y [w] rfl (by simp)
    · refine iff_of_true rfl ?_
      rintro _ _ _ ⟨⟩ hlen
      simp at hlen

theorem setOwn_inj {x : AccumulateContextPair} {b : ServiceAccount} (h : setOwn x a = setOwn x b) :
    a = b := by
  rw [← serviceAccount_setOwn x a, h, serviceAccount_setOwn]

theorem followsRule_iff {gas : Gas} {regs : Registers} {mem : Memory} {x : AccumulateContextPair}
    {r : HostResult AccumulateContextPair} (hnames : Names gas regs mem key)
    (hcall : forget gas regs mem x now = .ret r) (rule : Option ServiceAccount) :
    FollowsRule x rule r ↔ forgetIn x.regularCtx.serviceAccount key now = rule := by
  have hne : Code.ok.toUInt64 ≠ Code.huh.toUInt64 := by decide
  rw [forget_eq hnames] at hcall
  unfold FollowsRule
  cases hin : forgetIn x.regularCtx.serviceAccount key now with
  | some a =>
    rw [hin] at hcall
    cases hcall
    rw [and_iff_right rfl]
    cases rule with
    | some b =>
      refine (and_iff_right (get_set_self regs _)).trans ⟨?_, ?_⟩
      · intro hx
        rw [setOwn_inj hx]
      · rintro ⟨⟩
        rfl
    | none =>
      refine iff_of_false ?_ nofun
      rintro ⟨hcode, -⟩
      exact hne ((get_set_self regs _).symm.trans hcode)
  | none =>
    rw [hin] at hcall
    cases hcall
    rw [and_iff_right rfl]
    cases rule with
    | some b =>
      refine iff_of_false ?_ nofun
      rintro ⟨hcode, -⟩
      exact hne (hcode.symm.trans (get_set_self regs _))
    | none => exact iff_of_true ⟨get_set_self regs _, rfl⟩ rfl

variable {gas : Gas} {regs : Registers} {mem : Memory} {x : AccumulateContextPair}
  {account : ServiceAccount} {r : HostResult AccumulateContextPair}

theorem ejectable_ok_iff {y : AccumulateContext} {h : Hash}
    (howner : account.codeHash.toList = Jam.toLE 32 y.serviceId.toNat)
    (hitems : account.totalItems = 2) :
    ejectable y account h now = .ok () ↔ ∃ t₀ t₁, account.preimageMeta.lookup
          ⟨h, UInt32.ofNat (max 81 (account.code.getD []).length - 81)⟩ = some [t₀, t₁] ∧
        t₁ < now - preimageExpulsionPeriod := by
  rw [ejectable, if_neg (not_not_intro howner), if_neg (not_not_intro hitems)]
  dsimp only
  split
  · next t₀ t₁ hkey =>
    constructor
    · intro hok
      split at hok
      · next hlt => exact ⟨t₀, t₁, hkey, hlt⟩
      · cases hok
    · rintro ⟨_, _, hkey', hlt⟩
      rw [hkey, Option.some.injEq] at hkey'
      cases hkey'
      rw [if_pos hlt]
  · next hother =>
    refine iff_of_false nofun ?_
    rintro ⟨t₀, t₁, hkey, -⟩
    exact hother t₀ t₁ hkey

theorem ejectable_error {y : AccumulateContext} {h : Hash} {code : Code}
    (herror : ejectable y account h now = .error code) : code.toUInt64 ≠ Code.ok.toUInt64 := by
  unfold ejectable at herror
  split at herror
  · cases herror
    decide
  · split at herror
    · cases herror
      decide
    · dsimp only at herror
      split at herror
      · split at herror
        · cases herror
        · cases herror
          decide
      · cases herror
        decide

theorem eject_ok_iff (hreaches : ReachesHistory gas regs mem x.regularCtx account key)
    (hcall : eject gas regs mem x now = .ret r) :
    r.regs.get A0 = Code.ok.toUInt64 ↔
      ∃ t y, account.preimageMeta.lookup key = some [t, y] ∧ y < now - preimageExpulsionPeriod := by
  obtain ⟨bytes, hread, hhash⟩ := hreaches.hash
  have hkey : key = ⟨hashOf bytes, UInt32.ofNat (max 81 (account.code.getD []).length - 81)⟩ := by
    rw [← hhash, ← hreaches.length]
  rw [hkey, ← ejectable_ok_iff hreaches.owner hreaches.items]
  unfold eject charged at hcall
  rw [if_neg hreaches.paid, hread] at hcall
  simp only [ret_bind, if_neg hreaches.other, hreaches.found] at hcall
  cases hej : ejectable x.regularCtx account (hashOf bytes) now with
  | error code =>
    rw [hej] at hcall
    cases hcall
    refine iff_of_false ?_ nofun
    intro hcode
    exact ejectable_error hej ((get_set_self regs _).symm.trans hcode)
  | ok =>
    rw [hej] at hcall
    cases hcall
    exact iff_of_true (get_set_self regs _) rfl

/-- When Forget and Eject follow the rule. -/
theorem expiry_rule_iff {gas : Gas} {regs : Registers} {mem : Memory} {x : AccumulateContextPair}
    {now : Timeslot} {key : PreImageMetaKey} {r : HostResult AccumulateContextPair} :
    (Names gas regs mem key → forget gas regs mem x now = .ret r →
        (FollowsRule x (forgetRule x.regularCtx.serviceAccount key now) r ↔
          key ∈ x.regularCtx.serviceAccount.preimageMeta ∧ ∀ t y later,
              x.regularCtx.serviceAccount.preimageMeta.lookup key = some (t :: y :: later) →
              later.length ≤ 1 → NotWrapped now y)) ∧
    ∀ {account : ServiceAccount},
      ReachesHistory gas regs mem x.regularCtx account key → eject gas regs mem x now = .ret r →
        ((r.regs.get A0 = Code.ok.toUInt64 ↔
            ∃ t y, account.preimageMeta.lookup key = some [t, y] ∧ Expired now y) ↔
          ∀ t y, account.preimageMeta.lookup key = some [t, y] → NotWrapped now y) := by
  refine ⟨?_, ?_⟩
  · intro hnames hcall
    rw [followsRule_iff hnames hcall, forgetIn_eq_rule_iff]
  · intro account hreaches hcall
    rw [eject_ok_iff hreaches hcall]
    constructor
    · intro hsame t y hkey
      rw [← lt_sub_exact_iff]
      have hiff : ∀ P : Timeslot → Prop,
          (∃ t' y', account.preimageMeta.lookup key = some [t', y'] ∧ P y') ↔ P y := by
        intro P
        constructor
        · rintro ⟨t', y', hkey', hP⟩
          rw [hkey] at hkey'
          cases hkey'
          exact hP
        · exact fun hP => ⟨t, y, hkey, hP⟩
      rwa [hiff (· < now - preimageExpulsionPeriod), hiff (Expired now)] at hsame
    · intro hexact
      constructor
      · rintro ⟨t, y, hkey, hlt⟩
        exact ⟨t, y, hkey, (lt_sub_exact_iff.mpr (hexact t y hkey)).mp hlt⟩
      · rintro ⟨t, y, hkey, hexpired⟩
        exact ⟨t, y, hkey, (lt_sub_exact_iff.mpr (hexact t y hkey)).mpr hexpired⟩

def leftAccount : ServiceAccount :=
  withHistory { ServiceAccount.zero with
      preimageLookup := Finmap.singleton (.replicate 32 0) [7]
      codeHash := toArray 32 (Jam.toLE 32 1) }
    ⟨.replicate 32 0, 0⟩ [10, 50]

def besideLeft : AccumulateContextPair :=
  let x := { twoServices with
    accumulationState.serviceState :=
      twoServices.accumulationState.serviceState.insert 2 leftAccount }
  ⟨x, x⟩

theorem forget_and_eject_expired :
    (∃ r, forget 100 (withArgs 0xFEFF0000 1 0 0) memoMemory (suppliedContext [10, 50]) 100000 =
        .ret r ∧ r.x = setOwn (suppliedContext [10, 50])
          (without (suppliedAccount [10, 50]) ⟨.replicate 32 0, 1⟩)) ∧
    ∃ r, eject 100 (withArgs 2 0xFEFF0000 0 0) memoMemory besideLeft 100000 = .ret r ∧
      r.regs.get A0 = Code.ok.toUInt64 := by
  have hread : memoMemory.read 0xFEFF0000 32 = .ret (.ok (.replicate 32 0)) := by decide +kernel
  constructor
  · have hnames : Names 100 (withArgs 0xFEFF0000 1 0 0) memoMemory ⟨.replicate 32 0, 1⟩ := by
      refine ⟨by decide, _, hread, ?_⟩
      decide +kernel
    have hrule : forgetRule (suppliedContext [10, 50]).regularCtx.serviceAccount
        ⟨.replicate 32 0, 1⟩ 100000 =
        some (without (suppliedAccount [10, 50]) ⟨.replicate 32 0, 1⟩) := by
      decide +kernel
    obtain ⟨r, hcall⟩ : (forget 100 (withArgs 0xFEFF0000 1 0 0) memoMemory
        (suppliedContext [10, 50]) 100000).Returns := by decide +kernel
    have hfollows := (expiry_rule_iff.1 hnames hcall).mpr
      ⟨by decide +kernel, fun _ _ _ _ _ => .inl (by decide)⟩
    rw [hrule] at hfollows
    exact ⟨r, hcall, hfollows.2.2⟩
  · have hreaches : ReachesHistory 100 (withArgs 2 0xFEFF0000 0 0) memoMemory
        besideLeft.regularCtx leftAccount ⟨.replicate 32 0, 0⟩ :=
      { paid := by decide
        other := by decide
        found := by decide +kernel
        hash := ⟨_, hread, by decide +kernel⟩
        length := by decide +kernel
        owner := by decide +kernel
        items := by decide +kernel }
    obtain ⟨r, hcall⟩ : (eject 100 (withArgs 2 0xFEFF0000 0 0) memoMemory besideLeft
        100000).Returns := by decide +kernel
    refine ⟨r, hcall, ?_⟩
    have haccepts := (expiry_rule_iff.2 hreaches hcall).mpr fun _ _ _ => .inl (by decide)
    exact haccepts.mpr ⟨10, 50, by decide +kernel, by decide⟩

theorem forget_breaks_rule :
    (∃ r, forget 100 (withArgs 0xFEFF0000 2 0 0) memoMemory (suppliedContext [10]) 100000 =
        .ret r ∧ r.regs.get A0 = Code.ok.toUInt64 ∧
      ⟨.replicate 32 0, 2⟩ ∉ (suppliedContext [10]).regularCtx.serviceAccount.preimageMeta ∧
      r.x.regularCtx.serviceAccount.preimageLookup.lookup (.replicate 32 0) = none) ∧
    ∃ r, forget 100 (withArgs 0xFEFF0000 1 0 0) memoMemory (suppliedContext [10, 50]) 100 =
        .ret r ∧ ¬ Expired 100 50 ∧
      r.x.regularCtx.serviceAccount.preimageLookup.lookup (.replicate 32 0) = none := by
  constructor
  · have hrun : (fun r => (r.regs.get A0,
        r.x.regularCtx.serviceAccount.preimageLookup.lookup (.replicate 32 0))) <$>
        forget 100 (withArgs 0xFEFF0000 2 0 0) memoMemory (suppliedContext [10]) 100000 =
          .ret (Code.ok.toUInt64, none) := by decide +kernel
    obtain ⟨r, hr, heq⟩ := map_eq_ret.mp hrun
    rw [Prod.mk.injEq] at heq
    exact ⟨r, hr, heq.1, by decide +kernel, heq.2⟩
  · have hrun : (fun r =>
        r.x.regularCtx.serviceAccount.preimageLookup.lookup (.replicate 32 0)) <$>
        forget 100 (withArgs 0xFEFF0000 1 0 0) memoMemory (suppliedContext [10, 50]) 100 =
          .ret none := by decide +kernel
    obtain ⟨r, hr, hnone⟩ := map_eq_ret.mp hrun
    exact ⟨r, hr, by decide, hnone⟩

end Strawberry.HostCall
