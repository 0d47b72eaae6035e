import Strawberry.HostCall.Atomicity

/-!
# Solvency

An account is solvent if its balance covers the threshold that its footprint asks for.
-/

namespace Strawberry.HostCall

open Polkavm Interpreter Service State Constants Reg

def Solvent (a : ServiceAccount) : Prop := a.thresholdBalance ≤ a.balance

def itemCount (a : ServiceAccount) : Nat := 2 * a.preimageLookup.len + a.storage.len

def octetCount (a : ServiceAccount) : Nat :=
  a.preimageLookup.sumBy (fun z => 81 + z.length) + a.storage.sumBy fun x => 32 + x.length

structure Measured (a : ServiceAccount) : Prop where
  items : itemCount a < 2 ^ 32
  threshold : 100 + 10 * itemCount a + octetCount a < 2 ^ 64

variable {a : ServiceAccount}

theorem Measured.toNat_thresholdBalance (h : Measured a) :
    a.thresholdBalance.toNat = 100 + 10 * itemCount a + octetCount a := by
  have hthreshold := h.threshold
  have hitems : a.totalItems.toUInt64.toNat = itemCount a := by
    exact UInt32.toNat_ofNat_of_lt' h.items
  have hfits : octetCount a < 2 ^ 64 := by omega
  have hoctets : a.totalStorageSize.toNat = octetCount a := toNat_ofNat_of_lt hfits
  have hbasic : basicMinimumBalance.toNat = 100 := rfl
  have hper : (additionalMinimumBalancePerItem * a.totalItems.toUInt64).toNat =
      10 * itemCount a := by
    rw [UInt64.toNat_mul, hitems]
    change 10 * itemCount a % 2 ^ 64 = 10 * itemCount a
    exact Nat.mod_eq_of_lt (by omega)
  have hperOctet : (additionalMinimumBalancePerOctet * a.totalStorageSize).toNat =
      octetCount a := by
    rw [UInt64.toNat_mul, hoctets]
    change 1 * octetCount a % 2 ^ 64 = octetCount a
    rw [Nat.one_mul, Nat.mod_eq_of_lt (by omega)]
  have hfirst : (basicMinimumBalance + additionalMinimumBalancePerItem *
      a.totalItems.toUInt64).toNat = 100 + 10 * itemCount a := by
    rw [toNat_add_of_lt (by omega), hper, hbasic]
  rw [ServiceAccount.thresholdBalance, toNat_add_of_lt (by omega), hfirst, hperOctet]

theorem footprint_erase (a : ServiceAccount) (k : Hash) :
    itemCount { a with storage := a.storage.erase k } ≤ itemCount a ∧
      octetCount { a with storage := a.storage.erase k } ≤ octetCount a := by
  have hlen : GoMap.len (a.storage.erase k) ≤ a.storage.len := by
    unfold GoMap.len
    rw [Finmap.keys_erase]
    exact Finset.card_le_card (Finset.erase_subset _ _)
  have hsum : GoMap.sumBy (fun x => 32 + x.length) (a.storage.erase k) ≤
      a.storage.sumBy fun x => 32 + x.length := GoMap.sumBy_erase_le
  unfold itemCount octetCount
  dsimp only
  omega

theorem Measured.erase (h : Measured a) (k : Hash) :
    Measured { a with storage := a.storage.erase k } := by
  obtain ⟨hitems, hoctets⟩ := footprint_erase a k
  have hlow := h.items
  have hthreshold := h.threshold
  exact ⟨by omega, by omega⟩

theorem Solvent.erase (h : Solvent a) (hmeasured : Measured a) (k : Hash) :
    Solvent { a with storage := a.storage.erase k } := by
  obtain ⟨hitems, hoctets⟩ := footprint_erase a k
  unfold Solvent at h ⊢
  rw [UInt64.le_iff_toNat_le, hmeasured.toNat_thresholdBalance] at h
  rw [UInt64.le_iff_toNat_le, (hmeasured.erase k).toNat_thresholdBalance]
  change _ ≤ a.balance.toNat
  omega

theorem mem_of_solvent {x : AccumulateContext} (h : Solvent x.serviceAccount) :
    x.serviceId ∈ x.accumulationState.serviceState := by
  by_contra hnone
  rw [Solvent, AccumulateContext.serviceAccount, GoMap.getD_of_notMem hnone] at h
  exact absurd h (by decide)

variable {gas : Gas} {regs : Registers} {mem : Memory} {x : AccumulateContextPair}
  {timeslot : Timeslot} {H : HashData} {s : ServiceAccount} {serviceId : ServiceId}

theorem new_solvent (h : Solvent x.regularCtx.serviceAccount) :
    (new gas regs mem x).Post fun r => Solvent r.x.regularCtx.serviceAccount := by
  intro r hr
  rcases (new_post r hr).2 with ⟨newId, account, hcreates, -, -, -, hcheck, hx⟩ | ⟨-, -, hx, -⟩
  · -- the new account is another one, since the running service has an account
    have hid : x.regularCtx.serviceId ≠ newId := by
      rintro rfl
      exact checkIndex_notMem hcheck (mem_of_solvent h)
    have hown : r.x.regularCtx.serviceAccount = { x.regularCtx.serviceAccount with
        balance := x.regularCtx.serviceAccount.balance - basicMinimumBalance } := by
      rw [hx]
      exact (GoMap.getD_insert_of_ne hid).trans GoMap.getD_insert
    rw [hown]
    exact hcreates.2.2
  · rw [hx]
    exact h

theorem transfer_solvent (h : Solvent x.regularCtx.serviceAccount) :
    (transfer gas regs mem x).Post fun r => Solvent r.x.regularCtx.serviceAccount := by
  intro r hr
  rcases (transfer_post r hr).2.2 with ⟨t, -, -, -, -, hx⟩ | ⟨-, hx, -⟩
  · rw [hx]
    exact h
  · rw [hx]
    exact h

theorem solicit_solvent (h : Solvent x.regularCtx.serviceAccount) :
    (solicit gas regs mem x timeslot).Post fun r =>
      ¬ Failed r → Solvent r.x.regularCtx.serviceAccount := by
  intro r hr hdone
  cases (solicit_post r hr).2 with
  | same hx _ =>
    rw [hx]
    exact h
  | entered _ _ _ _ _ _ _ _ hcode =>
    split at hcode
    · exact absurd (.inr ⟨.full, by decide, hcode⟩) hdone
    · next hbalance => exact UInt64.not_lt.mp hbalance

theorem writeResult_solvent {k : Hash} (h : a.storage.lookup k = none → Solvent a)
    (hdone : ¬ Failed (writeResult gas regs mem a k)) :
    Solvent (writeResult gas regs mem a k).x := by
  unfold writeResult at hdone ⊢
  split at hdone
  · next hnone => exact h hnone
  · split at hdone
    · exact absurd (failed_of_code (by decide)) hdone
    · next hbalance =>
      rw [if_neg hbalance]
      exact UInt64.not_lt.mp hbalance

theorem write_solvent (h : Solvent s) (hmeasured : regs.get A3 = 0 → Measured s) :
    (write H gas regs mem s serviceId).Post fun r => ¬ Failed r → Solvent r.x := by
  intro r hr hdone
  rcases (write_post r hr).2 with ⟨hx, -⟩ | ⟨keyData, value, -, hvalue, -, heq⟩
  · rw [hx]
    exact h
  · rw [heq] at hdone ⊢
    refine writeResult_solvent (fun hnone => ?_) hdone
    rw [lookup_stored] at hnone
    subst hnone
    exact h.erase (hmeasured hvalue) _

inductive SuccessfulRun (H : HashData) :
    AccumulateContextPair → AccumulateContextPair → Prop where
  | refl (x : AccumulateContextPair) : SuccessfulRun H x x
  | call {x y : AccumulateContextPair} {c : ContextCall} {gas : Gas} {regs : Registers}
    {mem : Memory} {timeslot : Timeslot} {r : HostResult AccumulateContextPair}
    (hrun : SuccessfulRun H x y) (hc : c = .new ∨ c = .transfer ∨ c = .solicit)
    (hcall : c.run gas regs mem y timeslot = .ret r) (hdone : ¬ Failed r) :
    SuccessfulRun H x r.x
  | write {x y : AccumulateContextPair} {gas : Gas} {regs : Registers} {mem : Memory}
    {r : HostResult ServiceAccount} (hrun : SuccessfulRun H x y)
    (hcall : HostCall.write H gas regs mem y.regularCtx.serviceAccount
      y.regularCtx.serviceId = .ret r)
    (hdone : ¬ Failed r)
    (hmeasured : regs.get A3 = 0 → Measured y.regularCtx.serviceAccount) :
    SuccessfulRun H x (setOwn y r.x)

theorem SuccessfulRun.solvent {y : AccumulateContextPair}
    (hrun : SuccessfulRun H x y) (h : Solvent x.regularCtx.serviceAccount) :
    Solvent y.regularCtx.serviceAccount := by
  induction hrun with
  | refl => exact h
  | call _ hc hcall hdone ih =>
    rcases hc with rfl | rfl | rfl
    · exact new_solvent ih _ hcall
    · exact transfer_solvent ih _ hcall
    · exact solicit_solvent ih _ hcall hdone
  | write _ hcall hdone hmeasured ih =>
    rw [serviceAccount_setOwn]
    exact write_solvent ih hmeasured _ hcall hdone

inductive Payment where
  | new
  | transfer

namespace Payment

def run (c : Payment) (gas : Gas) (regs : Registers) (mem : Memory) (x : AccumulateContextPair) :
    AccumulateResult :=
  match c with
  | new => HostCall.new gas regs mem x
  | transfer => HostCall.transfer gas regs mem x

def amount (c : Payment) (regs : Registers) : UInt64 :=
  match c with
  | new => basicMinimumBalance
  | transfer => regs.get A1

end Payment

structure Compared (r : HostResult AccumulateContextPair) : Prop where
  err : r.err = none
  who : r.regs.get A0 ≠ Code.who.toUInt64
  low : r.regs.get A0 ≠ Code.low.toUInt64

theorem sub_lt_exact_iff (balance amount threshold : UInt64) :
    (balance - amount < threshold ↔ (balance.toNat : Int) - amount.toNat < threshold.toNat) ↔
      amount.toNat ≤ balance.toNat ∨ balance.toNat + 2 ^ 64 - amount.toNat < threshold.toNat := by
  have hbalance := balance.toNat_lt
  have hamount := amount.toNat_lt
  rw [UInt64.lt_iff_toNat_lt, UInt64.toNat_sub]
  rcases Nat.lt_or_ge balance.toNat amount.toNat with hlt | hge
  · omega
  · omega

theorem new_cash : (new gas regs mem x).Post fun r => Compared r →
    (r.regs.get A0 = Code.cash.toUInt64 ↔
      x.regularCtx.serviceAccount.balance - basicMinimumBalance <
        x.regularCtx.serviceAccount.thresholdBalance) := by
  intro r hr hcompared
  cases (new_post r hr).2 with
  | created _ _ hcreates hdone =>
    exact iff_of_false (fun hcash => hdone (.inr ⟨.cash, by decide, hcash⟩))
      (UInt64.not_lt.mpr hcreates.2.2)
  | failed _ _ _ hcash => exact iff_of_true (hcash hcompared.err).1 (hcash hcompared.err).2

theorem transfer_cash : (transfer gas regs mem x).Post fun r => Compared r →
    (r.regs.get A0 = Code.cash.toUInt64 ↔ x.regularCtx.serviceAccount.balance - regs.get A1 <
        x.regularCtx.serviceAccount.thresholdBalance) := by
  intro r hr hcompared
  cases (transfer_post r hr).2.2 with
  | sent _ hsends hdone =>
    exact iff_of_false (fun hcash => hdone (.inr ⟨.cash, by decide, hcash⟩)) hsends.2.2.2
  | failed _ _ hcode =>
    rcases hcode hcompared.err with hwho | hlow | ⟨hcash, hlt⟩
    · exact absurd hwho hcompared.who
    · exact absurd hlow hcompared.low
    · exact iff_of_true hcash hlt

theorem payment_cash (c : Payment) : (c.run gas regs mem x).Post fun r => Compared r →
    (r.regs.get A0 = Code.cash.toUInt64 ↔ x.regularCtx.serviceAccount.balance - c.amount regs <
        x.regularCtx.serviceAccount.thresholdBalance) := by
  cases c with
  | new => exact new_cash
  | transfer => exact transfer_cash

/-- When successful calls leave the account its threshold. -/
theorem solvency_iff (H : HashData) :
    (∀ x y, SuccessfulRun H x y → Solvent x.regularCtx.serviceAccount →
      Solvent y.regularCtx.serviceAccount) ∧
    (∀ (c : Payment) (gas : Gas) (regs : Registers) (mem : Memory) (x : AccumulateContextPair)
        (r : HostResult AccumulateContextPair),
      Solvent x.regularCtx.serviceAccount → c.run gas regs mem x = .ret r → Compared r →
        ((r.regs.get A0 = Code.cash.toUInt64 ↔
            (x.regularCtx.serviceAccount.balance.toNat : Int) - (c.amount regs).toNat <
              x.regularCtx.serviceAccount.thresholdBalance.toNat) ↔
          (c.amount regs).toNat ≤ x.regularCtx.serviceAccount.balance.toNat ∨
            x.regularCtx.serviceAccount.balance.toNat + 2 ^ 64 - (c.amount regs).toNat <
              x.regularCtx.serviceAccount.thresholdBalance.toNat)) ∧
    ∀ (a : ServiceAccount) (regs : Registers), Measured a → Solvent a →
      (Payment.new.amount regs).toNat ≤ a.balance.toNat := by
  refine ⟨fun x y hrun h => hrun.solvent h, ?_, ?_⟩
  · intro c gas regs mem x r _ hcall hcompared
    rw [payment_cash c r hcall hcompared]
    exact sub_lt_exact_iff _ _ _
  · intro a regs hmeasured hsolvent
    rw [Solvent, UInt64.le_iff_toNat_le, hmeasured.toNat_thresholdBalance] at hsolvent
    change 100 ≤ a.balance.toNat
    omega

theorem transfer_within_balance :
    ∃ r, Payment.transfer.run 100 (withArgs 2 500 0 0xFEFF0000) memoMemory
        ⟨twoServices, twoServices⟩ = .ret r ∧ Solvent r.x.regularCtx.serviceAccount ∧
      (r.regs.get A0 = Code.cash.toUInt64 ↔ (twoServices.serviceAccount.balance.toNat : Int) - 500 <
          twoServices.serviceAccount.thresholdBalance.toNat) ∧
      (Payment.new.amount (withArgs 0 0 0 0)).toNat ≤ twoServices.serviceAccount.balance.toNat := by
  have hrun : (fun r => (r.regs.get A0, r.err.isNone)) <$>
      Payment.transfer.run 100 (withArgs 2 500 0 0xFEFF0000) memoMemory
        ⟨twoServices, twoServices⟩ = .ret (Code.ok.toUInt64, true) := by decide +kernel
  obtain ⟨r, hr, heq⟩ := map_eq_ret.mp hrun
  rw [Prod.mk.injEq, Option.isNone_iff_eq_none] at heq
  have hsolvent : Solvent twoServices.serviceAccount := by
    unfold Solvent
    decide +kernel
  have hdone : ¬ Failed r := by
    rintro (herr | ⟨code, hcode, hA0⟩)
    · exact herr heq.2
    · rw [heq.1] at hA0
      revert code
      decide
  have hcompared : Compared r :=
    ⟨heq.2, by rw [heq.1]; decide, by rw [heq.1]; decide⟩
  obtain ⟨hkept, hexact, hendowment⟩ := solvency_iff hashOf
  have hstep : SuccessfulRun hashOf ⟨twoServices, twoServices⟩ r.x :=
    @SuccessfulRun.call hashOf _ _ .transfer _ _ _ 0 _ (.refl _) (.inr (.inl rfl)) hr hdone
  have hamount : (Payment.transfer.amount (withArgs 2 500 0 0xFEFF0000)).toNat = 500 := by
    decide +kernel
  have hcash := hexact .transfer 100 (withArgs 2 500 0 0xFEFF0000) memoMemory
    ⟨twoServices, twoServices⟩ r hsolvent hr hcompared
  rw [hamount] at hcash
  refine ⟨r, hr, hkept _ _ hstep hsolvent, hcash.mpr (.inl ?_), ?_⟩
  · decide +kernel
  · refine hendowment _ _ ⟨?_, ?_⟩ hsolvent
    · decide +kernel
    · decide +kernel

theorem transfer_beyond_balance : Solvent twoServices.serviceAccount ∧
      ∃ r, Payment.transfer.run 100 (withArgs 2 2000 0 0xFEFF0000) memoMemory
        ⟨twoServices, twoServices⟩ = .ret r ∧ Compared r ∧
      r.regs.get A0 = Code.ok.toUInt64 ∧
      (twoServices.serviceAccount.balance.toNat : Int) - 2000 <
        twoServices.serviceAccount.thresholdBalance.toNat := by
  have hrun : (fun r => (r.regs.get A0, r.err.isNone)) <$>
      Payment.transfer.run 100 (withArgs 2 2000 0 0xFEFF0000) memoMemory
        ⟨twoServices, twoServices⟩ = .ret (Code.ok.toUInt64, true) := by decide +kernel
  obtain ⟨r, hr, heq⟩ := map_eq_ret.mp hrun
  rw [Prod.mk.injEq, Option.isNone_iff_eq_none] at heq
  refine ⟨?_, r, hr, ⟨heq.2, by rw [heq.1]; decide, by rw [heq.1]; decide⟩, heq.1, ?_⟩
  · unfold Solvent
    decide +kernel
  · decide +kernel

end Strawberry.HostCall
