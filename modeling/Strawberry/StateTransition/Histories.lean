import Strawberry.HostCall.Preimages
import Strawberry.StateTransition.Integration

/-!
# The shape of histories

Each operation keeps a history of at most three times, in order.
-/

namespace Strawberry.StateTransition

open Block Service State HostCall Polkavm Interpreter

structure Shaped (now : Timeslot) (a : ServiceAccount) : Prop extends Chronological now a where
  short : ∀ key history, a.preimageMeta.lookup key = some history → history.length ≤ 3

variable {now later : Timeslot} {a a' : ServiceAccount} {key : PreImageMetaKey}
  {history : List Timeslot}

theorem Shaped.mono (h : Shaped now a) (hle : now ≤ later) : Shaped later a where
  ordered := h.ordered
  past key history hkey time htime := UInt32.le_trans (h.past key history hkey time htime) hle
  short := h.short

theorem short_withHistory (h : Shaped now a) (hlen : history.length ≤ 3)
    (k : PreImageMetaKey) (l : List Timeslot)
    (hl : (withHistory a key history).preimageMeta.lookup k = some l) : l.length ≤ 3 := by
  rcases lookup_withHistory hl with rfl | hold
  · exact hlen
  · exact h.short k l hold

theorem Shaped.forgetIn (h : Shaped now a) (hforget : forgetIn a key now = some a') :
    Shaped now a' where
  toChronological := h.toChronological.forgetIn hforget
  short := by
    rcases forgetIn_eq_some hforget with ⟨rfl, -⟩ | ⟨x, -, rfl⟩ | ⟨x, y, w, -, -, rfl⟩
    · exact fun k l hl => h.short k l (lookup_without hl)
    · exact short_withHistory h (by simp)
    · exact short_withHistory h (by simp)

variable {gas : Gas} {regs : Registers} {mem : Memory} {x : AccumulateContextPair}
  {r : HostResult AccumulateContextPair}

theorem solicit_shaped (h : Shaped now x.regularCtx.serviceAccount)
    (hcall : solicit gas regs mem x now = .ret r) : Shaped now r.x.regularCtx.serviceAccount where
  toChronological := solicit_chronological h.toChronological hcall
  short := by
    rcases solicit_eq_ret hcall with hsame | ⟨key, history, hown, hist⟩
    · rw [hsame]
      exact h.short
    · rw [hown, serviceAccount_setOwn]
      rcases hist with ⟨-, rfl⟩ | ⟨t₀, t₁, -, rfl⟩
      · exact short_withHistory h (by simp)
      · exact short_withHistory h (by simp)

theorem forget_shaped (h : Shaped now x.regularCtx.serviceAccount)
    (hcall : forget gas regs mem x now = .ret r) : Shaped now r.x.regularCtx.serviceAccount := by
  rcases (forget_post r hcall).2 with hsame | ⟨-, key, a', -, hin, hown⟩
  · rw [hsame]
    exact h
  · rw [hown, serviceAccount_setOwn]
    exact h.forgetIn hin

theorem get_A0_set_A1 (regs : Registers) (value : UInt64) :
    (regs.set Reg.A1 value).get Reg.A0 = regs.get Reg.A0 :=
  Vector.getElem_set_ne _ _ (by decide)

theorem queryResult_get (hlen : history.length ≤ 3) :
    ((queryResult regs history).get Reg.A0).toNat =
      history.length + 2 ^ 32 * (history.headD 0).toNat := by
  have hfirst : ∀ (n : UInt64) (t : Timeslot), n.toNat < 2 ^ 32 →
      (n + (t.toUInt64 <<< 32)).toNat = n.toNat + 2 ^ 32 * t.toNat := by
    intro n t hn
    have ht := t.toNat_lt
    rw [UInt64.toNat_add, UInt64.toNat_shiftLeft, UInt32.toNat_toUInt64, Nat.shiftLeft_eq]
    change (n.toNat + t.toNat * 2 ^ 32 % 2 ^ 64) % 2 ^ 64 = _
    omega
  rcases history with _ | ⟨t₀, _ | ⟨t₁, _ | ⟨t₂, _ | ⟨t₃, rest⟩⟩⟩⟩
  · rw [queryResult, get_A0_set_A1, get_set_self]
    rfl
  · rw [queryResult, get_A0_set_A1, get_set_self, hfirst 1 t₀ (by decide)]
    rfl
  · rw [queryResult, get_A0_set_A1, get_set_self, hfirst 2 t₀ (by decide)]
    rfl
  · rw [queryResult, get_A0_set_A1, get_set_self, hfirst 3 t₀ (by decide)]
    rfl
  · simp only [List.length_cons] at hlen
    omega

theorem query_of_names (hkey : Names gas regs mem key)
    (hist : x.regularCtx.serviceAccount.preimageMeta.lookup key = some history) :
    ∃ r, query gas regs mem x = .ret r ∧ r.err = none ∧ r.regs = queryResult regs history := by
  obtain ⟨hgas, bytes, hread, rfl⟩ := hkey
  unfold query charged
  rw [if_neg hgas, hread]
  simp only [ret_bind, hist]
  exact ⟨_, rfl, rfl, rfl⟩

section

variable {H : HashData} {mem : Shared.Memory} {accounts : Shared.Accounts}
  {preimages : List Preimage} {id : ServiceId}

structure OldOrNew (mem : Shared.Memory) (accounts : Shared.Accounts) (now : Timeslot)
    (st : Shared.Memory × Shared.Accounts) : Prop where
  maps : ∀ ref key history, (st.1.metas.view ref).lookup key = some history →
    history = [now] ∨ (mem.metas.view ref).lookup key = some history
  accounts : ∀ id b, st.2.lookup id = some b → ∀ key history,
    (st.1.metas.view b.preimageMeta).lookup key = some history → history = [now] ∨
      ∃ a, accounts.lookup id = some a ∧ (mem.metas.view a.preimageMeta).lookup key = some history

theorem OldOrNew.step {st : Shared.Memory × Shared.Accounts} (h : OldOrNew mem accounts now st)
    (p : Preimage) :
    OldOrNew mem accounts now (Shared.storePreimage H accounts now st p) := by
  by_cases hsolicited : Solicited H (Shared.view st.1 accounts) p
  · obtain ⟨account, hacc, -⟩ := solicited_iff.mp hsolicited
    rw [Shared.lookup_view, Option.map_eq_some_iff] at hacc
    obtain ⟨a, ha, -⟩ := hacc
    rw [Shared.storePreimage_of_solicited hsolicited ha]
    constructor
    · intro ref key history hget
      rcases MapStore.lookup_put hget with hnew | hold
      · exact .inl hnew
      · exact h.maps ref key history hold
    · intro id b hb key history hget
      rcases GoMap.lookup_insert_eq_some.mp hb with ⟨rfl, rfl⟩ | ⟨-, hb⟩
      · rcases MapStore.lookup_put_self hget with hnew | hold
        · exact .inl hnew
        · rcases h.maps _ key history hold with hnew | hold
          · exact .inl hnew
          · exact .inr ⟨a, ha, hold⟩
      · rcases MapStore.lookup_put hget with hnew | hold
        · exact .inl hnew
        · exact h.accounts id b hb key history hold
  · rw [Shared.storePreimage_of_not hsolicited]
    exact h

theorem oldOrNew_run : OldOrNew mem accounts now
    (Shared.calculateIntermediateServiceState H preimages accounts now mem) := by
  refine List.foldlRecOn preimages _ ?_ fun st hst p _ => hst.step p
  exact ⟨fun _ _ _ h => .inr h, fun id b hb key history h => .inr ⟨b, hb, h⟩⟩

theorem integration_shaped {a b : Shared.Account} (h : Shaped now (a.view mem))
    (ha : accounts.lookup id = some a)
    (hb : (Shared.calculateIntermediateServiceState H preimages accounts now mem).2.lookup id =
      some b) :
    Shaped now (b.view
      (Shared.calculateIntermediateServiceState H preimages accounts now mem).1) := by
  have hist : ∀ key history, (b.view (Shared.calculateIntermediateServiceState H preimages
      accounts now mem).1).preimageMeta.lookup key = some history →
      history = [now] ∨ (a.view mem).preimageMeta.lookup key = some history := by
    intro key history hget
    rcases oldOrNew_run.accounts id b hb key history hget with hnew | ⟨a', ha', hold⟩
    · exact .inl hnew
    · rw [ha] at ha'
      obtain rfl := Option.some.inj ha'
      exact .inr hold
  refine ⟨⟨?_, ?_⟩, ?_⟩
  · intro key history hget
    rcases hist key history hget with rfl | hold
    · exact List.pairwise_singleton _ _
    · exact h.ordered key history hold
  · intro key history hget
    rcases hist key history hget with rfl | hold
    · exact List.forall_mem_singleton.mpr (UInt32.le_refl now)
    · exact h.past key history hold
  · intro key history hget
    rcases hist key history hget with rfl | hold
    · simp
    · exact h.short key history hold

end

inductive HistoryStep (H : HashData) (now : Timeslot) :
    ServiceAccount → ServiceAccount → Prop where
  | solicit (gas : Gas) (regs : Registers) (mem : Memory) (x : AccumulateContextPair)
    (r : HostResult AccumulateContextPair) (hcall : solicit gas regs mem x now = .ret r) :
    HistoryStep H now x.regularCtx.serviceAccount r.x.regularCtx.serviceAccount
  | forget (gas : Gas) (regs : Registers) (mem : Memory) (x : AccumulateContextPair)
    (r : HostResult AccumulateContextPair) (hcall : forget gas regs mem x now = .ret r) :
    HistoryStep H now x.regularCtx.serviceAccount r.x.regularCtx.serviceAccount
  | integrate (mem mem' : Shared.Memory) (accounts accounts' : Shared.Accounts)
    (preimages : List Preimage) (id : ServiceId) (a b : Shared.Account)
    (hcall : Shared.calculateIntermediateServiceState H preimages accounts now mem =
      (mem', accounts'))
    (ha : accounts.lookup id = some a) (hb : accounts'.lookup id = some b) :
    HistoryStep H now (a.view mem) (b.view mem')

def LaterStep (H : HashData) (s s' : Timeslot × ServiceAccount) : Prop :=
  s.1 ≤ s'.1 ∧ HistoryStep H s'.1 s.2 s'.2

theorem HistoryStep.shaped {H : HashData} {b : ServiceAccount}
    (hstep : HistoryStep H now a b) (h : Shaped now a) : Shaped now b := by
  cases hstep with
  | solicit gas regs mem x r hcall => exact solicit_shaped h hcall
  | forget gas regs mem x r hcall => exact forget_shaped h hcall
  | integrate mem mem' accounts accounts' preimages id a b hcall ha hb =>
    obtain ⟨rfl, rfl⟩ := Prod.mk.inj hcall
    exact integration_shaped h ha hb

theorem shaped_run {H : HashData} {s s' : Timeslot × ServiceAccount}
    (hrun : Relation.ReflTransGen (LaterStep H) s s') (h : Shaped s.1 s.2) :
    Shaped s'.1 s'.2 := by
  induction hrun with
  | refl => exact h
  | tail _ hstep ih => exact hstep.2.shaped (ih.mono hstep.1)

/-- Histories stay ordered, with three times at most. -/
theorem histories_keep_shape (H : HashData) (now later : Timeslot) (a b : ServiceAccount)
    (hshaped : Shaped now a)
    (hrun : Relation.ReflTransGen (LaterStep H) (now, a) (later, b)) :
    Shaped later b ∧ ∀ (gas : Gas) (regs : Registers) (mem : Memory) (x : AccumulateContextPair)
        (key : PreImageMetaKey) (history : List Timeslot), x.regularCtx.serviceAccount = b →
        Names gas regs mem key → b.preimageMeta.lookup key = some history →
        ∃ r, query gas regs mem x = .ret r ∧ r.err = none ∧
          (r.regs.get Reg.A0).toNat % 2 ^ 32 = history.length ∧
          (r.regs.get Reg.A0).toNat / 2 ^ 32 = (history.headD 0).toNat := by
  have hlater : Shaped later b := shaped_run hrun hshaped
  refine ⟨hlater, ?_⟩
  rintro gas regs mem x key history rfl hkey hist
  have hlen := hlater.short key history hist
  obtain ⟨r, hquery, herr, hregs⟩ := query_of_names hkey hist
  refine ⟨r, hquery, herr, ?_⟩
  rw [hregs, queryResult_get hlen]
  omega

theorem history_of_two_times : ∃ (x : AccumulateContextPair) (r : HostResult AccumulateContextPair),
      Relation.ReflTransGen (LaterStep hashOf)
        (10, (suppliedContext [10]).regularCtx.serviceAccount)
        (100000, x.regularCtx.serviceAccount) ∧
      Shaped 100000 x.regularCtx.serviceAccount ∧
      query 100 (withArgs 0xFEFF0000 1 0 0) memoMemory x = .ret r ∧
      (r.regs.get Reg.A0).toNat % 2 ^ 32 = 2 ∧ (r.regs.get Reg.A0).toNat / 2 ^ 32 = 10 := by
  have hread : memoMemory.read ((withArgs 0xFEFF0000 1 0 0).get Reg.A0) 32 =
      .ret (.ok (List.replicate 32 0)) := by decide +kernel
  have hnames : Names 100 (withArgs 0xFEFF0000 1 0 0) memoMemory ⟨.replicate 32 0, 1⟩ := by
    refine ⟨by decide, _, hread, ?_⟩
    decide +kernel
  have hshaped : Shaped 10 (suppliedContext [10]).regularCtx.serviceAccount := by
    refine ⟨suppliedContext_chronological (inOrder_singleton (by decide)), ?_⟩
    intro key history hkey
    rcases lookup_withHistory hkey with rfl | hold
    · simp
    · cases hold
  have hrun : (fun r => r.x.regularCtx.serviceAccount.preimageMeta.lookup ⟨.replicate 32 0, 1⟩) <$>
      forget 100 (withArgs 0xFEFF0000 1 0 0) memoMemory (suppliedContext [10]) 100000 =
        .ret (some [10, 100000]) := by decide +kernel
  obtain ⟨given, hforget, hist⟩ := map_eq_ret.mp hrun
  have htime : (10 : Timeslot) ≤ 100000 := by decide
  have hstep : LaterStep hashOf (10, (suppliedContext [10]).regularCtx.serviceAccount)
      (100000, given.x.regularCtx.serviceAccount) :=
    ⟨htime, .forget _ _ _ _ _ hforget⟩
  obtain ⟨hend, hqueries⟩ := histories_keep_shape hashOf 10 100000 _ _ hshaped (.single hstep)
  obtain ⟨r, hquery, -, hlen, hfirst⟩ := hqueries 100 (withArgs 0xFEFF0000 1 0 0) memoMemory
    given.x _ _ rfl hnames hist
  exact ⟨given.x, r, .single hstep, hend, hquery, hlen, hfirst⟩

end Strawberry.StateTransition
