import Strawberry.HostCall.Contexts
import Strawberry.HostCall.Refine
import Strawberry.Polkavm.Store

/-!
# The memory of inner machines

The loops of `Zero` and `Void` are sweeps: a call that fails half way has erased pages.
-/

namespace Strawberry.HostCall

open Polkavm Interpreter Memory Finmap Reg

section

variable {u u' : Memory} {q n : Nat}

theorem clearPage_cases (hs : u.Sliced) (hq : q < 2 ^ 20) :
    (∃ e, clearPage u (UInt64.ofNat q) = .ret (.error e)) ∨
      ∃ u', clearPage u (UInt64.ofNat q) = .ret (.ok u') ∧ SameLayout u u' ∧
        Erased (u.OnPage q) u u' := by
  have hsize : pageSize.toNat = 4096 := rfl
  have hlow :
      (pageStart q).toNat + (List.replicate pageSize.toNat (0 : UInt8)).length ≤ 2 ^ 63 := by
    rw [toNat_pageStart hq, List.length_replicate, hsize]
    omega
  have heq : clearPage u (UInt64.ofNat q) =
      .ret (u.writeRange (pageStart q) (List.replicate pageSize.toNat 0)) := write_eq hs hlow
  rw [heq]
  cases hwrite : u.writeRange (pageStart q) (List.replicate pageSize.toNat 0) with
  | error e => exact .inl ⟨e, rfl⟩
  | ok u' => exact .inr ⟨u', rfl, erased_of_write hs hq (heq.trans (congrArg _ hwrite))⟩

theorem setAccess_eq_ok {page : UInt64} {access : MemoryAccess}
    (h : u.setAccess page access = .ok u') :
    ∃ r, u.containing (page * pageSize) = some r ∧
      u' = u.setSegment { u.segment r with access := access } r := by
  unfold setAccess at h
  split at h
  · next r hr => exact ⟨r, hr, (Except.ok.inj h).symm⟩
  · cases h

theorem samePlaces_setAccess {page : UInt64} {access : MemoryAccess}
    (h : u.setAccess page access = .ok u') : SamePlaces u u' ∧ SameOctets u u' := by
  obtain ⟨r, -, rfl⟩ := setAccess_eq_ok h
  refine ⟨⟨fun r' => ?_, fun r' => ?_⟩, fun r' => ?_⟩
  all_goals
    rw [segment_setSegment]
    split
    · next heq => rw [heq]
    · rfl

def zeroStep (pageIndex : UInt64) (u : Memory) : Outcome (Memory × Option Err) :=
  match u.setAccess pageIndex .readWrite with
  | .error e => .ret (u, some e)
  | .ok u => do
    match ← clearPage u pageIndex with
    | .error e => return (u, some e)
    | .ok u => return (u, none)

def voidStep (pageIndex : UInt64) (u : Memory) : Outcome (Memory × Option (Option Err)) :=
  if u.getAccess pageIndex = .inaccessible then .ret (u, some none)
  else do
    match ← clearPage u pageIndex with
    | .error e => return (u, some (some e))
    | .ok u => return (u, none)

def voidEnd : Option (Option Err) → VoidEnd
  | none => .done
  | some none => .huh
  | some (some e) => .err e

theorem zeroLoop_eq_sweep (n : Nat) (pageIndex : UInt64) (u : Memory) :
    zeroLoop n pageIndex u = sweep zeroStep n pageIndex u := by
  induction n generalizing pageIndex u with
  | zero => rfl
  | succ n ih =>
    rw [zeroLoop, sweep, zeroStep]
    cases u.setAccess pageIndex .readWrite with
    | error e => rfl
    | ok u =>
      cases hclear : clearPage u pageIndex with
      | crash c => simp only [hclear, crash_bind]
      | hang => simp only [hclear, hang_bind]
      | ret res =>
        simp only [hclear, ret_bind]
        cases res with
        | error e => rfl
        | ok u => exact ih _ u

theorem voidLoop_eq_sweep (n : Nat) (pageIndex : UInt64) (u : Memory) : voidLoop n pageIndex u =
      (fun res => (res.1, voidEnd res.2)) <$> sweep voidStep n pageIndex u := by
  induction n generalizing pageIndex u with
  | zero => rfl
  | succ n ih =>
    rw [voidLoop, sweep, voidStep]
    by_cases hacc : u.getAccess pageIndex = .inaccessible
    · rw [if_pos hacc, if_pos hacc]
      rfl
    · rw [if_neg hacc, if_neg hacc]
      cases hclear : clearPage u pageIndex with
      | crash | hang => rfl
      | ret res =>
        cases res with
        | error e => rfl
        | ok u => exact ih _ u

theorem voidLoop_done_iff {pageIndex : UInt64} :
    voidLoop n pageIndex u = .ret (u', .done) ↔ sweep voidStep n pageIndex u = .ret (u', none) := by
  rw [voidLoop_eq_sweep, map_eq_ret]
  constructor
  · rintro ⟨⟨v, e⟩, hrun, heq⟩
    rcases e with _ | _ | e
    · cases heq
      exact hrun
    · cases heq
    · cases heq
  · intro hrun
    exact ⟨_, hrun, rfl⟩

theorem zeroStep_clearsPage : ClearsPage zeroStep := by
  intro q u hs _ hq
  unfold zeroStep
  cases hset : u.setAccess (UInt64.ofNat q) .readWrite with
  | error e => exact ⟨u, some e, rfl, .refl u, by simp, fun _ _ => rfl⟩
  | ok u₁ =>
    obtain ⟨hplaces, hsame⟩ := samePlaces_setAccess hset
    rcases clearPage_cases (hplaces.sliced hs) hq with ⟨e, heq⟩ | ⟨u₂, heq, hlayout, herased⟩
    · exact ⟨u₁, some e, by simp only [heq]; rfl, hplaces, by simp, fun _ => hsame⟩
    · refine ⟨u₂, none, by simp only [heq]; rfl, hplaces.trans hlayout.toSamePlaces, fun _ => ?_,
        by simp⟩
      refine ((Erased.of_sameOctets hplaces hsame).trans herased).congr fun r a => ?_
      rw [false_or, hplaces.onPage_iff]

theorem voidStep_cases (hs : u.Sliced) (hq : q < 2 ^ 20) :
    ∃ u' e, voidStep (UInt64.ofNat q) u = .ret (u', e) ∧ SameLayout u u' ∧
      (e = none → Erased (u.OnPage q) u u' ∧ u.getAccess (UInt64.ofNat q) ≠ .inaccessible) ∧
      (e ≠ none → SameOctets u u') := by
  unfold voidStep
  by_cases hacc : u.getAccess (UInt64.ofNat q) = .inaccessible
  · rw [if_pos hacc]
    exact ⟨u, some none, rfl, .refl u, by simp, fun _ _ => rfl⟩
  · rw [if_neg hacc]
    rcases clearPage_cases hs hq with ⟨e, heq⟩ | ⟨u', heq, hlayout, herased⟩
    · exact ⟨u, some (some e), by simp only [heq]; rfl, .refl u, by simp, fun _ _ => rfl⟩
    · exact ⟨u', none, by simp only [heq]; rfl, hlayout, fun _ => ⟨herased, hacc⟩, by simp⟩

theorem voidStep_clearsPage : ClearsPage voidStep := by
  intro q u hs _ hq
  obtain ⟨u', e, heq, hlayout, hdone, hend⟩ := voidStep_cases hs hq
  exact ⟨u', e, heq, hlayout.toSamePlaces, fun he => (hdone he).1, hend⟩

theorem sweep_voidStep_done (hs : u.Sliced) (hhi : n = 0 ∨ q + n ≤ 2 ^ 20)
    (h : sweep voidStep n (UInt64.ofNat q) u = .ret (u', none)) :
    SameLayout u u' ∧ ∀ j, q ≤ j → j < q + n → u.getAccess (UInt64.ofNat j) ≠ .inaccessible := by
  induction n generalizing q u with
  | zero =>
    cases h
    exact ⟨.refl _, fun j hlo hup => by omega⟩
  | succ n ih =>
    obtain ⟨u₁, e, heq, hlayout, hdone, -⟩ := voidStep_cases hs (show q < 2 ^ 20 by omega)
    rw [sweep, heq] at h
    cases e with
    | some e => cases h
    | none =>
      have hnext : UInt64.ofNat q + 1 = UInt64.ofNat (q + 1) := by rw [UInt64.ofNat_add]; rfl
      simp only [ret_bind, hnext] at h
      obtain ⟨hlayout', hacc⟩ := ih (hlayout.toSamePlaces.sliced hs) (by omega) h
      refine ⟨hlayout.trans hlayout', fun j hlo hup => ?_⟩
      rcases Nat.eq_or_lt_of_le hlo with rfl | hlt
      · exact (hdone rfl).2
      · rw [← hlayout.getAccess]
        exact hacc j hlt (by omega)

structure Revoked (P : Region → Prop) (u u' : Memory) : Prop where
  places : SamePlaces u u'
  octets : SameOctets u u'
  inside : ∀ r, P r → (u'.segment r).access = .inaccessible
  outside : ∀ r, ¬ P r → (u'.segment r).access = (u.segment r).access

def Met (u : Memory) (q n : Nat) (r : Region) : Prop :=
  ∃ j, q ≤ j ∧ j < q + n ∧ u.containing (pageStart j) = some r

theorem revokeLoop_done (hin : ∀ j, q ≤ j → j < q + n → u.containing (pageStart j) ≠ none) :
    ∃ u', revokeLoop n (UInt64.ofNat q) u = (u', none) ∧ Revoked (Met u q n) u u' := by
  induction n generalizing q u with
  | zero =>
    refine ⟨u, rfl, .refl u, fun _ => rfl, ?_, fun _ _ => rfl⟩
    rintro r ⟨j, hlo, hup, -⟩
    omega
  | succ n ih =>
    obtain ⟨r₀, hr₀⟩ := Option.ne_none_iff_exists'.mp (hin q (Nat.le_refl q) (by omega))
    have hset : u.setAccess (UInt64.ofNat q) .inaccessible =
        .ok (u.setSegment { u.segment r₀ with access := .inaccessible } r₀) := by
      simp only [pageStart] at hr₀
      rw [setAccess, hr₀]
    obtain ⟨hplaces, hsame⟩ := samePlaces_setAccess hset
    have hnext : UInt64.ofNat q + 1 = UInt64.ofNat (q + 1) := by rw [UInt64.ofNat_add]; rfl
    obtain ⟨u', hrun, hrest⟩ := ih (q := q + 1) (fun j hlo hup => by
      rw [hplaces.containing]
      exact hin j (by omega) (by omega))
    refine ⟨u', by rw [revokeLoop, hset]; exact hnext ▸ hrun, hplaces.trans hrest.places,
      fun r => (hrest.octets r).trans (hsame r), ?_, ?_⟩
    · rintro r ⟨j, hlo, hup, hj⟩
      by_cases hmet :
          Met (u.setSegment { u.segment r₀ with access := .inaccessible } r₀) (q + 1) n r
      · exact hrest.inside r hmet
      have hfirst : r = r₀ := by
        rcases Nat.eq_or_lt_of_le hlo with rfl | hlt
        · exact Option.some.inj (hj.symm.trans hr₀)
        · exact absurd ⟨j, hlt, by omega, (hplaces.containing _).trans hj⟩ hmet
      rw [hrest.outside r hmet, segment_setSegment, if_pos hfirst]
    · intro r hr
      rw [hrest.outside r, segment_setSegment, if_neg]
      · rintro rfl
        exact hr ⟨q, Nat.le_refl q, by omega, hr₀⟩
      · rintro ⟨j, hlo, hup, hj⟩
        exact hr ⟨j, by omega, by omega, (hplaces.containing _).symm.trans hj⟩

end

section

variable {gas : Gas} {regs : Registers} {mem : Memory} {ctxPair : RefineContextPair}
  {u : IntegratedPVM} {p c : UInt64} {m m' : Memory}

def Rejected (r : HostResult RefineContextPair) : Prop :=
  r.err ≠ none ∨ r.regs.get A0 ≠ Code.ok.toUInt64

theorem not_rejected : ¬ Rejected ⟨gas, withCode regs .ok, mem, ctxPair, none⟩ := by
  rintro (herr | hcode)
  · exact herr rfl
  · exact hcode (get_set_self ..)

def ZeroSpoils (p c : UInt64) (m : Memory) : Prop :=
  ∃ j < pageCount p c, (∃ v, zeroLoop (j + 1) p m = .ret (v, none)) ∧ ¬ m.Blank (p.toNat + j)

def VoidSpoils (p c : UInt64) (m : Memory) : Prop :=
  ∃ j < pageCount p c, (∃ v, voidLoop (j + 1) p m = .ret (v, .done)) ∧ ¬ m.Blank (p.toNat + j)

theorem range_of_not_bad (h : badPages p c = false) : 16 ≤ p.toNat ∧ (p + c).toNat < 2 ^ 20 ∧
      (pageCount p c = 0 ∨ p.toNat + pageCount p c ≤ 2 ^ 20) := by
  simp only [badPages, Bool.or_eq_false_iff, decide_eq_false_iff_not, UInt64.le_iff_toNat_le,
    UInt64.lt_iff_toNat_lt] at h
  have hmax : maxPageIndex.toNat = 2 ^ 20 := rfl
  have hsixteen : (16 : UInt64).toNat = 16 := rfl
  unfold pageCount
  omega

theorem withDataOf_eq_iff : withDataOf m m' = m ↔ SameOctets m m' := by
  constructor
  · intro h r
    have hr := congrArg (fun m => (m.segment r).data) h
    cases r <;> exact hr
  · intro h
    have hro := h .ro
    have hrw := h .rw
    have hstack := h .stack
    have hargs := h .args
    simp only [Memory.segment] at hro hrw hstack hargs
    rw [withDataOf, hro, hrw, hstack, hargs]

theorem setMachine_of_lookup {n : UInt64} (hu : ctxPair.machines.lookup n = some u)
    (v : IntegratedPVM) :
    ∃ x, ctxPair.setMachine n v = .ret x ∧ x.machines.lookup n = some v := by
  cases hmap : ctxPair.integratedPVMMap with
  | none =>
    rw [RefineContextPair.machines, hmap] at hu
    cases hu
  | some machines =>
    refine ⟨{ ctxPair with integratedPVMMap := some (machines.insert n v) }, ?_, ?_⟩
    · rw [RefineContextPair.setMachine, hmap]
    · exact lookup_insert _

theorem lookup_kept_iff {ram : Memory} :
    some { u with ram := withDataOf u.ram ram } = some u ↔ SameOctets u.ram ram := by
  rw [← withDataOf_eq_iff, Option.some.injEq]
  constructor
  · intro h
    exact congrArg IntegratedPVM.ram h
  · intro h
    rw [h]

structure VoidRight (p c : UInt64) (m m' : Memory) : Prop where
  revoked : ∀ q < 2 ^ 20, p.toNat ≤ q → q < p.toNat + c.toNat →
    m'.getAccess (UInt64.ofNat q) = .inaccessible
  access : ∀ q < 2 ^ 20, ¬ (p.toNat ≤ q ∧ q < p.toNat + c.toNat) →
    m'.getAccess (UInt64.ofNat q) = m.getAccess (UInt64.ofNat q)
  octets : ∀ r i, ¬ (p.toNat * 4096 ≤ (m.segment r).address.toNat + i ∧
      (m.segment r).address.toNat + i < (p.toNat + c.toNat) * 4096) →
    (m'.segment r).data[i]? = (m.segment r).data[i]?

def VoidFits (p c : UInt64) (m : Memory) : Prop :=
  if 2 ^ 64 ≤ p.toNat + c.toNat then
    ∀ q < 2 ^ 20, p.toNat ≤ q → m.getAccess (UInt64.ofNat q) = .inaccessible
  else ∀ q < 2 ^ 20, ¬ (p.toNat ≤ q ∧ q < p.toNat + c.toNat) →
    ∀ j, p.toNat ≤ j → j < p.toNat + c.toNat →
      m.containing (pageStart q) ≠ m.containing (pageStart j)

theorem found_of_accessible {j : Nat} (h : m.getAccess (UInt64.ofNat j) ≠ .inaccessible) :
    ∃ r, m.containing (pageStart j) = some r := by
  rw [← Option.ne_none_iff_exists']
  intro hnone
  simp only [pageStart] at hnone
  rw [getAccess, hnone] at h
  exact h rfl

theorem voidRight_of_wrap (h : 2 ^ 64 ≤ p.toNat + c.toNat) :
    VoidRight p c m m ↔ VoidFits p c m := by
  rw [VoidFits, if_pos h]
  constructor
  · intro hright q hq hlo
    exact hright.revoked q hq hlo (by omega)
  · intro hfits
    exact ⟨fun q hq hlo _ => hfits q hq hlo, fun _ _ _ => rfl, fun _ _ _ => rfl⟩

theorem voidRight_iff {ram : Memory} (h : p.toNat + c.toNat < 2 ^ 20)
    (hacc : ∀ j, p.toNat ≤ j → j < p.toNat + c.toNat → m.getAccess (UInt64.ofNat j) ≠ .inaccessible)
    (hlayout : SameLayout m m') (herased : Erased (m.OnPages p.toNat c.toNat) m m')
    (hrevoked : Revoked (Met m' p.toNat c.toNat) m' ram) :
    VoidRight p c m ram ↔ VoidFits p c m := by
  have hplaces := hlayout.toSamePlaces.trans hrevoked.places
  have hget (q : Nat) {r : Region} (hr : m.containing (pageStart q) = some r) :
      ram.getAccess (UInt64.ofNat q) = (ram.segment r).access ∧
        m.getAccess (UInt64.ofNat q) = (m.segment r).access := by
    simp only [pageStart] at hr
    simp only [getAccess, hplaces.containing, hr, and_self]
  have hfound (j : Nat) (hlo : p.toNat ≤ j) (hup : j < p.toNat + c.toNat) :
      ∃ r, m.containing (pageStart j) = some r ∧ Met m' p.toNat c.toNat r := by
    obtain ⟨r, hr⟩ := found_of_accessible (hacc j hlo hup)
    exact ⟨r, hr, j, hlo, hup, (hlayout.containing _).trans hr⟩
  rw [VoidFits, if_neg (by omega)]
  constructor
  · intro hright q hq hout j hlo hup heq
    obtain ⟨r, hr, hmet⟩ := hfound j hlo hup
    have hkept := hright.access q hq hout
    rw [(hget q (heq.trans hr)).1, (hget q (heq.trans hr)).2, hrevoked.inside r hmet,
      ← (hget j hr).2] at hkept
    exact hacc j hlo hup hkept.symm
  · refine fun hfits => ⟨fun q _ hlo hup => ?_, fun q hq hout => ?_, fun r i hout => ?_⟩
    · obtain ⟨r, hr, hmet⟩ := hfound q hlo hup
      rw [(hget q hr).1, hrevoked.inside r hmet]
    · cases hr : m.containing (pageStart q) with
      | none =>
        simp only [pageStart] at hr
        simp only [getAccess, hplaces.containing, hr]
      | some r =>
        rw [(hget q hr).1, (hget q hr).2, hrevoked.outside, hlayout.access]
        rintro ⟨j, hlo, hup, hj⟩
        exact hfits q hq hout j hlo hup (hr.trans (((hlayout.containing _).symm.trans hj).symm))
    · rw [hrevoked.octets]
      refine herased.outside r i ?_
      rintro ⟨j, hlo, hup, -, ha, ha'⟩
      exact hout (by omega)

theorem voidRight_of_sweep (hs : m.Sliced) (hbad : badPages p c = false)
    (hrun : sweep voidStep (pageCount p c) p m = .ret (m', none)) :
    ∃ ram, revokeLoop (pageCount p c) p m' = (ram, none) ∧
      (VoidRight p c m ram ↔ VoidFits p c m) := by
  obtain ⟨hlo, hend, hhi⟩ := range_of_not_bad hbad
  by_cases hwrap : 2 ^ 64 ≤ p.toNat + c.toNat
  · have hzero : pageCount p c = 0 := by
      rw [pageCount, UInt64.toNat_add]
      have := c.toNat_lt
      omega
    rw [hzero] at hrun ⊢
    cases hrun
    exact ⟨_, rfl, voidRight_of_wrap hwrap⟩
  · have hcount : pageCount p c = c.toNat := by
      rw [pageCount, UInt64.toNat_add]
      omega
    rw [UInt64.toNat_add] at hend
    have hp : UInt64.ofNat p.toNat = p := UInt64.ofNat_toNat
    obtain ⟨hlayout, hacc⟩ := sweep_voidStep_done hs hhi (by rwa [hp])
    obtain ⟨u', e, k, hrun', hswept⟩ := sweep_swept voidStep_clearsPage hs hlo hhi
    rw [hp, hrun] at hrun'
    cases hrun'
    have hk := hswept.done.mp rfl
    have hin (j : Nat) (hlo : p.toNat ≤ j) (hup : j < p.toNat + pageCount p c) :
        m'.containing (pageStart j) ≠ none := by
      rw [hlayout.containing, Option.ne_none_iff_exists']
      exact found_of_accessible (hacc j hlo hup)
    obtain ⟨ram, hrevoke, hrevoked⟩ := revokeLoop_done hin
    rw [hp] at hrevoke
    rw [hcount] at hacc hrevoked hk
    exact ⟨ram, hrevoke, voidRight_iff (by omega) hacc hlayout (hk ▸ hswept.erased) hrevoked⟩

variable {n : UInt64} (hn : regs.get A0 = n) (hp : regs.get A1 = p)
  (hc : regs.get A2 = c) (hu : ctxPair.machines.lookup n = some u) (hs : u.ram.Sliced)
include hn hp hc hu hs

theorem zero_keeps_iff : ∃ r, zero gas regs mem ctxPair = .ret r ∧
      (Rejected r → (r.x.machines.lookup n = some u ↔ gas < callCost ∨ badPages p c = true ∨
          ¬ ZeroSpoils p c u.ram)) := by
  subst hn hp hc
  unfold zero charged
  by_cases hgas : gas < callCost
  · rw [if_pos hgas]
    exact ⟨_, rfl, fun _ => iff_of_true hu (.inl hgas)⟩
  rw [if_neg hgas]
  cases hbad : badPages (regs.get A1) (regs.get A2) with
  | true =>
    simp only [hbad, if_true]
    exact ⟨_, rfl, fun _ => iff_of_true hu (.inr (.inl trivial))⟩
  | false =>
    obtain ⟨hlo, -, hhi⟩ := range_of_not_bad hbad
    obtain ⟨ram, e, k, hrun, hswept⟩ := sweep_swept zeroStep_clearsPage hs hlo hhi
    have htrace := hswept.sameOctets_iff hs hhi
    simp only [UInt64.ofNat_toNat, ← zeroLoop_eq_sweep] at hrun htrace
    simp only [hbad, hu, hrun, Bool.false_eq_true, if_false, ret_bind]
    cases e with
    | none =>
      obtain ⟨x, hx, -⟩ := setMachine_of_lookup hu { u with ram }
      simp only [hx, ret_bind]
      exact ⟨_, rfl, fun h => absurd h not_rejected⟩
    | some e =>
      obtain ⟨x, hx, hlookup⟩ := setMachine_of_lookup hu { u with ram := withDataOf u.ram ram }
      simp only [hx, ret_bind]
      refine ⟨_, rfl, fun _ => ?_⟩
      rw [hlookup, lookup_kept_iff, htrace]
      simp only [hgas, ZeroSpoils, false_or, not_exists, not_and, not_not, forall_exists_index]

theorem void_keeps_iff : ∃ r, void gas regs mem ctxPair = .ret r ∧
      (Rejected r → (r.x.machines.lookup n = some u ↔ gas < callCost ∨ badPages p c = true ∨
          ¬ VoidSpoils p c u.ram)) ∧
      (¬ Rejected r → ∃ u', r.x.machines.lookup n = some u' ∧ (VoidRight p c u.ram u'.ram ↔
          VoidFits p c u.ram)) := by
  have hhuh (gas : Gas) (x : RefineContextPair) :
      Rejected ⟨gas, withCode regs .huh, mem, x, none⟩ :=
    .inr (by rw [withCode, get_set_self]; decide)
  subst hn hp hc
  unfold void charged
  by_cases hgas : gas < callCost
  · rw [if_pos hgas]
    exact ⟨_, rfl, fun _ => iff_of_true hu (.inl hgas), fun h => absurd (.inl (by simp)) h⟩
  rw [if_neg hgas]
  cases hbad : badPages (regs.get A1) (regs.get A2) with
  | true =>
    simp only [hu, hbad, if_true]
    exact ⟨_, rfl, fun _ => iff_of_true hu (.inr (.inl trivial)), fun h => absurd (hhuh ..) h⟩
  | false =>
    obtain ⟨hlo, hend, hhi⟩ := range_of_not_bad hbad
    obtain ⟨cleared, e, k, hrun, hswept⟩ := sweep_swept voidStep_clearsPage hs hlo hhi
    have htrace := hswept.sameOctets_iff hs hhi
    simp only [UInt64.ofNat_toNat] at hrun htrace
    have hspoils : SameOctets u.ram cleared ↔
        ¬ VoidSpoils (regs.get A1) (regs.get A2) u.ram := by
      rw [htrace]
      simp only [VoidSpoils, voidLoop_done_iff, not_exists, not_and, not_not, forall_exists_index]
    obtain ⟨x, hx, hlookup⟩ := setMachine_of_lookup hu { u with ram := withDataOf u.ram cleared }
    have hkept : x.machines.lookup (regs.get A0) = some u ↔ gas < callCost ∨ false = true ∨
        ¬ VoidSpoils (regs.get A1) (regs.get A2) u.ram := by
      rw [hlookup, lookup_kept_iff, hspoils]
      simp only [hgas, Bool.false_eq_true, false_or]
    simp only [hu, hbad, voidLoop_eq_sweep, hrun, map_ret, ret_bind, hx,
      Bool.false_eq_true, if_false]
    rcases e with _ | _ | e
    · obtain ⟨ram, hrevoke, hright⟩ := voidRight_of_sweep hs hbad hrun
      obtain ⟨x', hx', hlookup'⟩ := setMachine_of_lookup hu { u with ram }
      simp only [voidEnd, hrevoke, hx', ret_bind]
      exact ⟨_, rfl, fun h => absurd h not_rejected, fun _ => ⟨_, hlookup', hright⟩⟩
    · exact ⟨_, rfl, fun _ => by simpa using hkept, fun h => absurd (hhuh ..) h⟩
    · exact ⟨_, rfl, fun _ => by simpa using hkept, fun h => absurd (.inl (by simp)) h⟩

end

/-- When a call that is refused leaves the memory alone. -/
theorem all_or_nothing_iff (gas : Gas) (mem : Memory) {regs : Registers}
    {ctxPair : RefineContextPair} {u : IntegratedPVM} {n p c : UInt64}
    (hn : regs.get A0 = n) (hp : regs.get A1 = p) (hc : regs.get A2 = c)
    (hu : ctxPair.machines.lookup n = some u) (hs : u.ram.Sliced) :
    (∃ r, zero gas regs mem ctxPair = .ret r ∧ (Rejected r → (r.x.machines.lookup n = some u ↔
        gas < callCost ∨ badPages p c = true ∨ ¬ ZeroSpoils p c u.ram))) ∧
    ∃ r, void gas regs mem ctxPair = .ret r ∧ (Rejected r → (r.x.machines.lookup n = some u ↔
        gas < callCost ∨ badPages p c = true ∨ ¬ VoidSpoils p c u.ram)) ∧
      (¬ Rejected r → ∃ u', r.x.machines.lookup n = some u' ∧ (VoidRight p c u.ram u'.ram ↔
          VoidFits p c u.ram)) :=
  ⟨zero_keeps_iff hn hp hc hu hs, void_keeps_iff hn hp hc hu hs⟩

def pageOf (b : UInt8) : Memory :=
  { zeroMemory with rw := ⟨0x10000, List.replicate 4096 b, .readWrite⟩ }

def onlyMachine (ram : Memory) : RefineContextPair := ⟨some (Finmap.singleton 0 ⟨[], ram, 0⟩), []⟩

def ranging (p c : UInt64) : Registers := #v[0, 0, 0, 0, 0, 0, 0, 0, p, c, 0, 0, 0]

theorem pageOf_sliced (b : UInt8) : (pageOf b).Sliced := by
  have hlen : (List.replicate 4096 b).length < 2 ^ 63 := by
    rw [List.length_replicate]
    decide
  intro r
  cases r with
  | rw => exact hlen
  | ro | stack | args => exact Nat.two_pow_pos 63

theorem all_or_nothing_of_pageOf :
    (onlyMachine (pageOf 1)).machines.lookup 0 = some ⟨[], pageOf 1, 0⟩ ∧ (pageOf 1).Sliced ∧
      ∃ r, void callCost (ranging 16 1) zeroMemory (onlyMachine (pageOf 1)) = .ret r ∧
        (¬ Rejected r → ∃ u', r.x.machines.lookup 0 = some u' ∧
          (VoidRight 16 1 (pageOf 1) u'.ram ↔ VoidFits 16 1 (pageOf 1))) := by
  have hu : (onlyMachine (pageOf 1)).machines.lookup 0 = some ⟨[], pageOf 1, 0⟩ :=
    lookup_singleton_eq
  have hregs : (ranging 16 1).get A0 = 0 := rfl
  obtain ⟨r, hr, -, hright⟩ := (all_or_nothing_iff callCost zeroMemory hregs rfl rfl hu
    (pageOf_sliced 1)).2
  exact ⟨hu, pageOf_sliced 1, r, hr, hright⟩

theorem find_pageOf (b : UInt8) {P : UInt64 → UInt64 → Bool} (hnone : P 0 0 = false) :
    searchOrder.find? (fun r => P ((pageOf b).segment r).address ((pageOf b).segment r).size) =
      if P 0x10000 0x1000 = true then some .rw else none := by
  have hsize : ((pageOf b).segment .rw).size = 0x1000 := by
    rw [MemorySegment.size, pageOf, Memory.segment, List.length_replicate]
    rfl
  have haddress : ((pageOf b).segment .rw).address = 0x10000 := rfl
  have hempty (r : Region) (hr : r ≠ .rw) :
      P ((pageOf b).segment r).address ((pageOf b).segment r).size = false := by
    cases r <;> first | exact hnone | exact absurd rfl hr
  simp only [searchOrder, List.find?, hempty .stack (by decide), hempty .ro (by decide),
    hempty .args (by decide), hsize, haddress]
  cases P 0x10000 0x1000 <;> rfl

theorem getAccess_pageOf (b : UInt8) :
    (pageOf b).getAccess 16 = .readWrite ∧ (pageOf b).getAccess 17 = .inaccessible := by
  have hfind (a : UInt64) := find_pageOf b
    (P := fun address size => address ≤ a ∧ a < address + size)
  constructor
  · rw [getAccess, containing, hfind _ (by decide), if_pos (by decide)]
    rfl
  · rw [getAccess, containing, hfind _ (by decide), if_neg (by decide)]

theorem clearPage_pageOf (b : UInt8) : clearPage (pageOf b) 16 = .ret (.ok (pageOf 0)) := by
  have hlen : (List.replicate pageSize.toNat (0 : UInt8)).length = 4096 := List.length_replicate
  have hcover : (pageOf b).covering (16 * pageSize) (UInt64.ofNat 4096) = some .rw := by
    rw [covering, find_pageOf b
      (P := fun address size => address ≤ 16 * pageSize ∧ 16 * pageSize + _ ≤ address + size)
      (by decide), if_pos (by decide)]
  have hwhole : splice (List.replicate 4096 b) 0 (List.replicate pageSize.toNat 0) =
      List.replicate 4096 0 := by
    rw [splice, hlen, List.take_zero, List.drop_replicate]
    exact List.append_nil _
  rw [clearPage, write_eq (pageOf_sliced b) (by rw [hlen]; decide), writeRange, hlen]
  have hsegment : (pageOf b).segment .rw = ⟨0x10000, List.replicate 4096 b, .readWrite⟩ := rfl
  have hoffset : (16 * pageSize).toNat - (0x10000 : UInt64).toNat = 0 := rfl
  simp only [hcover, hsegment, hoffset, hwhole]
  rfl

theorem void_erases_then_refuses :
    ∃ r, void callCost (ranging 16 2) zeroMemory (onlyMachine (pageOf 1)) = .ret r ∧
      Rejected r ∧ r.x.machines.lookup 0 = some ⟨[], pageOf 0, 0⟩ ∧ pageOf 0 ≠ pageOf 1 := by
  have hu : (onlyMachine (pageOf 1)).machines.lookup ((ranging 16 2).get A0) =
      some ⟨[], pageOf 1, 0⟩ := lookup_singleton_eq
  have hcount : pageCount ((ranging 16 2).get A1) ((ranging 16 2).get A2) = 2 := rfl
  have hbad : badPages ((ranging 16 2).get A1) ((ranging 16 2).get A2) = false := rfl
  have hloop : voidLoop 2 ((ranging 16 2).get A1) (pageOf 1) = .ret (pageOf 0, .huh) := by
    change voidLoop 2 16 _ = _
    rw [voidLoop, if_neg (by rw [(getAccess_pageOf 1).1]; decide), clearPage_pageOf, ret_bind]
    exact if_pos (getAccess_pageOf 0).2
  obtain ⟨x, hx, hlookup⟩ := setMachine_of_lookup hu ⟨[], withDataOf (pageOf 1) (pageOf 0), 0⟩
  refine ⟨⟨0, withCode (ranging 16 2) .huh, zeroMemory, x, none⟩, ?_, .inr ?_, hlookup, ?_⟩
  · unfold void charged
    simp only [hu, hbad, hcount, hloop, hx, Bool.false_eq_true, if_false, ret_bind]
    rfl
  · rw [withCode, get_set_self]
    decide
  · intro h
    have hhead := congrArg (fun m : Memory => m.rw.data[0]?) h
    exact absurd hhead (by decide)

section

variable {gas : Gas} {regs : Registers} {mem : Memory} {ctxPair : RefineContextPair}
  {r : HostResult RefineContextPair} {n p c : UInt64} {u : IntegratedPVM}

theorem machine_post : (machine gas regs mem ctxPair).Post fun r =>
    r.x = ctxPair ∨ ∃ k v, v.ram = zeroMemory ∧ ctxPair.setMachine k v = .ret r.x := by
  refine post_charged (fun _ => .inl rfl) fun _ => ?_
  rw [post_bind]
  rintro _ -
  rw [post_bind]
  rintro (e | blob) -
  · exact post_ret.mpr (.inl rfl)
  rw [post_bind]
  rintro (e | _) -
  · exact post_ret.mpr (.inl rfl)
  rw [post_bind]
  intro x hx
  exact post_ret.mpr (.inr ⟨_, _, rfl, hx⟩)

theorem ram_of_machine (h : machine gas regs mem ctxPair = .ret r) (hold : n ∉ ctxPair.machines)
    (hu : r.x.machines.lookup n = some u) : u.ram = zeroMemory := by
  rcases machine_post r h with hx | ⟨k, v, hram, hset⟩
  · rw [hx] at hu
    exact absurd (mem_of_lookup_eq_some hu) hold
  · unfold RefineContextPair.setMachine at hset
    split at hset
    · cases hset
    · next machines hmap =>
      have hinsert : r.x.machines = machines.insert k v := by
        rw [← Outcome.ret.inj hset]
        rfl
      by_cases hk : n = k
      · rw [hinsert, hk, lookup_insert] at hu
        rw [← Option.some.inj hu, hram]
      · rw [hinsert, lookup_insert_of_ne _ hk] at hu
        refine absurd ?_ hold
        rw [RefineContextPair.machines, hmap]
        exact mem_of_lookup_eq_some hu

structure ZeroRight (p c n : UInt64) (u : IntegratedPVM) (r : HostResult RefineContextPair) :
    Prop where
  ok : ¬ Rejected r
  pages : ∃ u', r.x.machines.lookup n = some u' ∧ ∀ q < 2 ^ 20,
    if p.toNat ≤ q ∧ q < p.toNat + c.toNat then
      u'.ram.getAccess (UInt64.ofNat q) = .readWrite ∧
        u'.ram.read (pageStart q) pageSize = .ret (.ok (List.replicate 4096 0))
    else u'.ram.getAccess (UInt64.ofNat q) = u.ram.getAccess (UInt64.ofNat q)
  copies : ∀ gas (regs regs' : Registers) (mem mem' mem'' : Memory) data, ¬ gas < callCost →
    regs.get A0 = n → 0 < (regs.get A3).toNat → p.toNat * 4096 ≤ (regs.get A2).toNat →
    (regs.get A2).toNat + (regs.get A3).toNat ≤ (p.toNat + c.toNat) * 4096 →
    mem.read (regs.get A1) (regs.get A3) = .ret (.ok data) →
    regs'.get A0 = n → regs'.get A2 = regs.get A2 → regs'.get A3 = regs.get A3 →
    mem'.write (regs'.get A1) data = .ret (.ok mem'') →
    ∃ r' r'', poke gas regs mem r.x = .ret r' ∧ ¬ Rejected r' ∧
      peek gas regs' mem' r'.x = .ret r'' ∧ ¬ Rejected r'' ∧ r''.mem = mem''

def InBounds (p c : UInt64) : Prop := 16 ≤ p.toNat ∧ p.toNat + c.toNat < 2 ^ 20

def Wraps (p c : UInt64) : Prop :=
  16 ≤ p.toNat ∧ 2 ^ 64 ≤ p.toNat + c.toNat ∧ p.toNat + c.toNat - 2 ^ 64 < 2 ^ 20

theorem badPages_iff : badPages p c = true ↔ ¬ InBounds p c ∧ ¬ Wraps p c := by
  have hmax : maxPageIndex.toNat = 2 ^ 20 := rfl
  have hsixteen : (16 : UInt64).toNat = 16 := rfl
  have hp := p.toNat_lt
  have hc := c.toNat_lt
  simp only [badPages, InBounds, Wraps, Bool.or_eq_true, decide_eq_true_eq, UInt64.le_iff_toNat_le,
    UInt64.lt_iff_toNat_lt, UInt64.toNat_add, hmax, hsixteen]
  omega

theorem setAccess_zeroMemory (page : UInt64) (access : MemoryAccess) :
    zeroMemory.setAccess page access = .error (.pageFault .pageOutOfRange (page * pageSize)) := by
  have hnone : zeroMemory.containing (page * pageSize) = none := by
    rw [containing, List.find?_eq_none]
    intro r _
    have hempty : (zeroMemory.segment r).address + (zeroMemory.segment r).size = 0 := by
      cases r <;> rfl
    simp [hempty]
  rw [setAccess, hnone]

variable (mem) (hn : regs.get A0 = n) (hp : regs.get A1 = p) (hc : regs.get A2 = c)
  (hu : ctxPair.machines.lookup n = some u) (hgas : ¬ gas < callCost)
include hn hp hc hu hgas

theorem zero_of_empty (hbad : badPages p c = false) (hcount : pageCount p c = 0) :
    ∃ x, zero gas regs mem ctxPair = .ret ⟨gas - callCost, withCode regs .ok, mem, x, none⟩ ∧
      x.machines.lookup n = some u := by
  obtain ⟨x, hx, hlookup⟩ := setMachine_of_lookup hu u
  refine ⟨x, ?_, hlookup⟩
  subst hn hp hc
  rw [zero, charged, if_neg hgas]
  simp only [hbad, hu, hcount, zeroLoop, Bool.false_eq_true, if_false, ret_bind]
  rw [hx]
  rfl

theorem zero_of_zeroMemory (hram : u.ram = zeroMemory) (hbad : badPages p c = false)
    (hcount : pageCount p c ≠ 0) : ∃ r, zero gas regs mem ctxPair = .ret r ∧ Rejected r := by
  obtain ⟨k, hk⟩ := Nat.exists_eq_succ_of_ne_zero hcount
  obtain ⟨x, hx, -⟩ := setMachine_of_lookup hu { u with ram := withDataOf zeroMemory zeroMemory }
  subst hn hp hc
  rw [zero, charged, if_neg hgas]
  simp only [hbad, hu, hk, hram, zeroLoop, setAccess_zeroMemory, Bool.false_eq_true, if_false,
    ret_bind]
  rw [hx]
  exact ⟨_, rfl, .inl (by simp)⟩

theorem zero_right_iff (hram : u.ram = zeroMemory) (hin : InBounds p c) :
    (∃ r, zero gas regs mem ctxPair = .ret r ∧ ZeroRight p c n u r) ↔ c = 0 := by
  have hbad : badPages p c = false := by
    rw [Bool.eq_false_iff, ne_eq, badPages_iff]
    exact fun h => h.1 hin
  have hcount : pageCount p c = c.toNat := by
    have := hin.2
    rw [pageCount, UInt64.toNat_add]
    omega
  constructor
  · rintro ⟨r, hr, hright⟩
    by_contra hzero
    obtain ⟨r', hr', hrejected⟩ := zero_of_zeroMemory mem hn hp hc hu hgas hram hbad
      fun h => hzero (UInt64.toNat_inj.mp (hcount.symm.trans h))
    cases hr.symm.trans hr'
    exact hright.ok hrejected
  · rintro rfl
    obtain ⟨x, hx, hlookup⟩ := zero_of_empty mem hn hp hc hu hgas hbad hcount
    have hempty : (0 : UInt64).toNat = 0 := rfl
    refine ⟨_, hx, not_rejected, ⟨u, hlookup, fun q _ => ?_⟩, ?_⟩
    · rw [if_neg (by rw [hempty]; omega)]
    · omega

theorem zero_huh_iff (hout : ¬ InBounds p c) :
    (∃ r, zero gas regs mem ctxPair = .ret r ∧ r.err = none ∧
      r.regs.get A0 = Code.huh.toUInt64) ↔ ¬ Wraps p c := by
  constructor
  · rintro ⟨r, hr, -, hhuh⟩ hwrap
    have hbad : badPages p c = false := by
      rw [Bool.eq_false_iff, ne_eq, badPages_iff]
      exact fun h => h.2 hwrap
    have hcount : pageCount p c = 0 := by
      have := c.toNat_lt
      have := hwrap.2
      rw [pageCount, UInt64.toNat_add]
      omega
    obtain ⟨x, hx, -⟩ := zero_of_empty mem hn hp hc hu hgas hbad hcount
    cases hr.symm.trans hx
    rw [withCode, get_set_self] at hhuh
    exact absurd hhuh (by decide)
  · intro hwrap
    have hbad := badPages_iff.mpr ⟨hout, hwrap⟩
    subst hp hc
    exact ⟨_, by rw [zero, charged, if_neg hgas, if_pos hbad], rfl, get_set_self ..⟩

end

/-- When Zero gives a new machine its pages. -/
theorem new_machine_memory_iff {gas₀ gas : Gas} {regs₀ regs : Registers} {mem₀ : Memory}
    (mem : Memory) {ctxPair : RefineContextPair} {r₀ : HostResult RefineContextPair}
    {u : IntegratedPVM} {n p c : UInt64} (hmachine : machine gas₀ regs₀ mem₀ ctxPair = .ret r₀)
    (hold : n ∉ ctxPair.machines) (hu : r₀.x.machines.lookup n = some u)
    (hn : regs.get A0 = n) (hp : regs.get A1 = p) (hc : regs.get A2 = c)
    (hgas : ¬ gas < callCost) :
    (InBounds p c → ((∃ r, zero gas regs mem r₀.x = .ret r ∧ ZeroRight p c n u r) ↔ c = 0)) ∧
    (¬ InBounds p c → ((∃ r, zero gas regs mem r₀.x = .ret r ∧ r.err = none ∧
        r.regs.get A0 = Code.huh.toUInt64) ↔ ¬ Wraps p c)) :=
  ⟨zero_right_iff mem hn hp hc hu hgas (ram_of_machine hmachine hold hu),
    zero_huh_iff mem hn hp hc hu hgas⟩

def emptyBlob : Memory := { zeroMemory with ro := ⟨0x10000, [0, 0, 0], .readOnly⟩ }

def creating : Registers := #v[0, 0, 0, 0, 0, 0, 0, 0x10000, 3, 0, 0, 0, 0]

theorem new_machine_memory_of_emptyBlob :
    ∃ r u, machine callCost creating emptyBlob ⟨some ∅, []⟩ = .ret r ∧
      r.x.machines.lookup 0 = some u ∧ (InBounds 16 1 →
        ((∃ r', zero callCost (ranging 16 1) zeroMemory r.x = .ret r' ∧ ZeroRight 16 1 0 u r') ↔
          (1 : UInt64) = 0)) := by
  have hmachine : machine callCost creating emptyBlob ⟨some ∅, []⟩ = .ret _ := rfl
  have hregs : (ranging 16 1).get A0 = 0 := rfl
  exact ⟨_, _, hmachine, rfl, (new_machine_memory_iff zeroMemory hmachine notMem_empty rfl
    hregs rfl rfl (by decide)).1⟩

theorem no_page_for_new_machine :
    ∃ r r', machine callCost creating emptyBlob ⟨some ∅, []⟩ = .ret r ∧
      r.x.machines.lookup 0 = some ⟨[0, 0, 0], zeroMemory, 0⟩ ∧
      zero callCost (ranging 16 1) zeroMemory r.x = .ret r' ∧
      r'.err = some (.pageFault .pageOutOfRange 0x10000) :=
  ⟨_, _, rfl, rfl, rfl, rfl⟩

end Strawberry.HostCall
