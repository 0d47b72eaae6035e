import Strawberry.HostCall.Balance
import Strawberry.Lib.Toggles

/-!
# Historical lookups

Refinement and the audit of it rest on `LookupPreimage` giving the same answer for a past time.
-/

namespace Strawberry.HostCall

open Polkavm Interpreter Service State Constants List Option

def times (history : List Timeslot) : List Nat := history.map (·.toNat)

variable {history : List Timeslot} {t now x y w : Timeslot}

theorem times_ordered (h : history.Pairwise (· ≤ ·)) : (times history).Pairwise (· ≤ ·) := by
  unfold times
  rw [pairwise_map]
  exact h.imp UInt32.le_iff_toNat_le.mp

theorem isPreimageAvailableAt_iff (h : history.Pairwise (· ≤ ·)) :
    isPreimageAvailableAt history t ↔ history.length ≤ 3 ∧ OnAt (times history) t.toNat := by
  have hord := times_ordered h
  rcases history with _ | ⟨x, _ | ⟨y, _ | ⟨w, _ | ⟨v, rest⟩⟩⟩⟩
  · simp [isPreimageAvailableAt, times, not_onAt_nil]
  · simp only [times, map_cons, map_nil] at hord ⊢
    rw [onAt_cons hord]
    simp [isPreimageAvailableAt, not_onAt_nil, UInt32.le_iff_toNat_le]
  · simp only [times, map_cons, map_nil] at hord ⊢
    rw [onAt_cons hord, onAt_cons hord.of_cons]
    simp [isPreimageAvailableAt, not_onAt_nil, UInt32.le_iff_toNat_le, UInt32.lt_iff_toNat_lt]
  · simp only [times, map_cons, map_nil] at hord ⊢
    rw [onAt_cons hord, onAt_cons hord.of_cons, onAt_cons hord.of_cons.of_cons]
    have hfirst : x.toNat ≤ w.toNat := rel_of_pairwise_cons hord (by simp)
    simp only [isPreimageAvailableAt, not_onAt_nil, UInt32.le_iff_toNat_le,
      UInt32.lt_iff_toNat_lt, Bool.or_eq_true, Bool.and_eq_true, decide_eq_true_eq,
      length_cons, length_nil, not_false_iff, and_true]
    omega
  · simp [isPreimageAvailableAt]

abbrev InOrder (now : Timeslot) (history : List Timeslot) : Prop :=
  history.Pairwise (· ≤ ·) ∧ ∀ time ∈ history, time ≤ now

theorem InOrder.append (h : InOrder now history) : InOrder now (history ++ [now]) := by
  obtain ⟨hord, hpast⟩ := h
  constructor
  · refine pairwise_append.mpr ⟨hord, pairwise_singleton _ _, ?_⟩
    intro time htime u hu
    rw [mem_singleton.mp hu]
    exact hpast time htime
  · intro time htime
    rcases mem_append.mp htime with hold | hnew
    · exact hpast time hold
    · rw [mem_singleton.mp hnew]
      exact UInt32.le_refl now

theorem isPreimageAvailableAt_append (hlen : history.length ≤ 2) (h : InOrder now history)
    (ht : t < now) :
    isPreimageAvailableAt (history ++ [now]) t = isPreimageAvailableAt history t := by
  have hlater : OnAt (times (history ++ [now])) t.toNat ↔ OnAt (times history) t.toNat := by
    unfold times
    rw [map_append]
    apply onAt_append
    intro u hu
    rw [mem_singleton.mp hu]
    exact UInt32.lt_iff_toNat_lt.mp ht
  have hlen' : (history ++ [now]).length ≤ 3 := by
    rw [length_append]
    exact Nat.add_le_add_right hlen 1
  rw [Bool.eq_iff_iff, isPreimageAvailableAt_iff h.append.1,
    isPreimageAvailableAt_iff h.1, hlater, and_iff_right hlen',
    and_iff_right (Nat.le_succ_of_le hlen)]

theorem inOrder_singleton (h : t ≤ now) : InOrder now [t] :=
  ⟨pairwise_singleton _ _, forall_mem_singleton.mpr h⟩

theorem isPreimageAvailableAt_renewed (hord : [x, y, w].Pairwise (· ≤ ·))
    (hpast : w ≤ now) (ht : t < now) (hover : y ≤ t) :
    isPreimageAvailableAt [w, now] t = isPreimageAvailableAt [x, y, w] t := by
  have hx : x ≤ y := rel_of_pairwise_cons hord (by simp)
  have happend : isPreimageAvailableAt [w, now] t = isPreimageAvailableAt [w] t :=
    isPreimageAvailableAt_append (by simp) (inOrder_singleton hpast) ht
  have hdrop : OnAt (times [x, y, w]) t.toNat ↔ OnAt (times [w]) t.toNat :=
    onAt_cons_cons (UInt32.le_iff_toNat_le.mp (UInt32.le_trans hx hover))
      (UInt32.le_iff_toNat_le.mp hover)
  rw [happend, Bool.eq_iff_iff, isPreimageAvailableAt_iff hord,
    isPreimageAvailableAt_iff (pairwise_singleton _ _), hdrop]
  simp

theorem isPreimageAvailableAt_lost (hord : [x, y, w].Pairwise (· ≤ ·)) (hlater : t < y) :
    isPreimageAvailableAt [w, now] t = false := by
  have hyw : y ≤ w := rel_of_pairwise_cons hord.of_cons (by simp)
  have hw : ¬ w ≤ t := UInt32.not_le.mpr (UInt32.lt_of_lt_of_le hlater hyw)
  simp [isPreimageAvailableAt, hw]

structure Chronological (now : Timeslot) (a : ServiceAccount) : Prop where
  ordered : ∀ key history, a.preimageMeta.lookup key = some history → history.Pairwise (· ≤ ·)
  past : ∀ key history, a.preimageMeta.lookup key = some history → ∀ time ∈ history, time ≤ now

variable {a : ServiceAccount} {key : PreImageMetaKey} {h : Hash} {p : List UInt8}

def withHistory (a : ServiceAccount) (key : PreImageMetaKey) (history : List Timeslot) :
    ServiceAccount :=
  { a with preimageMeta := a.preimageMeta.insert key history }

def without (a : ServiceAccount) (key : PreImageMetaKey) : ServiceAccount :=
  { a with
    preimageMeta := a.preimageMeta.erase key
    preimageLookup := a.preimageLookup.erase key.hash }

theorem lookupPreimage_eq : a.lookupPreimage t h = (a.preimageLookup.lookup h).filter fun p =>
      isPreimageAvailableAt (a.preimageMeta.getD ⟨h, UInt32.ofNat p.length⟩ []) t := by
  unfold ServiceAccount.lookupPreimage GoMap.getD
  cases a.preimageLookup.lookup h with
  | none => rfl
  | some p =>
    rw [filter_some]
    cases hmeta : a.preimageMeta.lookup ⟨h, UInt32.ofNat p.length⟩ with
    | none => simp [hmeta, isPreimageAvailableAt]
    | some history => simp [hmeta]

theorem lookupPreimage_eq_some :
    a.lookupPreimage t h = some p ↔ a.preimageLookup.lookup h = some p ∧
      isPreimageAvailableAt (a.preimageMeta.getD ⟨h, UInt32.ofNat p.length⟩ []) t := by
  rw [lookupPreimage_eq, filter_eq_some_iff]

theorem lookupPreimage_withHistory
    (heq : ∀ p, a.preimageLookup.lookup h = some p → key = ⟨h, UInt32.ofNat p.length⟩ →
      isPreimageAvailableAt history t = isPreimageAvailableAt (a.preimageMeta.getD key []) t) :
    (withHistory a key history).lookupPreimage t h = a.lookupPreimage t h := by
  rw [lookupPreimage_eq, lookupPreimage_eq, withHistory]
  cases hp : a.preimageLookup.lookup h with
  | none => rfl
  | some p =>
    rw [filter_some, filter_some]
    by_cases hkey : key = ⟨h, UInt32.ofNat p.length⟩
    · rw [← hkey, GoMap.getD_insert, heq p hp hkey]
    · rw [GoMap.getD_insert_of_ne (Ne.symm hkey)]

theorem lookupPreimage_without : (without a key).lookupPreimage t key.hash = none := by
  rw [lookupPreimage_eq, without, Finmap.lookup_erase, filter_none]

theorem lookupPreimage_without_of_ne (hne : h ≠ key.hash) :
    (without a key).lookupPreimage t h = a.lookupPreimage t h := by
  have hget : ∀ length, (a.preimageMeta.erase key).lookup ⟨h, length⟩ =
      a.preimageMeta.lookup ⟨h, length⟩ := by
    intro length
    apply Finmap.lookup_erase_ne
    intro heq
    exact hne (congrArg PreImageMetaKey.hash heq)
  simp only [lookupPreimage_eq, without, Finmap.lookup_erase_ne hne, GoMap.getD, hget]

theorem Chronological.getD (ha : Chronological now a) (key : PreImageMetaKey) :
    InOrder now (a.preimageMeta.getD key []) := by
  unfold GoMap.getD
  cases hkey : a.preimageMeta.lookup key with
  | none => exact ⟨List.Pairwise.nil, nofun⟩
  | some history => exact ⟨ha.ordered key history hkey, ha.past key history hkey⟩

theorem lookup_withHistory {k : PreImageMetaKey} {l : List Timeslot}
    (h : (withHistory a key history).preimageMeta.lookup k = some l) :
    l = history ∨ a.preimageMeta.lookup k = some l := by
  rcases GoMap.lookup_insert_eq_some.mp h with ⟨-, hl⟩ | ⟨-, hold⟩
  · exact .inl hl.symm
  · exact .inr hold

theorem lookup_without {k : PreImageMetaKey} {l : List Timeslot}
    (h : (without a key).preimageMeta.lookup k = some l) : a.preimageMeta.lookup k = some l :=
  (GoMap.lookup_erase_eq_some.mp h).2

theorem Chronological.withHistory (ha : Chronological now a) (h : InOrder now history) :
    Chronological now (withHistory a key history) := by
  constructor
  · intro k l hl
    rcases lookup_withHistory hl with rfl | hold
    · exact h.1
    · exact ha.ordered k l hold
  · intro k l hl
    rcases lookup_withHistory hl with rfl | hold
    · exact h.2
    · exact ha.past k l hold

theorem Chronological.without (ha : Chronological now a) : Chronological now (without a key) :=
  ⟨fun k l hl => ha.ordered k l (lookup_without hl), fun k l hl => ha.past k l (lookup_without hl)⟩

def TakenForExpired (now y : Timeslot) : Prop :=
  now.toNat < preimageExpulsionPeriod.toNat ∨ y.toNat + preimageExpulsionPeriod.toNat < now.toNat

def DropsAt (a : ServiceAccount) (key : PreImageMetaKey) (now t : Timeslot) : Prop :=
  ∃ p, a.lookupPreimage t key.hash = some p ∧
    if key.length = UInt32.ofNat p.length then
      now.toNat < preimageExpulsionPeriod.toNat ∧
        ∃ x y later, a.preimageMeta.getD key [] = x :: y :: later ∧ t < y
    else
      a.preimageMeta.getD key [] = [] ∨
        ∃ x y, a.preimageMeta.getD key [] = [x, y] ∧ TakenForExpired now y

section

variable {a' : ServiceAccount}

theorem expired_iff (hy : y ≤ now) : y < now - preimageExpulsionPeriod ↔ TakenForExpired now y := by
  unfold TakenForExpired
  have hperiod : preimageExpulsionPeriod.toNat = 28800 := rfl
  have hnow := now.toNat_lt
  rw [UInt32.le_iff_toNat_le] at hy
  rw [UInt32.lt_iff_toNat_lt, UInt32.toNat_sub, hperiod]
  omega

theorem forgetIn_eq_some (hforget : forgetIn a key now = some a') :
    (a' = without a key ∧ (a.preimageMeta.getD key [] = [] ∨
      ∃ x y, a.preimageMeta.getD key [] = [x, y] ∧ y < now - preimageExpulsionPeriod)) ∨
    (∃ x, a.preimageMeta.getD key [] = [x] ∧ a' = withHistory a key [x, now]) ∨
    ∃ x y w, a.preimageMeta.getD key [] = [x, y, w] ∧ y < now - preimageExpulsionPeriod ∧
      a' = withHistory a key [w, now] := by
  unfold forgetIn at hforget
  split at hforget
  · next hkey =>
    cases hforget
    exact .inl ⟨rfl, .inl hkey⟩
  · next x y hkey =>
    split at hforget
    · next hexpired =>
      cases hforget
      exact .inl ⟨rfl, .inr ⟨x, y, hkey, hexpired⟩⟩
    · cases hforget
  · next x hkey =>
    cases hforget
    exact .inr (.inl ⟨x, hkey, rfl⟩)
  · next x y w hkey =>
    split at hforget
    · next hexpired =>
      cases hforget
      exact .inr (.inr ⟨x, y, w, hkey, hexpired, rfl⟩)
    · cases hforget
  · cases hforget

theorem forgetIn_of_pair (hkey : a.preimageMeta.getD key [] = [x, y])
    (hlt : y < now - preimageExpulsionPeriod) : forgetIn a key now = some (without a key) := by
  unfold forgetIn
  rw [hkey]
  dsimp only
  rw [if_pos hlt]
  rfl

theorem Chronological.forgetIn (ha : Chronological now a)
    (hforget : forgetIn a key now = some a') : Chronological now a' := by
  obtain ⟨-, hpast⟩ := ha.getD key
  have hpair : ∀ time ≤ now, Chronological now (HostCall.withHistory a key [time, now]) :=
    fun time htime => ha.withHistory (inOrder_singleton htime).append
  rcases forgetIn_eq_some hforget with ⟨rfl, -⟩ | ⟨x, hkey, rfl⟩ | ⟨x, y, w, hkey, -, rfl⟩
  · exact ha.without
  · exact hpair x (hpast x (by simp [hkey]))
  · exact hpair w (hpast w (by simp [hkey]))

variable (ha : Chronological now a)
  (hperiod : now.toNat - preimageExpulsionPeriod.toNat ≤ t.toNat) (ht : t < now)

include hperiod in
theorem over_of_expired (hexpired : TakenForExpired now y)
    (hlate : ¬ now.toNat < preimageExpulsionPeriod.toNat) : y < t := by
  rw [UInt32.lt_iff_toNat_lt]
  rcases hexpired with hearly | hold
  · exact absurd hearly hlate
  · omega

include ha hperiod in
theorem dropsAt_of_gone (hsome : a.lookupPreimage t key.hash = some p)
    (hgone : a.preimageMeta.getD key [] = [] ∨
      ∃ x y, a.preimageMeta.getD key [] = [x, y] ∧ y < now - preimageExpulsionPeriod) :
    DropsAt a key now t := by
  obtain ⟨-, hpast⟩ := ha.getD key
  obtain ⟨-, havail⟩ := lookupPreimage_eq_some.mp hsome
  refine ⟨p, hsome, ?_⟩
  split
  · next hlen =>
    rw [← hlen] at havail
    rcases hgone with hkey | ⟨x, y, hkey, hlt⟩
    · rw [hkey] at havail
      cases havail
    · have hy : y ≤ now := hpast y (by simp [hkey])
      rw [hkey, isPreimageAvailableAt, Bool.and_eq_true, decide_eq_true_eq,
        decide_eq_true_eq] at havail
      refine ⟨?_, x, y, [], hkey, havail.2⟩
      by_contra hlate
      have hover := over_of_expired hperiod ((expired_iff hy).mp hlt) hlate
      exact UInt32.lt_irrefl _ (UInt32.lt_trans hover havail.2)
  · rcases hgone with hkey | ⟨x, y, hkey, hlt⟩
    · exact .inl hkey
    · have hy : y ≤ now := hpast y (by simp [hkey])
      exact .inr ⟨x, y, hkey, (expired_iff hy).mp hlt⟩

include ha hperiod ht in
theorem lookupPreimage_forgetIn (hforget : forgetIn a key now = some a')
    (hkeeps : h = key.hash → ¬ DropsAt a key now t) :
    a'.lookupPreimage t h = a.lookupPreimage t h := by
  have hist := ha.getD key
  rcases forgetIn_eq_some hforget with ⟨rfl, hgone⟩ | ⟨x, hkey, rfl⟩ | ⟨x, y, w, hkey, hlt, rfl⟩
  · by_cases hhash : h = key.hash
    · subst hhash
      rw [lookupPreimage_without]
      cases hsome : a.lookupPreimage t key.hash with
      | none => rfl
      | some p =>
        exact absurd (dropsAt_of_gone ha hperiod hsome hgone) (hkeeps rfl)
    · exact lookupPreimage_without_of_ne hhash
  · apply lookupPreimage_withHistory
    intro _ _ _
    rw [hkey] at hist ⊢
    exact isPreimageAvailableAt_append (by simp) hist ht
  · apply lookupPreimage_withHistory
    intro p hp hpkey
    rw [hkey] at hist ⊢
    obtain ⟨hord, hpast⟩ := hist
    have hy : y ≤ now := hpast y (by simp)
    have hw : w ≤ now := hpast w (by simp)
    by_cases hover : y ≤ t
    · exact isPreimageAvailableAt_renewed hord hw ht hover
    · -- the interval goes on after `t`, so that it is dropped if `t` lies in it
      have hlater : t < y := UInt32.not_le.mp hover
      have hbefore : isPreimageAvailableAt [x, y, w] t = false := by
        rw [Bool.eq_false_iff]
        intro havail
        subst hpkey
        refine hkeeps rfl ⟨p, lookupPreimage_eq_some.mpr ⟨hp, hkey.symm ▸ havail⟩, ?_⟩
        rw [if_pos rfl]
        refine ⟨?_, x, y, [w], hkey, hlater⟩
        by_contra hlate
        exact hover (UInt32.le_of_lt (over_of_expired hperiod ((expired_iff hy).mp hlt) hlate))
      rw [hbefore, isPreimageAvailableAt_lost hord hlater]

include ha in
theorem forgetIn_of_dropsAt (hdrops : DropsAt a key now t) :
    ∃ a', forgetIn a key now = some a' ∧ a'.lookupPreimage t key.hash = none := by
  obtain ⟨hord, hpast⟩ := ha.getD key
  obtain ⟨p, hsome, hwhy⟩ := hdrops
  obtain ⟨hp, havail⟩ := lookupPreimage_eq_some.mp hsome
  split at hwhy
  · next hlen =>
    obtain ⟨hearly, x, y, later, hkey, hlater⟩ := hwhy
    rw [← hlen] at havail
    have hlt : y < now - preimageExpulsionPeriod :=
      (expired_iff (hpast y (by simp [hkey]))).mpr (.inl hearly)
    rcases later with _ | ⟨w, _ | ⟨v, later⟩⟩
    · exact ⟨without a key, forgetIn_of_pair hkey hlt, lookupPreimage_without⟩
    · refine ⟨withHistory a key [w, now], ?_, ?_⟩
      · unfold forgetIn
        rw [hkey]
        dsimp only
        rw [if_pos hlt]
        rfl
      · rw [hkey] at hord
        rw [lookupPreimage_eq, withHistory, hp, filter_some, ← hlen, GoMap.getD_insert,
          isPreimageAvailableAt_lost hord hlater]
        rfl
    · rw [hkey] at havail
      cases havail
  · refine ⟨without a key, ?_, lookupPreimage_without⟩
    rcases hwhy with hkey | ⟨x, y, hkey, hexpired⟩
    · unfold forgetIn
      rw [hkey]
      rfl
    · exact forgetIn_of_pair hkey ((expired_iff (hpast y (by simp [hkey]))).mpr hexpired)

end

section

variable {gas : Gas} {regs : Registers} {mem : Memory} {x : AccumulateContextPair}
  {r : HostResult AccumulateContextPair}

theorem solicit_eq_ret (hsolicit : solicit gas regs mem x now = .ret r) :
    r.x = x ∨ ∃ key history, r.x = setOwn x (withHistory x.regularCtx.serviceAccount key history) ∧
      ((x.regularCtx.serviceAccount.preimageMeta.getD key [] = [] ∧ history = []) ∨
        ∃ t₀ t₁, x.regularCtx.serviceAccount.preimageMeta.getD key [] = [t₀, t₁] ∧
          history = [t₀, t₁, now]) := by
  cases (solicit_post r hsolicit).2 with
  | same hx _ => exact .inl hx
  | entered a key history _ hown hist hx _ _ =>
    have hacc : x.regularCtx.serviceAccount = a := GoMap.getD_of_lookup hown
    rw [hacc]
    refine .inr ⟨key, history, hx, ?_⟩
    unfold GoMap.getD
    rcases hist with ⟨hkey, rfl⟩ | ⟨t₀, t₁, hkey, rfl⟩
    · rw [hkey]
      exact .inl ⟨rfl, rfl⟩
    · rw [hkey]
      exact .inr ⟨t₀, t₁, rfl, rfl⟩

theorem forget_eq (hnames : Names gas regs mem key) :
    forget gas regs mem x now =
      match forgetIn x.regularCtx.serviceAccount key now with
      | some a => .ret ⟨gas - callCost, withCode regs .ok, mem, setOwn x a, none⟩
      | none => .ret ⟨gas - callCost, withCode regs .huh, mem, x, none⟩ := by
  obtain ⟨hgas, bytes, hread, rfl⟩ := hnames
  unfold forget charged
  rw [if_neg hgas, hread]
  rfl

theorem solicit_chronological (hx : Chronological now x.regularCtx.serviceAccount)
    (hsolicit : solicit gas regs mem x now = .ret r) :
    Chronological now r.x.regularCtx.serviceAccount := by
  rcases solicit_eq_ret hsolicit with hsame | ⟨key, history, hown, hist⟩
  · rw [hsame]
    exact hx
  · rw [hown, serviceAccount_setOwn]
    have hold := hx.getD key
    rcases hist with ⟨-, rfl⟩ | ⟨t₀, t₁, hkey, rfl⟩
    · exact hx.withHistory ⟨List.Pairwise.nil, nofun⟩
    · rw [hkey] at hold
      exact hx.withHistory hold.append

theorem solicit_lookupPreimage (hx : Chronological now x.regularCtx.serviceAccount) (ht : t < now)
    (hsolicit : solicit gas regs mem x now = .ret r) :
    r.x.regularCtx.serviceAccount.lookupPreimage t h =
      x.regularCtx.serviceAccount.lookupPreimage t h := by
  rcases solicit_eq_ret hsolicit with hsame | ⟨key, history, hown, hist⟩
  · rw [hsame]
  · rw [hown, serviceAccount_setOwn]
    apply lookupPreimage_withHistory
    intro _ _ _
    have hold := hx.getD key
    rcases hist with ⟨hkey, rfl⟩ | ⟨t₀, t₁, hkey, rfl⟩
    · rw [hkey]
    · rw [hkey] at hold ⊢
      exact isPreimageAvailableAt_append (by simp) hold ht

theorem forget_lookupPreimage_iff (hx : Chronological now x.regularCtx.serviceAccount)
    (hperiod : now.toNat - preimageExpulsionPeriod.toNat ≤ t.toNat) (ht : t < now) :
    (∀ r, forget gas regs mem x now = .ret r → r.x.regularCtx.serviceAccount.lookupPreimage t h =
        x.regularCtx.serviceAccount.lookupPreimage t h) ↔
      ∀ key, Names gas regs mem key → key.hash = h →
        ¬ DropsAt x.regularCtx.serviceAccount key now t := by
  constructor
  · intro hsame key hnames hhash hdrops
    obtain ⟨a', hin, hnone⟩ := forgetIn_of_dropsAt hx hdrops
    have hlookup := hsame _ ((forget_eq hnames).trans (by rw [hin]))
    obtain ⟨p, hsome, -⟩ := hdrops
    rw [serviceAccount_setOwn, ← hhash, hnone, hsome] at hlookup
    cases hlookup
  · intro hkeeps r hforget
    rcases (forget_post r hforget).2 with hsame | ⟨-, key, a', hnames, hin, hown⟩
    · rw [hsame]
    · rw [hown, serviceAccount_setOwn]
      exact lookupPreimage_forgetIn hx hperiod ht hin fun hhash => hkeeps key hnames hhash.symm

end

/-- When a lookup for a past time keeps its answer. -/
theorem historical_lookup_iff (gas : Gas) (regs : Registers) (mem : Memory)
    (ctxPair : AccumulateContextPair) (now t : Timeslot) (h : Hash)
    (hchron : Chronological now ctxPair.regularCtx.serviceAccount)
    (hperiod : now.toNat - preimageExpulsionPeriod.toNat ≤ t.toNat) (ht : t < now) :
    (∀ r, solicit gas regs mem ctxPair now = .ret r →
      r.x.regularCtx.serviceAccount.lookupPreimage t h =
        ctxPair.regularCtx.serviceAccount.lookupPreimage t h) ∧
    ((∀ r, forget gas regs mem ctxPair now = .ret r →
      r.x.regularCtx.serviceAccount.lookupPreimage t h =
        ctxPair.regularCtx.serviceAccount.lookupPreimage t h) ↔
      ∀ key, Names gas regs mem key → key.hash = h →
        ¬ DropsAt ctxPair.regularCtx.serviceAccount key now t) :=
  ⟨fun _ hsolicit => solicit_lookupPreimage hchron ht hsolicit,
    forget_lookupPreimage_iff hchron hperiod ht⟩

def suppliedAccount (history : List Timeslot) : ServiceAccount :=
  withHistory { ServiceAccount.zero with preimageLookup := Finmap.singleton (.replicate 32 0) [7] }
    ⟨.replicate 32 0, 1⟩ history

def suppliedContext (history : List Timeslot) : AccumulateContextPair :=
  let x := { twoServices with
    accumulationState.serviceState := Finmap.singleton 1 (suppliedAccount history) }
  ⟨x, x⟩

theorem suppliedContext_chronological (h : InOrder now history) :
    Chronological now (suppliedContext history).regularCtx.serviceAccount := by
  have hzero : Chronological now
      { ServiceAccount.zero with preimageLookup := Finmap.singleton (.replicate 32 0) [7] } :=
    ⟨nofun, nofun⟩
  exact hzero.withHistory h

theorem historical_lookup_of_available :
    ∃ r, forget 100 (withArgs 0xFEFF0000 1 0 0) memoMemory (suppliedContext [10]) 100000 = .ret r ∧
      r.x.regularCtx.serviceAccount.lookupPreimage 99999 (.replicate 32 0) = some [7] := by
  have hchron : Chronological 100000 (suppliedContext [10]).regularCtx.serviceAccount :=
    suppliedContext_chronological (inOrder_singleton (by decide))
  have hbefore : (suppliedContext [10]).regularCtx.serviceAccount.lookupPreimage 99999
      (.replicate 32 0) = some [7] := by decide +kernel
  have hlen : ((withArgs 0xFEFF0000 1 0 0).get Reg.A1).toUInt32 = UInt32.ofNat [7].length := by
    decide +kernel
  obtain ⟨r, hforget⟩ : (forget 100 (withArgs 0xFEFF0000 1 0 0) memoMemory
      (suppliedContext [10]) 100000).Returns := by decide +kernel
  refine ⟨r, hforget, ?_⟩
  refine (historical_lookup_iff 100 (withArgs 0xFEFF0000 1 0 0) memoMemory (suppliedContext [10])
    100000 99999 (.replicate 32 0) hchron (by decide) (by decide)).2.mpr ?_ r hforget
  rintro key ⟨-, bytes, -, rfl⟩ hhash ⟨p, hsome, hwhy⟩
  rw [hhash, hbefore, Option.some.injEq] at hsome
  subst hsome
  split at hwhy
  · exact absurd hwhy.1 (by decide)
  · next hother => exact hother hlen

theorem forget_changes_the_past :
    (Chronological 100000 (suppliedContext [10]).regularCtx.serviceAccount ∧
      (suppliedContext [10]).regularCtx.serviceAccount.lookupPreimage 99999 (.replicate 32 0) =
        some [7] ∧
      ∃ r, forget 100 (withArgs 0xFEFF0000 2 0 0) memoMemory (suppliedContext [10]) 100000 =
          .ret r ∧
        r.x.regularCtx.serviceAccount.lookupPreimage 99999 (.replicate 32 0) = none) ∧
    (Chronological 100 (suppliedContext [10, 50]).regularCtx.serviceAccount ∧
      (suppliedContext [10, 50]).regularCtx.serviceAccount.lookupPreimage 20 (.replicate 32 0) =
        some [7] ∧
      ∃ r, forget 100 (withArgs 0xFEFF0000 1 0 0) memoMemory (suppliedContext [10, 50]) 100 =
          .ret r ∧
        r.x.regularCtx.serviceAccount.lookupPreimage 20 (.replicate 32 0) = none) := by
  have hsingle : Chronological 100000 (suppliedContext [10]).regularCtx.serviceAccount :=
    suppliedContext_chronological (inOrder_singleton (by decide))
  have hpair : Chronological 100 (suppliedContext [10, 50]).regularCtx.serviceAccount :=
    suppliedContext_chronological ⟨pairwise_pair.mpr (by decide),
      forall_mem_cons.mpr ⟨by decide, forall_mem_singleton.mpr (by decide)⟩⟩
  refine ⟨⟨hsingle, by decide +kernel, ?_⟩, hpair, by decide +kernel, ?_⟩
  · have hrun : (fun r => r.x.regularCtx.serviceAccount.lookupPreimage 99999 (.replicate 32 0)) <$>
        forget 100 (withArgs 0xFEFF0000 2 0 0) memoMemory (suppliedContext [10]) 100000 =
          .ret none := by decide +kernel
    exact map_eq_ret.mp hrun
  · have hrun : (fun r => r.x.regularCtx.serviceAccount.lookupPreimage 20 (.replicate 32 0)) <$>
        forget 100 (withArgs 0xFEFF0000 1 0 0) memoMemory (suppliedContext [10, 50]) 100 =
          .ret none := by decide +kernel
    exact map_eq_ret.mp hrun

end Strawberry.HostCall
