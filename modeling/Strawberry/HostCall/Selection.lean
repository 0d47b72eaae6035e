import Strawberry.HostCall.Refine

/-!
# The account that a call is about

`Lookup`, `Read`, `Info` and `HistoricalLookup` take the account they are about from register A0.
-/

namespace Strawberry.HostCall

open Polkavm Interpreter Service Reg

def selected (own : Option ServiceAccount) (serviceId : ServiceId) (services : ServiceState)
    (w : UInt64) : Option (ServiceId × ServiceAccount) :=
  if w = self ∨ w = serviceId.toUInt64 then own.map (serviceId, ·)
  else if w.toNat < 2 ^ 32 then (services.lookup w.toUInt32).map (w.toUInt32, ·)
  else none

def absent {X : Type} (x : X) (failing : Option X) (gas : Gas) (regs : Registers) (mem : Memory) :
    HostResult X :=
  match failing with
  | none => ⟨gas, withCode regs .none, mem, x, none⟩
  | some y => ⟨gas, regs, mem, y, some (.panic .accountNotFound)⟩

def selecting {X : Type} (x : X) (failing : Option X)
    (found : UInt64 → Option (ServiceId × ServiceAccount))
    (act : ServiceId × ServiceAccount → Gas → Registers → Memory → Outcome (HostResult X))
    (gas : Gas) (regs : Registers) (mem : Memory) : Outcome (HostResult X) :=
  charged callCost gas regs mem x fun gas =>
    match found (regs.get A0) with
    | none => .ret (absent x failing gas regs mem)
    | some p => act p gas regs mem

def Right {X : Type} (failing : Option X) (found target : Option (ServiceId × ServiceAccount)) :
    Prop :=
  found = target ∧ (found = none → failing = none)

theorem toUInt64_lt (id : ServiceId) : id.toUInt64.toNat < 2 ^ 32 := id.toNat_lt

theorem self_ge : ¬ self.toNat < 2 ^ 32 := by decide

theorem eq_toUInt64_iff {w : UInt64} {id : ServiceId} (hw : w.toNat < 2 ^ 32) :
    w = id.toUInt64 ↔ w.toUInt32 = id := by
  rw [← UInt64.toNat_inj, ← UInt32.toNat_inj, UInt64.toNat_toUInt32, UInt32.toNat_toUInt64,
    Nat.mod_eq_of_lt hw]

variable {own : Option ServiceAccount} {sid : ServiceId} {services : ServiceState}
  {w : UInt64}

theorem selected_self : selected own sid services self = own.map (sid, ·) := if_pos (.inl rfl)

theorem selected_of_lt (hw : w.toNat < 2 ^ 32) : selected (services.lookup sid) sid services w =
      (services.lookup w.toUInt32).map (w.toUInt32, ·) := by
  unfold selected
  split
  · next h =>
    have hid : w.toUInt32 = sid := by
      rcases h with rfl | h
      · exact absurd hw self_ge
      · exact (eq_toUInt64_iff hw).mp h
    rw [hid]
  · rfl

theorem selected_of_ge (hself : w ≠ self) (hw : ¬ w.toNat < 2 ^ 32) :
    selected own sid services w = none := by
  have hid : w ≠ sid.toUInt64 := by
    rintro rfl
    exact hw (toUInt64_lt sid)
  rw [selected, if_neg (not_or.mpr ⟨hself, hid⟩), if_neg hw]

section

variable (gas : Gas) (regs : Registers) (mem : Memory)

def lookupIn (a : ServiceAccount) : Outcome (HostResult Unit) := do
  match ← mem.read (regs.get A1) 32 with
  | .error e => return ⟨gas, regs, mem, (), some (.panicOf e)⟩
  | .ok key =>
    match a.preimageLookup.lookup (hashOf key) with
    | none => return ⟨gas, withCode regs .none, mem, (), none⟩
    | some v =>
      match ← writeFromOffset mem (regs.get A2) v (regs.get A3) (regs.get A4) with
      | .error e => return ⟨gas, regs, mem, (), some e⟩
      | .ok mem => return ⟨gas, regs.set A0 (UInt64.ofNat v.length), mem, (), none⟩

def readIn (H : HashData) (ss : ServiceId) (a : ServiceAccount) : Outcome (HostResult Unit) := do
  let kz := regs.get A2
  makeCheck 1 kz.toNat
  match ← mem.read (regs.get A1) kz with
  | .error e => return ⟨gas, regs, mem, (), some (.panicOf e)⟩
  | .ok keyData =>
    match a.storage.lookup (storageKey H ss keyData) with
    | none => return ⟨gas, withCode regs .none, mem, (), none⟩
    | some v =>
      match ← writeFromOffset mem (regs.get A3) v (regs.get A4) (regs.get A5) with
      | .error e => return ⟨gas, regs, mem, (), some e⟩
      | .ok mem => return ⟨gas, regs.set A0 (UInt64.ofNat v.length), mem, (), none⟩

def infoOf (t : ServiceAccount) : Outcome (HostResult Unit) := do
  match ← mem.write (regs.get A1) (encodeAccountInfo t) with
  | .error e => return ⟨gas, regs, mem, (), some (.panicOf e)⟩
  | .ok mem => return ⟨gas, withCode regs .ok, mem, (), none⟩

def historicalLookupIn (ctxPair : RefineContextPair) (t : Timeslot) (a : ServiceAccount) :
    RefineResult := do
  match ← mem.read (regs.get A1) 32 with
  | .error e => return ⟨gas, regs, mem, ctxPair, some (.panicOf e)⟩
  | .ok hashData =>
    match (a.lookupPreimage t (hashOf hashData)).getD [] with
    | [] => return ⟨gas, withCode regs .none, mem, ctxPair, none⟩
    | v =>
      match ← writeFromOffset mem (regs.get A2) v (regs.get A3) (regs.get A4) with
      | .error e => return ⟨gas, regs, mem, ctxPair, some e⟩
      | .ok mem => return ⟨gas, regs.set A0 (UInt64.ofNat v.length), mem, ctxPair, none⟩

variable (H : HashData) (s : ServiceAccount) (sid : ServiceId)
  (services : ServiceState) (ctxPair : RefineContextPair) (t : Timeslot)

def foundByLookup (w : UInt64) : Option (ServiceId × ServiceAccount) :=
  if w ≠ self ∧ w ≠ sid.toUInt64 then (services.lookup sid).map (sid, ·)
  else some (sid, s)

def foundByRead (w : UInt64) : Option (ServiceId × ServiceAccount) :=
  let ss := if w = self then sid else w.toUInt32
  if ss ≠ sid then (services.lookup ss).map (ss, ·) else some (ss, s)

def foundInState (w : UInt64) : Option (ServiceId × ServiceAccount) :=
  let id := if w = self then sid else w.toUInt32
  (services.lookup id).map (id, ·)

theorem lookup_selecting : lookup gas regs mem s sid services =
      selecting () none (foundByLookup s sid services)
        (fun p gas regs mem => lookupIn gas regs mem p.2) gas regs mem := by
  unfold lookup selecting charged foundByLookup
  by_cases hgas : gas < callCost
  · rw [if_pos hgas, if_pos hgas]
  · by_cases hother : regs.get A0 ≠ self ∧ regs.get A0 ≠ sid.toUInt64
    · simp only [if_pos hother]
      cases services.lookup sid <;> rfl
    · simp only [if_neg hother]
      rfl

theorem read_selecting : read H gas regs mem s sid services =
      selecting () (some ()) (foundByRead s sid services)
        (fun p gas regs mem => readIn gas regs mem H p.1 p.2) gas regs mem := by
  unfold read selecting charged foundByRead
  by_cases hgas : gas < callCost
  · rw [if_pos hgas, if_pos hgas]
  · simp only
    generalize (if regs.get A0 = self then sid else (regs.get A0).toUInt32) = ss
    by_cases hother : ss ≠ sid
    · simp only [if_pos hother]
      cases services.lookup ss <;> rfl
    · simp only [if_neg hother]
      rfl

theorem info_selecting : info gas regs mem sid services =
      selecting () none (foundInState sid services)
        (fun p gas regs mem => infoOf gas regs mem p.2) gas regs mem := by
  unfold info selecting charged foundInState
  by_cases hgas : gas < callCost
  · rw [if_pos hgas, if_pos hgas]
  · have hid : (if regs.get A0 ≠ self then (regs.get A0).toUInt32 else sid) =
        if regs.get A0 = self then sid else (regs.get A0).toUInt32 := by
      by_cases hself : regs.get A0 = self <;> simp [hself]
    simp only
    rw [hid]
    generalize (if regs.get A0 = self then sid else (regs.get A0).toUInt32) = id
    cases services.lookup id <;> rfl

theorem historicalLookup_selecting : historicalLookup gas regs mem ctxPair sid services t =
      selecting ctxPair (some .zero) (foundInState sid services)
        (fun p gas regs mem => historicalLookupIn gas regs mem ctxPair t p.2) gas regs mem := by
  unfold historicalLookup selecting charged foundInState
  by_cases hgas : gas < callCost
  · rw [if_pos hgas, if_pos hgas]
  · simp only
    generalize (if regs.get A0 = self then sid else (regs.get A0).toUInt32) = id
    cases services.lookup id <;> rfl

end

variable {s : ServiceAccount}

theorem foundInState_of_ne (hself : w ≠ self) : foundInState sid services w =
      (services.lookup w.toUInt32).map (w.toUInt32, ·) := by
  simp only [foundInState]
  rw [if_neg hself]

theorem lookup_right_iff : Right (none : Option Unit) (foundByLookup s sid services w)
        (selected (some s) sid services w) ↔
      w = self ∨ w = sid.toUInt64 ∨ services.lookup sid = none ∧
        selected (some s) sid services w = none := by
  unfold Right foundByLookup
  by_cases hown : w = self ∨ w = sid.toUInt64
  · rw [if_neg (by tauto), selected, if_pos hown]
    tauto
  rw [if_pos (by tauto), ← or_assoc, or_iff_right hown]
  constructor
  · rintro ⟨heq, -⟩
    rw [← heq, Option.map_eq_none_iff, and_self]
    by_contra hsome
    obtain ⟨a, ha⟩ := Option.ne_none_iff_exists'.mp hsome
    rw [ha, selected, if_neg hown] at heq
    split at heq
    · next hw =>
      obtain ⟨a', -, hpair⟩ := Option.map_eq_some_iff.mp heq.symm
      exact hown (.inr ((eq_toUInt64_iff hw).mpr (congrArg Prod.fst hpair)))
    · cases heq
  · rintro ⟨hnone, hselected⟩
    rw [hnone, hselected]
    exact ⟨rfl, fun _ => rfl⟩

theorem read_right_iff : Right (some ()) (foundByRead s sid services w)
        (selected (some s) sid services w) ↔
      w = self ∨ w.toNat < 2 ^ 32 ∧ (w = sid.toUInt64 ∨ services.lookup w.toUInt32 ≠ none) := by
  by_cases hself : w = self
  · subst hself
    simp [Right, foundByRead, selected_self]
  rw [or_iff_right hself]
  by_cases hw : w.toNat < 2 ^ 32
  · by_cases hid : w = sid.toUInt64
    · have hid' := (eq_toUInt64_iff hw).mp hid
      have hfound : foundByRead s sid services w = some (sid, s) := by
        simp only [foundByRead]
        rw [if_neg hself, if_neg (not_not.mpr hid'), hid']
      rw [Right, hfound, selected, if_pos (.inr hid)]
      simp [-Nat.reducePow, hid]
    · have hid' : w.toUInt32 ≠ sid := fun h => hid ((eq_toUInt64_iff hw).mpr h)
      have hfound : foundByRead s sid services w =
          (services.lookup w.toUInt32).map (w.toUInt32, ·) := by
        simp only [foundByRead]
        rw [if_neg hself, if_pos hid']
      rw [Right, hfound, selected, if_neg (not_or.mpr ⟨hself, hid⟩), if_pos hw]
      simp [-Nat.reducePow, hw, hid]
  · have hnone : selected (some s) sid services w = none := selected_of_ge hself hw
    rw [Right, hnone]
    refine iff_of_false (fun h => ?_) fun h => hw h.1
    cases h.2 h.1

theorem info_right_iff : Right (none : Option Unit) (foundInState sid services w)
        (selected (services.lookup sid) sid services w) ↔
      w = self ∨ w.toNat < 2 ^ 32 ∨ services.lookup w.toUInt32 = none := by
  by_cases hself : w = self
  · subst hself
    simp [Right, selected_self, foundInState]
  rw [or_iff_right hself, Right, foundInState_of_ne hself]
  by_cases hw : w.toNat < 2 ^ 32
  · simp [-Nat.reducePow, selected_of_lt hw, hw]
  · simp [-Nat.reducePow, selected_of_ge hself hw, hw]

theorem historicalLookup_right_iff :
    Right (some RefineContextPair.zero) (foundInState sid services w)
        (selected (services.lookup sid) sid services w) ↔
      w = self ∧ services.lookup sid ≠ none ∨
        w.toNat < 2 ^ 32 ∧ services.lookup w.toUInt32 ≠ none := by
  by_cases hself : w = self
  · subst hself
    simp [-Nat.reducePow, Right, selected_self, foundInState, self_ge]
  rw [Right, foundInState_of_ne hself]
  by_cases hw : w.toNat < 2 ^ 32
  · simp [-Nat.reducePow, selected_of_lt hw, hself, hw]
  · simp [-Nat.reducePow, selected_of_ge hself hw, hself, hw]

/-- When the calls act on the account that the register selects. -/
theorem account_selection_iff (H : HashData) (s : ServiceAccount) (sid : ServiceId)
    (services : ServiceState) (ctxPair : RefineContextPair) (t : Timeslot) :
    (∀ gas regs mem, lookup gas regs mem s sid services =
      selecting () none (foundByLookup s sid services)
        (fun p gas regs mem => lookupIn gas regs mem p.2) gas regs mem) ∧
    (∀ gas regs mem, read H gas regs mem s sid services =
      selecting () (some ()) (foundByRead s sid services)
        (fun p gas regs mem => readIn gas regs mem H p.1 p.2) gas regs mem) ∧
    (∀ gas regs mem, info gas regs mem sid services = selecting () none (foundInState sid services)
        (fun p gas regs mem => infoOf gas regs mem p.2) gas regs mem) ∧
    (∀ gas regs mem, historicalLookup gas regs mem ctxPair sid services t =
      selecting ctxPair (some .zero) (foundInState sid services)
        (fun p gas regs mem => historicalLookupIn gas regs mem ctxPair t p.2) gas regs mem) ∧
    ∀ w : UInt64, (Right (none : Option Unit) (foundByLookup s sid services w)
          (selected (some s) sid services w) ↔
        w = self ∨ w = sid.toUInt64 ∨ services.lookup sid = none ∧
          selected (some s) sid services w = none) ∧
      (Right (some ()) (foundByRead s sid services w) (selected (some s) sid services w) ↔
        w = self ∨ w.toNat < 2 ^ 32 ∧ (w = sid.toUInt64 ∨ services.lookup w.toUInt32 ≠ none)) ∧
      (Right (none : Option Unit) (foundInState sid services w)
          (selected (services.lookup sid) sid services w) ↔
        w = self ∨ w.toNat < 2 ^ 32 ∨ services.lookup w.toUInt32 = none) ∧
      (Right (some RefineContextPair.zero) (foundInState sid services w)
          (selected (services.lookup sid) sid services w) ↔
        w = self ∧ services.lookup sid ≠ none ∨
          w.toNat < 2 ^ 32 ∧ services.lookup w.toUInt32 ≠ none) :=
  ⟨fun _ _ _ => lookup_selecting .., fun _ _ _ => read_selecting .., fun _ _ _ => info_selecting ..,
    fun _ _ _ => historicalLookup_selecting .., fun _ =>
      ⟨lookup_right_iff, read_right_iff, info_right_iff, historicalLookup_right_iff⟩⟩

def onlyTwo : ServiceState := Finmap.singleton 2 .zero

def asking (w : UInt64) : Registers := #v[0, 0, 0, 0, 0, 0, 0, w, 0, 0, 0, 0, 0]

theorem calls_select_differently : selected (some .zero) 1 onlyTwo 2 = some (2, .zero) ∧
      lookup callCost (asking 2) Memory.emptyLayout .zero 1 onlyTwo =
        .ret ⟨0, withCode (asking 2) .none, Memory.emptyLayout, (), none⟩ ∧
      lookupIn 0 (asking 2) Memory.emptyLayout .zero =
        .ret ⟨0, asking 2, Memory.emptyLayout, (),
          some (.panicOf (.panic .forbiddenMemoryAccess))⟩ ∧
      selected (some .zero) 1 onlyTwo 7 = none ∧
      read (fun _ => .replicate 32 0) callCost (asking 7) Memory.emptyLayout .zero 1 onlyTwo =
        .ret ⟨0, asking 7, Memory.emptyLayout, (), some (.panic .accountNotFound)⟩ ∧
      historicalLookup callCost (asking 7) Memory.emptyLayout .zero 1 onlyTwo 0 =
        .ret ⟨0, asking 7, Memory.emptyLayout, .zero, some (.panic .accountNotFound)⟩ ∧
      selected (onlyTwo.lookup 1) 1 onlyTwo 0x100000002 = none ∧
      info callCost (asking 0x100000002) Memory.emptyLayout 1 onlyTwo =
        .ret ⟨0, asking 0x100000002, Memory.emptyLayout, (),
          some (.panicOf (.panic .forbiddenMemoryAccess))⟩ :=
  ⟨rfl, rfl, rfl, rfl, rfl, rfl, rfl, rfl⟩

end Strawberry.HostCall
