import Strawberry.Lib.MapStore
import Strawberry.StateTransition.Installed

/-!
# Integrating preimages

`CalculateIntermediateServiceState` reads the accs of the given state and writes into a shallow
clone of it.
-/

namespace Strawberry.StateTransition

open Block Service State Constants List Finmap Option GoMap

variable (H : HashData)

namespace Shared

structure Account where
  storage : GoMap Hash (List UInt8)
  preimageLookup : MapRef
  preimageMeta : MapRef
  codeHash : Hash
  balance : UInt64
  gasLimitForAccumulator : UInt64
  gasLimitOnTransfer : UInt64

structure Memory where
  lookups : MapStore Hash (List UInt8)
  metas : MapStore PreImageMetaKey (List Timeslot)

abbrev Accounts := GoMap ServiceId Account

def Account.view (mem : Memory) (account : Account) : ServiceAccount where
  storage := account.storage
  preimageLookup := mem.lookups.view account.preimageLookup
  preimageMeta := mem.metas.view account.preimageMeta
  codeHash := account.codeHash
  balance := account.balance
  gasLimitForAccumulator := account.gasLimitForAccumulator
  gasLimitOnTransfer := account.gasLimitOnTransfer

def view (mem : Memory) (accounts : Accounts) : ServiceState :=
  accounts.mapValues fun account => account.view mem

def Account.store (mem : Memory) (account : Account) (preimage : Preimage)
    (newTimeslot : Timeslot) : Memory × Account :=
  let lookups := mem.lookups.put account.preimageLookup (H preimage.data) preimage.data
  let metas := mem.metas.put account.preimageMeta (metaKeyOf H preimage) [newTimeslot]
  (⟨lookups.1, metas.1⟩,
    { account with preimageLookup := some lookups.2, preimageMeta := some metas.2 })

def storePreimage (serviceState : Accounts) (newTimeslot : Timeslot) (st : Memory × Accounts)
    (preimage : Preimage) : Memory × Accounts :=
  let solicited := preimageHasBeenSolicited (view st.1 serviceState) preimage.serviceIndex
    (metaKeyOf H preimage)
  if !solicited then st
  else if !solicited then st
  else
    match serviceState.lookup preimage.serviceIndex with
    | none => st
    | some account =>
      let stored := account.store H st.1 preimage newTimeslot
      (stored.1, st.2.insert preimage.serviceIndex stored.2)

def calculateIntermediateServiceState (preimages : List Preimage) (serviceState : Accounts)
    (newTimeslot : Timeslot) (mem : Memory) : Memory × Accounts :=
  preimages.foldl (storePreimage H serviceState newTimeslot) (mem, serviceState)

def Memory.Holds (mem : Memory) (account : Account) : Prop :=
  mem.lookups.Valid account.preimageLookup ∧ mem.metas.Valid account.preimageMeta

def Account.Apart (a b : Account) : Prop :=
  (∀ i ∈ a.preimageLookup, b.preimageLookup ≠ some i) ∧
    ∀ i ∈ a.preimageMeta, b.preimageMeta ≠ some i

structure WellFormed (mem : Memory) (accounts : Accounts) : Prop where
  holds : ∀ id a, accounts.lookup id = some a → mem.Holds a
  apart : ∀ id id' a b, accounts.lookup id = some a → accounts.lookup id' = some b → id ≠ id' →
    a.Apart b

end Shared

structure Sharing where
  lookups : ServiceId → Bool
  metas : ServiceId → Bool

def Shared.sharingOf (accounts : Shared.Accounts) : Sharing where
  lookups id := ((accounts.lookup id).bind Shared.Account.preimageLookup).isSome
  metas id := ((accounts.lookup id).bind Shared.Account.preimageMeta).isSome

structure Sharing.Fits (sharing : Sharing) (services : ServiceState) : Prop where
  lookups : ∀ id account, services.lookup id = some account → sharing.lookups id = false →
    account.preimageLookup = ∅
  metas : ∀ id account, services.lookup id = some account → sharing.metas id = false →
    account.preimageMeta = ∅

/-- What the loop is given besides the accounts. -/
structure Setting extends Sharing where
  H : HashData
  timeslot : Timeslot

/-- The accounts of the given state and of the clone, as they read. -/
structure Views where
  given : ServiceState
  new : ServiceState

def Solicited (services : ServiceState) (preimage : Preimage) : Prop :=
  preimageHasBeenSolicited services preimage.serviceIndex (metaKeyOf H preimage) = true

instance (services : ServiceState) (preimage : Preimage) :
    Decidable (Solicited H services preimage) :=
  inferInstanceAs (Decidable (_ = true))

namespace Setting

variable (c : Setting)

def key (preimage : Preimage) : PreImageMetaKey := metaKeyOf c.H preimage

def copy (account : ServiceAccount) (preimage : Preimage) : ServiceAccount :=
  withPreimage c.H account preimage c.timeslot

def seen (account : ServiceAccount) (preimage : Preimage) : ServiceAccount :=
  { account with
    preimageLookup :=
      if c.lookups preimage.serviceIndex then (c.copy account preimage).preimageLookup
      else account.preimageLookup
    preimageMeta :=
      if c.metas preimage.serviceIndex then (c.copy account preimage).preimageMeta
      else account.preimageMeta }

def stored (v : Views) (account : ServiceAccount) (preimage : Preimage) : Views where
  given := v.given.insert preimage.serviceIndex (c.seen account preimage)
  new := v.new.insert preimage.serviceIndex (c.copy account preimage)

abbrev Asks (v : Views) (preimage : Preimage) : Prop := Solicited c.H v.given preimage

def step (v : Views) (preimage : Preimage) : Views :=
  if c.Asks v preimage then
    match v.given.lookup preimage.serviceIndex with
    | none => v
    | some account => c.stored v account preimage
  else v

def run (preimages : List Preimage) (services : ServiceState) : Views :=
  preimages.foldl c.step ⟨services, services⟩

end Setting

section

variable {H} {c : Setting} {timeslot : Timeslot} {services : ServiceState}
  {ps : List Preimage} {v : Views} {p q : Preimage}

theorem solicited_iff : Solicited H services p ↔
      ∃ account, services.lookup p.serviceIndex = some account ∧ H p.data ∉ account.preimageLookup ∧
        account.preimageMeta.getD (metaKeyOf H p) [] = [] :=
  preimageHasBeenSolicited_iff

theorem Setting.step_of_not (h : ¬ c.Asks v p) : c.step v p = v := if_neg h

theorem Setting.step_of_asks {account : ServiceAccount} (h : c.Asks v p)
    (hacc : v.given.lookup p.serviceIndex = some account) :
    c.step v p = c.stored v account p := by
  rw [step, if_pos h, hacc]

namespace Shared

def setting (H : HashData) (timeslot : Timeslot) (accounts : Accounts) : Setting :=
  ⟨sharingOf accounts, H, timeslot⟩

variable {mem : Memory} {a b : Account} {accs : Accounts} {id : ServiceId}
  {st : Memory × Accounts}

theorem lookup_view : (view mem accs).lookup id = (accs.lookup id).map (Account.view mem) :=
  lookup_mapValues

theorem view_store (h : mem.Holds a) :
    (a.store H mem p timeslot).2.view (a.store H mem p timeslot).1 =
      withPreimage H (a.view mem) p timeslot := by
  unfold Account.store Account.view withPreimage
  simp only [MapStore.view_put h.1, MapStore.view_put h.2]

theorem view_store_given (h : mem.Holds a) (ha : accs.lookup p.serviceIndex = some a) :
    a.view (a.store H mem p timeslot).1 = (setting H timeslot accs).seen (a.view mem) p := by
  unfold Account.store Account.view Setting.seen setting sharingOf
  simp only [MapStore.view_put_old h.1, MapStore.view_put_old h.2, ha, bind_some]
  rfl

theorem view_store_of_apart (h : mem.Holds b) (hapart : a.Apart b) :
    b.view (a.store H mem p timeslot).1 = b.view mem := by
  unfold Account.store Account.view
  simp only [MapStore.view_put_of_apart h.1 hapart.1, MapStore.view_put_of_apart h.2 hapart.2]

theorem Memory.Holds.store (h : mem.Holds b) : (a.store H mem p timeslot).1.Holds b :=
  ⟨h.1.put, h.2.put⟩

theorem holds_store (h : mem.Holds a) :
    (a.store H mem p timeslot).1.Holds (a.store H mem p timeslot).2 :=
  ⟨MapStore.valid_put h.1, MapStore.valid_put h.2⟩

theorem apart_store (h : mem.Holds b) (hapart : a.Apart b) :
    b.Apart (a.store H mem p timeslot).2 := by
  constructor
  · rintro i hi ⟨⟩
    exact MapStore.put_apart h.1 hapart.1 hi
  · rintro i hi ⟨⟩
    exact MapStore.put_apart h.2 hapart.2 hi

/-- The maps in memory read as the views, and no account writes into another's. -/
structure Represents (accounts : Accounts) (st : Memory × Accounts) (v : Views) : Prop where
  given : view st.1 accounts = v.given
  new : view st.1 st.2 = v.new
  wellFormed : WellFormed st.1 accounts
  holds : ∀ id b, st.2.lookup id = some b → st.1.Holds b
  apart : ∀ id id' a b, accounts.lookup id = some a → st.2.lookup id' = some b → id ≠ id' →
    a.Apart b

theorem view_insert {mem' : Memory}
    (hother : ∀ id' b, accs.lookup id' = some b → id' ≠ id → b.view mem' = b.view mem) :
    view mem' (accs.insert id a) = (view mem accs).insert id (a.view mem') := by
  apply ext_lookup
  intro id'
  rw [lookup_view]
  by_cases hid : id' = id
  · rw [hid, lookup_insert, lookup_insert, map_some]
  · rw [lookup_insert_of_ne _ hid, lookup_insert_of_ne _ hid, lookup_view]
    cases hb : accs.lookup id' with
    | none => rfl
    | some b => rw [map_some, map_some, hother id' b hb hid]

theorem storePreimage_of_not (h : ¬ Solicited H (view st.1 accs) p) :
    storePreimage H accs timeslot st p = st := by
  unfold storePreimage
  rw [Bool.eq_false_iff.mpr h]
  rfl

theorem storePreimage_of_solicited (h : Solicited H (view st.1 accs) p)
    (ha : accs.lookup p.serviceIndex = some a) :
    storePreimage H accs timeslot st p = ((a.store H st.1 p timeslot).1,
        st.2.insert p.serviceIndex (a.store H st.1 p timeslot).2) := by
  unfold Solicited at h
  unfold storePreimage
  rw [h, ha]
  rfl

theorem Represents.step (h : Represents accs st v) :
    Represents accs (storePreimage H accs timeslot st p)
      ((setting H timeslot accs).step v p) := by
  by_cases hasks : Solicited H v.given p
  · obtain ⟨account, hacc, -⟩ := solicited_iff.mp hasks
    rw [Setting.step_of_asks hasks hacc]
    rw [← h.given] at hasks
    rw [← h.given, lookup_view, map_eq_some_iff] at hacc
    obtain ⟨a, ha, rfl⟩ := hacc
    rw [storePreimage_of_solicited hasks ha]
    have hholds := h.wellFormed.holds _ _ ha
    have hgiven : ∀ id b, accs.lookup id = some b → id ≠ p.serviceIndex → a.Apart b :=
      fun id b hb hne => h.wellFormed.apart _ _ _ _ ha hb hne.symm
    refine ⟨?_, ?_, ⟨?_, h.wellFormed.apart⟩, ?_, ?_⟩
    · -- the given state keeps its references, also in the account that is copied
      rw [Setting.stored, ← h.given, ← view_store_given hholds ha]
      conv_lhs => rw [← insert_of_lookup ha]
      exact view_insert fun id b hb hne =>
        view_store_of_apart (h.wellFormed.holds id b hb) (hgiven id b hb hne)
    · rw [Setting.stored, ← h.new, Setting.copy, setting, ← view_store hholds]
      exact view_insert fun id b hb hne =>
        view_store_of_apart (h.holds id b hb) (h.apart _ _ _ _ ha hb hne.symm)
    · intro id b hb
      exact (h.wellFormed.holds id b hb).store
    · intro id b hb
      rcases lookup_insert_eq_some.mp hb with ⟨-, rfl⟩ | ⟨-, hb⟩
      · exact holds_store hholds
      · exact (h.holds id b hb).store
    · intro id id' b c hb hc hne
      rcases lookup_insert_eq_some.mp hc with ⟨rfl, rfl⟩ | ⟨-, hc⟩
      · exact apart_store (h.wellFormed.holds id b hb) (hgiven id b hb hne)
      · exact h.apart id id' b c hb hc hne
  · rw [Setting.step_of_not hasks]
    rw [← h.given] at hasks
    rwa [storePreimage_of_not hasks]

theorem represents_run (h : WellFormed mem accs) (ps : List Preimage) :
    Represents accs (calculateIntermediateServiceState H ps accs timeslot mem)
      ((setting H timeslot accs).run ps (view mem accs)) := by
  have hrun : ∀ st v, Represents accs st v →
      Represents accs (ps.foldl (storePreimage H accs timeslot) st)
        (ps.foldl (setting H timeslot accs).step v) := by
    induction ps with
    | nil => exact fun st v hst => hst
    | cons p ps ih => exact fun st v hst => ih _ _ hst.step
  exact hrun _ _ ⟨rfl, rfl, h, h.holds, h.apart⟩

theorem sharingOf_fits (mem : Memory) (accs : Accounts) :
    (sharingOf accs).Fits (view mem accs) := by
  constructor
  all_goals
    intro id account hacc hnil
    rw [lookup_view, map_eq_some_iff] at hacc
    obtain ⟨a, ha, rfl⟩ := hacc
    simp only [sharingOf, ha, bind_some, isSome_eq_false_iff, isNone_iff_eq_none] at hnil
    rw [Account.view, hnil, MapStore.view_nil]

end Shared

namespace Setting

/-- What holds at the start and after every preimage that is stored, holds at the end. -/
theorem foldl_rule {P : Views → Prop} (hstart : P v)
    (hstored : ∀ v, P v → ∀ q ∈ ps, ∀ account, v.given.lookup q.serviceIndex = some account →
      c.Asks v q → P (c.stored v account q)) :
    P (ps.foldl c.step v) := by
  refine List.foldlRecOn ps _ hstart ?_
  intro v hv q hq
  by_cases hasks : c.Asks v q
  · obtain ⟨account, hacc, -⟩ := solicited_iff.mp hasks
    rw [step_of_asks hasks hacc]
    exact hstored v hv q hq account hacc hasks
  · rwa [step_of_not hasks]

theorem run_append (earlier later : List Preimage) :
    c.run (earlier ++ later) services = later.foldl c.step (c.run earlier services) :=
  foldl_append

variable {account : ServiceAccount}

theorem given_stored {a : ServiceAccount}
    (h : (c.stored v account q).given.lookup q.serviceIndex = some a) : c.seen account q = a :=
  Option.some.inj ((lookup_insert _).symm.trans h)

theorem seen_lookup_of_ne {h : Hash} (hne : h ≠ c.H q.data) :
    (c.seen account q).preimageLookup.lookup h = account.preimageLookup.lookup h := by
  simp only [seen, copy, withPreimage]
  split
  · exact lookup_insert_of_ne _ hne
  · rfl

theorem seen_meta_of_ne {key : PreImageMetaKey} (hne : key ≠ c.key q) :
    (c.seen account q).preimageMeta.lookup key = account.preimageMeta.lookup key := by
  simp only [seen, copy, withPreimage]
  split
  · exact lookup_insert_of_ne _ hne
  · rfl

theorem seen_lookup (hshared : c.lookups q.serviceIndex = true) :
    (c.seen account q).preimageLookup.lookup (c.H q.data) = some q.data := by
  simp only [seen, hshared, if_true]
  exact lookup_insert _

theorem seen_meta (hshared : c.metas q.serviceIndex = true) :
    (c.seen account q).preimageMeta.lookup (c.key q) = some [c.timeslot] := by
  simp only [seen, hshared, if_true]
  exact lookup_insert _

theorem asks_of_stored (hacc : v.given.lookup q.serviceIndex = some account)
    (h : c.Asks (c.stored v account q) p) : c.Asks v p := by
  obtain ⟨a, ha, hget, hmeta⟩ := solicited_iff.mp h
  rw [Asks, solicited_iff]
  rcases lookup_insert_eq_some.mp ha with ⟨hid, rfl⟩ | ⟨-, ha⟩
  · refine ⟨account, hid ▸ hacc, fun hmem => hget ?_, ?_⟩
    · simp only [seen, copy, withPreimage]
      split
      · exact mem_insert.mpr (.inr hmem)
      · exact hmem
    · by_cases hkey : c.key p = c.key q
      · rw [← key, hkey] at hmeta ⊢
        by_cases hshared : c.metas q.serviceIndex = true
        · rw [getD_of_lookup (seen_meta hshared)] at hmeta
          cases hmeta
        · simpa [seen, hshared] using hmeta
      · rw [GoMap.getD, ← key, seen_meta_of_ne hkey] at hmeta
        exact hmeta
  · exact ⟨a, ha, hget, hmeta⟩

theorem not_asks_stored
    (hshared : c.lookups q.serviceIndex = true ∨ c.metas q.serviceIndex = true) :
    ¬ c.Asks (c.stored v account q) q := by
  intro h
  obtain ⟨a, ha, hget, hmeta⟩ := solicited_iff.mp h
  obtain rfl := given_stored ha
  rcases hshared with hshared | hshared
  · exact hget (mem_iff.mpr ⟨_, seen_lookup hshared⟩)
  · rw [← key, getD_of_lookup (seen_meta hshared)] at hmeta
    cases hmeta

theorem key_ne (hne : c.H p.data ≠ c.H q.data) : c.key p ≠ c.key q :=
  fun heq => hne (congrArg PreImageMetaKey.hash heq)

theorem asks_stored (hacc : v.given.lookup q.serviceIndex = some account)
    (hne : p.serviceIndex = q.serviceIndex → c.H p.data ≠ c.H q.data)
    (h : c.Asks v p) : c.Asks (c.stored v account q) p := by
  obtain ⟨a, ha, hget, hmeta⟩ := solicited_iff.mp h
  rw [Asks, solicited_iff, stored]
  by_cases hid : p.serviceIndex = q.serviceIndex
  · rw [hid, hacc] at ha
    obtain rfl := Option.some.inj ha
    refine ⟨_, by rw [hid, lookup_insert], ?_, ?_⟩
    · rw [← lookup_eq_none, seen_lookup_of_ne (hne hid), lookup_eq_none]
      exact hget
    · rw [GoMap.getD, ← key, seen_meta_of_ne (key_ne (hne hid))]
      exact hmeta
  · exact ⟨a, (lookup_insert_of_ne _ hid).trans ha, hget, hmeta⟩

theorem asks_of_run (h : c.Asks (c.run ps services) p) : Solicited c.H services p := by
  revert h
  refine foldl_rule (P := fun v => c.Asks v p → Solicited c.H services p) id ?_
  intro v hv q _ account hacc _ h
  exact hv (asks_of_stored hacc h)

end Setting

def DistinctHashes (H : HashData) (preimages : List Preimage) : Prop :=
  ∀ p ∈ preimages, ∀ q ∈ preimages, p.serviceIndex = q.serviceIndex → H p.data = H q.data → p = q

theorem exists_round (c : Setting) (hdist : DistinctHashes c.H ps)
    (hp : p ∈ ps) (h : Solicited c.H services p) :
    ∃ (v : Views) (account : ServiceAccount) (later : List Preimage),
      (∀ q, c.Asks v q → Solicited c.H services q) ∧
      v.given.lookup p.serviceIndex = some account ∧ later ⊆ ps ∧
      c.run ps services = later.foldl c.step (c.stored v account p) := by
  obtain ⟨earlier, later, rfl, hfirst⟩ := eq_append_cons_of_mem hp
  have hstill : c.Asks (c.run earlier services) p := by
    refine Setting.foldl_rule (P := fun v => c.Asks v p) h ?_
    intro v hv q hq account hacc _
    refine Setting.asks_stored hacc ?_ hv
    intro hid hhash
    exact hfirst (hdist p hp q (mem_append_left _ hq) hid hhash ▸ hq)
  obtain ⟨account, hacc, -⟩ := solicited_iff.mp hstill
  refine ⟨_, account, later, fun q hq => Setting.asks_of_run hq, hacc, ?_, ?_⟩
  · exact fun q hq => mem_append_right _ (mem_cons_of_mem _ hq)
  · rw [Setting.run_append, foldl_cons, Setting.step_of_asks hstill hacc]

theorem given_eq_iff : (c.run ps services).given = services ↔ ∀ p ∈ ps, Solicited c.H services p →
        c.lookups p.serviceIndex = false ∧ c.metas p.serviceIndex = false := by
  constructor
  · intro hsame p hp hsolicited
    by_contra hnone
    rw [not_and_or, Bool.not_eq_false, Bool.not_eq_false] at hnone
    obtain ⟨earlier, later, rfl⟩ := append_of_mem hp
    have hround : ¬ c.Asks (c.step (c.run earlier services) p) p := by
      by_cases h : c.Asks (c.run earlier services) p
      · obtain ⟨account, hacc, -⟩ := solicited_iff.mp h
        rw [Setting.step_of_asks h hacc]
        exact Setting.not_asks_stored hnone
      · rwa [Setting.step_of_not h]
    have hend : ¬ c.Asks (c.run (earlier ++ p :: later) services) p := by
      rw [Setting.run_append, foldl_cons]
      refine Setting.foldl_rule (P := fun v => ¬ c.Asks v p) hround ?_
      intro v hv q _ account hacc _ h
      exact hv (Setting.asks_of_stored hacc h)
    rw [Setting.Asks, hsame] at hend
    exact hend hsolicited
  · intro hnil
    refine Setting.foldl_rule (P := fun v => v.given = services) rfl ?_
    rintro v rfl q hq account hacc hasks
    obtain ⟨hlookups, hmetas⟩ := hnil q hq hasks
    have hseen : c.seen account q = account := by
      simp [Setting.seen, hlookups, hmetas]
    rw [Setting.stored, hseen, insert_of_lookup hacc]

/-- The accounts differ only in the entries of the preimages that are touched. -/
structure AgreeBut (H : HashData) (touched : Preimage → Prop)
    (before after : ServiceAccount) : Prop where
  rest : { after with
    preimageLookup := before.preimageLookup, preimageMeta := before.preimageMeta } = before
  lookups : ∀ h, (∀ p, touched p → h ≠ H p.data) →
    after.preimageLookup.lookup h = before.preimageLookup.lookup h
  metas : ∀ key, (∀ p, touched p → key ≠ metaKeyOf H p) →
    after.preimageMeta.lookup key = before.preimageMeta.lookup key

structure OthersKept (H : HashData) (preimages : List Preimage)
    (before after : ServiceState) : Prop where
  missing : ∀ id, before.lookup id = none → after.lookup id = none
  accounts : ∀ id account, before.lookup id = some account →
    ∃ account', after.lookup id = some account' ∧
      AgreeBut H (fun p => p ∈ preimages ∧ p.serviceIndex = id ∧
        Requested H before p) account account'

/-- Every requested preimage is provided, and nothing else has changed. -/
structure Integrated (H : HashData) (timeslot : Timeslot) (preimages : List Preimage)
    (before after : ServiceState) : Prop where
  answered : ∀ p ∈ preimages, Requested H before p → Provided H timeslot after p
  others : OthersKept H preimages before after

section

variable {touched : Preimage → Prop} {a b account : ServiceAccount} {after : ServiceState}

theorem AgreeBut.copy (h : AgreeBut c.H touched a b) (hq : touched q) :
    AgreeBut c.H touched a (c.copy b q) where
  rest := h.rest
  lookups k hk := (lookup_insert_of_ne _ (hk q hq)).trans (h.lookups k hk)
  metas k hk := (lookup_insert_of_ne _ (hk q hq)).trans (h.metas k hk)

theorem AgreeBut.seen (h : AgreeBut c.H touched a b) (hq : touched q) :
    AgreeBut c.H touched a (c.seen b q) where
  rest := h.rest
  lookups k hk := (Setting.seen_lookup_of_ne (hk q hq)).trans (h.lookups k hk)
  metas k hk := (Setting.seen_meta_of_ne (hk q hq)).trans (h.metas k hk)

theorem OthersKept.refl : OthersKept H ps services services where
  missing _ h := h
  accounts _ account h := ⟨account, h, rfl, fun _ _ => rfl, fun _ _ => rfl⟩

variable {id : ServiceId}

theorem OthersKept.insert (h : OthersKept H ps services after) (hid : services.lookup id = some a)
    (hagree : AgreeBut H (fun p => p ∈ ps ∧ p.serviceIndex = id ∧ Requested H services p) a b) :
    OthersKept H ps services (after.insert id b) where
  missing id' hnone := by
    have hne : id' ≠ id := by
      rintro rfl
      rw [hid] at hnone
      cases hnone
    rw [lookup_insert_of_ne _ hne]
    exact h.missing id' hnone
  accounts id' account' haccount' := by
    by_cases hne : id' = id
    · subst hne
      obtain rfl := Option.some.inj (hid.symm.trans haccount')
      exact ⟨b, lookup_insert _, hagree⟩
    · rw [lookup_insert_of_ne _ hne]
      exact h.accounts id' account' haccount'

section

variable (hreq : ∀ p ∈ ps, Solicited c.H services p →
  Requested c.H services p)

include hreq

theorem run_othersKept : OthersKept c.H ps services (c.run ps services).new := by
  refine (Setting.foldl_rule (P := fun v => (∀ p, c.Asks v p → Solicited c.H services p) ∧
    OthersKept c.H ps services v.given ∧ OthersKept c.H ps services v.new) ?_ ?_).2.2
  · exact ⟨fun _ h => h, OthersKept.refl, OthersKept.refl⟩
  · rintro v ⟨hpre, hgiven, hnew⟩ q hq account hacc hasks
    have hopen := hreq q hq (hpre q hasks)
    have ⟨a, ha, _⟩ := hopen
    obtain ⟨account', haccount', hagree⟩ := hgiven.accounts _ _ ha
    obtain rfl := Option.some.inj (hacc.symm.trans haccount')
    refine ⟨fun p hp => hpre p (Setting.asks_of_stored hacc hp), ?_, ?_⟩
    · exact hgiven.insert ha (hagree.seen ⟨hq, rfl, hopen⟩)
    · exact hnew.insert ha (hagree.copy ⟨hq, rfl, hopen⟩)

omit hreq in
theorem Requested.metas {sharing : Sharing} (h : Requested H services p)
    (hfits : sharing.Fits services) : sharing.metas p.serviceIndex = true := by
  obtain ⟨account, hacc, -, hmeta⟩ := h
  by_contra hnil
  rw [hfits.metas _ _ hacc (Bool.eq_false_iff.mpr hnil)] at hmeta
  cases hmeta

/-- `p` is stored in the clone, and in the given state as far as its maps are shared. -/
structure Stored (c : Setting) (p : Preimage) (v : Views) : Prop where
  provided : Provided c.H c.timeslot v.new p
  lookup : ∀ account, v.given.lookup p.serviceIndex = some account →
    c.lookups p.serviceIndex = true →
    account.preimageLookup.lookup (c.H p.data) = some p.data
  history : ∀ account, v.given.lookup p.serviceIndex = some account →
    account.preimageMeta.lookup (c.key p) = some [c.timeslot]

omit hreq

theorem stored_self (hmetas : c.metas p.serviceIndex = true) :
    Stored c p (c.stored v account p) where
  provided := ⟨_, lookup_insert _, lookup_insert _, lookup_insert _⟩
  lookup a ha hlookups := by
    obtain rfl := Setting.given_stored ha
    exact Setting.seen_lookup hlookups
  history a ha := by
    obtain rfl := Setting.given_stored ha
    exact Setting.seen_meta hmetas

theorem Stored.stored (h : Stored c p v) (hacc : v.given.lookup q.serviceIndex = some account)
    (hother : p.serviceIndex = q.serviceIndex →
      c.H p.data ≠ c.H q.data ∧ c.lookups p.serviceIndex = true) :
    Stored c p (c.stored v account q) := by
  by_cases hid : p.serviceIndex = q.serviceIndex
  · obtain ⟨hhash, hlookups⟩ := hother hid
    have hkey := Setting.key_ne hhash
    rw [← hid] at hacc
    refine ⟨⟨_, by rw [Setting.stored, hid, lookup_insert], ?_, ?_⟩, ?_, ?_⟩
    · exact (lookup_insert_of_ne _ hhash).trans (h.lookup account hacc hlookups)
    · exact (lookup_insert_of_ne _ hkey).trans (h.history account hacc)
    · intro a ha _
      obtain rfl := Setting.given_stored (hid ▸ ha)
      rw [Setting.seen_lookup_of_ne hhash]
      exact h.lookup account hacc hlookups
    · intro a ha
      obtain rfl := Setting.given_stored (hid ▸ ha)
      rw [Setting.seen_meta_of_ne hkey]
      exact h.history account hacc
  · obtain ⟨a, ha, hstored⟩ := h.provided
    refine ⟨⟨a, (lookup_insert_of_ne _ hid).trans ha, hstored⟩, ?_, ?_⟩
    all_goals
      intro a ha
      rw [Setting.stored, lookup_insert_of_ne _ hid] at ha
    · exact h.lookup a ha
    · exact h.history a ha

theorem Stored.not_asks (h : Stored c p v) : ¬ c.Asks v p := by
  intro hasks
  obtain ⟨account, hacc, -, hmeta⟩ := solicited_iff.mp hasks
  rw [← Setting.key, getD_of_lookup (h.history account hacc)] at hmeta
  cases hmeta

include hreq

theorem run_answered (hdist : DistinctHashes c.H ps) (hfits : c.Fits services)
    (hone : ∀ p ∈ ps, ∀ q ∈ ps, p.serviceIndex = q.serviceIndex →
      c.lookups p.serviceIndex = false → Requested c.H services p →
      Requested c.H services q → p = q)
    (hp : p ∈ ps) (h : Requested c.H services p) :
    Provided c.H c.timeslot (c.run ps services).new p := by
  obtain ⟨v, account, later, hpre, hacc, hlater, hrun⟩ :=
    exists_round c hdist hp h.solicited
  rw [hrun]
  refine (Setting.foldl_rule (P := fun v =>
    (∀ q, c.Asks v q → Solicited c.H services q) ∧ Stored c p v) ?_ ?_).2.provided
  · exact ⟨fun q hq => hpre q (Setting.asks_of_stored hacc hq), stored_self (h.metas hfits)⟩
  · rintro v ⟨hpre, hstored⟩ q hq account hacc hasks
    refine ⟨fun r hr => hpre r (Setting.asks_of_stored hacc hr),
      hstored.stored hacc fun hid => ?_⟩
    have hne : p ≠ q := fun heq => hstored.not_asks (heq ▸ hasks)
    have hq' := hreq q (hlater hq) (hpre q hasks)
    constructor
    · exact fun hhash => hne (hdist p hp q (hlater hq) hid hhash)
    · by_contra hnil
      exact hne (hone p hp q (hlater hq) hid (Bool.eq_false_iff.mpr hnil) h hq')

end

/-- The clone has a history that the account did not have. -/
def Surplus (sharing : Sharing) (id : ServiceId) (a : ServiceAccount) (v : Views) : Prop :=
  ∃ key, key ∉ a.preimageMeta ∧
    (∃ account, v.new.lookup id = some account ∧ key ∈ account.preimageMeta) ∧
    (sharing.metas id = true → ∀ account, v.given.lookup id = some account →
      key ∈ account.preimageMeta)

theorem surplus_self (hnew : c.key p ∉ a.preimageMeta) :
    Surplus c.toSharing p.serviceIndex a (c.stored v account p) := by
  refine ⟨_, hnew, ⟨_, lookup_insert _, mem_insert.mpr (.inl rfl)⟩, ?_⟩
  intro hmetas account' haccount'
  obtain rfl := Setting.given_stored haccount'
  exact mem_iff.mpr ⟨_, Setting.seen_meta hmetas⟩

theorem Surplus.stored (h : Surplus c.toSharing id a v)
    (hnil : c.metas id = false → a.preimageMeta = ∅)
    (hacc : v.given.lookup q.serviceIndex = some account) :
    Surplus c.toSharing id a (c.stored v account q) := by
  obtain ⟨key, hnew, ⟨account', haccount', hmem⟩, hgiven⟩ := h
  by_cases hid : id = q.serviceIndex
  · subst hid
    by_cases hmetas : c.metas q.serviceIndex = true
    · have hshared := hgiven hmetas account hacc
      refine ⟨key, hnew, ⟨_, lookup_insert _, mem_insert.mpr (.inr hshared)⟩, ?_⟩
      intro _ account' haccount'
      obtain rfl := Setting.given_stored haccount'
      simp only [Setting.seen, hmetas, if_true]
      exact mem_insert.mpr (.inr hshared)
    · -- the map is made anew, for the history of `q`
      refine surplus_self ?_
      rw [hnil (Bool.eq_false_iff.mpr hmetas)]
      exact notMem_empty
  · refine ⟨key, hnew, ⟨account', (lookup_insert_of_ne _ hid).trans haccount', hmem⟩, ?_⟩
    intro hmetas account hacc
    rw [Setting.stored, lookup_insert_of_ne _ hid] at hacc
    exact hgiven hmetas account hacc

theorem OthersKept.not_surplus {sharing : Sharing}
    (h : OthersKept H ps services v.new) (ha : services.lookup id = some a) :
    ¬ Surplus sharing id a v := by
  rintro ⟨key, hnew, ⟨account, hacc, hmem⟩, -⟩
  obtain ⟨account', haccount', hagree⟩ := h.accounts id a ha
  obtain rfl := Option.some.inj (hacc.symm.trans haccount')
  have huntouched : ∀ p, p ∈ ps ∧ p.serviceIndex = id ∧ Requested H services p →
      key ≠ metaKeyOf H p := by
    rintro p ⟨-, rfl, b, hb, -, hist⟩ rfl
    obtain rfl := Option.some.inj (ha.symm.trans hb)
    exact hnew (mem_iff.mpr ⟨_, hist⟩)
  have hsame := hagree.metas key huntouched
  rw [lookup_eq_none.mpr hnew, lookup_eq_none] at hsame
  exact hsame hmem

section

variable (hdist : DistinctHashes c.H ps) (hfits : c.Fits services)

include hdist hfits

theorem requested_of_othersKept (hkept : OthersKept c.H ps services (c.run ps services).new)
    (hp : p ∈ ps) (h : Solicited c.H services p) :
    Requested c.H services p := by
  obtain ⟨a, ha, hmissing, hmeta⟩ := solicited_iff.mp h
  by_contra hno
  have hnew : c.key p ∉ a.preimageMeta := by
    intro hmem
    obtain ⟨history, hist⟩ := mem_iff.mp hmem
    rw [← Setting.key, getD_of_lookup hist] at hmeta
    exact hno ⟨a, ha, hmissing, hmeta ▸ hist⟩
  obtain ⟨v, account, later, -, hacc, -, hrun⟩ := exists_round c hdist hp h
  have hsurplus : Surplus c.toSharing p.serviceIndex a (c.run ps services) := by
    rw [hrun]
    refine Setting.foldl_rule (surplus_self hnew) ?_
    intro v hv q _ account hacc _
    exact hv.stored (hfits.metas _ _ ha) hacc
  exact hkept.not_surplus ha hsurplus

omit hdist in
/-- A map made anew for every preimage keeps one entry. -/
theorem run_new_of_nil (hnil : c.lookups id = false) {h h' : Hash}
    (hacc : (c.run ps services).new.lookup id = some account)
    (hh : h ∈ account.preimageLookup) (hh' : h' ∈ account.preimageLookup) : h = h' := by
  have hempty := fun a ha => hfits.lookups id a ha hnil
  refine (Setting.foldl_rule (P := fun v =>
    (∀ account, v.given.lookup id = some account → account.preimageLookup = ∅) ∧
      ∀ account, v.new.lookup id = some account → h ∈ account.preimageLookup →
        h' ∈ account.preimageLookup → h = h') ?_ ?_).2 account hacc hh hh'
  · refine ⟨hempty, ?_⟩
    intro account hacc hmem
    rw [hempty account hacc] at hmem
    exact absurd hmem notMem_empty
  · rintro v ⟨hgiven, hnew⟩ q _ copied hcopied _
    by_cases hid : id = q.serviceIndex
    · subst hid
      have hnone := hgiven copied hcopied
      constructor
      · intro account' haccount'
        obtain rfl := Setting.given_stored haccount'
        simpa [Setting.seen, hnil] using hnone
      · intro account' haccount' hmem hmem'
        obtain rfl := Option.some.inj ((lookup_insert _).symm.trans haccount')
        simp only [Setting.copy, withPreimage, hnone, mem_insert, notMem_empty, or_false]
          at hmem hmem'
        rw [hmem, hmem']
    · rw [Setting.stored, lookup_insert_of_ne _ hid, lookup_insert_of_ne _ hid]
      exact ⟨hgiven, hnew⟩

theorem integrated_iff : Integrated c.H c.timeslot ps services (c.run ps services).new ↔
      (∀ p ∈ ps, Solicited c.H services p → Requested c.H services p) ∧
        ∀ p ∈ ps, ∀ q ∈ ps, p.serviceIndex = q.serviceIndex →
          c.lookups p.serviceIndex = false → Requested c.H services p →
          Requested c.H services q → p = q := by
  constructor
  · intro h
    refine ⟨fun p hp hsolicited =>
      requested_of_othersKept hdist hfits h.others hp hsolicited, ?_⟩
    intro p hp q hq hid hnil hp' hq'
    obtain ⟨account, hacc, hget, -⟩ := h.answered p hp hp'
    obtain ⟨account', haccount', hget', -⟩ := h.answered q hq hq'
    rw [← hid, hacc] at haccount'
    obtain rfl := Option.some.inj haccount'
    exact hdist p hp q hq hid (run_new_of_nil hfits hnil hacc
      (mem_iff.mpr ⟨_, hget⟩) (mem_iff.mpr ⟨_, hget'⟩))
  · rintro ⟨hreq, hone⟩
    exact ⟨fun p hp h => run_answered hreq hdist hfits hone hp h,
      run_othersKept hreq⟩

end

end

end

/-- When the requested preimages are stored, and nothing else. -/
theorem preimages_integrated_iff (mem : Shared.Memory) (accs : Shared.Accounts)
    (ps : List Preimage) (newTimeslot : Timeslot) (hformed : Shared.WellFormed mem accs)
    (hdist : DistinctHashes H ps) :
    let before := Shared.view mem accs
    let result :=
      Shared.calculateIntermediateServiceState H ps accs newTimeslot mem
    let returned := Shared.view result.1 result.2
    let given := Shared.view result.1 accs
    (Integrated H newTimeslot ps before returned ↔
      (∀ p ∈ ps, Solicited H before p → Requested H before p) ∧
        ∀ p ∈ ps, ∀ q ∈ ps, p.serviceIndex = q.serviceIndex →
          (Shared.sharingOf accs).lookups p.serviceIndex = false →
          Requested H before p → Requested H before q → p = q) ∧
      (given = before ↔ ∀ p ∈ ps, Solicited H before p →
        (Shared.sharingOf accs).lookups p.serviceIndex = false ∧
          (Shared.sharingOf accs).metas p.serviceIndex = false) ∧
      (Integrated H newTimeslot ps before returned ∧ given = before ↔
        ∀ p ∈ ps, ¬ Solicited H before p) := by
  intro before result returned given
  have hfits := Shared.sharingOf_fits mem accs
  have hrepresents : Shared.Represents accs result
      ((Shared.setting H newTimeslot accs).run ps before) :=
    Shared.represents_run hformed ps
  have hreturned : returned = _ := hrepresents.new
  have hgiven : given = _ := hrepresents.given
  rw [hreturned, hgiven]
  have hintegrated := integrated_iff (c := Shared.setting H newTimeslot accs) hdist hfits
  refine ⟨hintegrated, given_eq_iff, (and_congr hintegrated given_eq_iff).trans ?_⟩
  constructor
  · rintro ⟨⟨hreq, -⟩, hnil⟩ p hp hsolicited
    have hmetas := (hreq p hp hsolicited).metas hfits
    cases hmetas.symm.trans (hnil p hp hsolicited).2
  · intro hnone
    refine ⟨⟨fun p hp h => absurd h (hnone p hp), ?_⟩, fun p hp h => absurd h (hnone p hp)⟩
    intro p hp q _ _ _ h
    exact absurd h.solicited (hnone p hp)

def held (services : ServiceState) (p : Preimage) :
    Option (Option (List UInt8) × Option (List Timeslot)) :=
  (services.lookup p.serviceIndex).map fun account =>
    (account.preimageLookup.lookup (H p.data), account.preimageMeta.lookup (metaKeyOf H p))

section

variable {H} {timeslot : Timeslot} {services after : ServiceState} {p : Preimage}

theorem Provided.held_eq (h : Provided H timeslot services p) :
    held H services p = some (some p.data, some [timeslot]) := by
  obtain ⟨account, hacc, hget, hmeta⟩ := h
  rw [held, hacc, map_some, hget, hmeta]

theorem Requested.held_eq (h : Requested H services p) :
    held H services p = some (none, some []) := by
  obtain ⟨account, hacc, hmissing, hmeta⟩ := h
  rw [held, hacc, map_some, lookup_eq_none.mpr hmissing, hmeta]

theorem OthersKept.held_eq (h : OthersKept H [p] services after) (hno : ¬ Requested H services p) :
    (held H after p).map Prod.snd = (held H services p).map Prod.snd := by
  unfold held
  cases hacc : services.lookup p.serviceIndex with
  | none => rw [h.missing _ hacc, map_none]
  | some account =>
    obtain ⟨account', haccount', hagree⟩ := h.accounts _ _ hacc
    have hsame : account'.preimageMeta.lookup (metaKeyOf H p) =
        account.preimageMeta.lookup (metaKeyOf H p) := by
      apply hagree.metas
      rintro q ⟨hq, -, hreq⟩
      rw [mem_singleton.mp hq] at hreq
      exact absurd hreq hno
    rw [haccount', map_some, map_some, map_some, map_some, hsame]

end

def askingAccount : Shared.Account :=
  { storage := ∅, preimageLookup := none, preimageMeta := some 0, codeHash := hashOf []
    balance := 0, gasLimitForAccumulator := 0, gasLimitOnTransfer := 0 }

def askingAccounts : Shared.Accounts := Finmap.singleton 1 askingAccount

def askingMemory : Shared.Memory :=
  ⟨[], [(Finmap.singleton (metaKeyOf hashOf ⟨1, [7]⟩) []).insert (metaKeyOf hashOf ⟨1, [8]⟩) []]⟩

theorem lookup_askingAccounts {id : ServiceId} {a : Shared.Account}
    (h : askingAccounts.lookup id = some a) : id = 1 ∧ a = askingAccount := by
  have hid : id = 1 := (mem_singleton _ _ _).mp (mem_of_lookup_eq_some h)
  rw [hid, askingAccounts, lookup_singleton_eq] at h
  exact ⟨hid, (Option.some.inj h).symm⟩

theorem askingAccounts_wellFormed : Shared.WellFormed askingMemory askingAccounts where
  holds id a ha := by
    obtain ⟨-, rfl⟩ := lookup_askingAccounts ha
    refine ⟨nofun, ?_⟩
    rintro _ ⟨⟩
    exact Nat.zero_lt_one
  apart id id' a b ha hb hne :=
    absurd ((lookup_askingAccounts ha).1.trans (lookup_askingAccounts hb).1.symm) hne

theorem asking_requested {octet : UInt8} (h : octet = 7 ∨ octet = 8) :
    Requested hashOf (Shared.view askingMemory askingAccounts) ⟨1, [octet]⟩ := by
  have hacc : (Shared.view askingMemory askingAccounts).lookup 1 =
      some (askingAccount.view askingMemory) := by
    rw [Shared.lookup_view, askingAccounts, lookup_singleton_eq, map_some]
  refine ⟨_, hacc, notMem_empty, ?_⟩
  rcases h with rfl | rfl
  · decide +kernel
  · decide +kernel

theorem one_preimage_integrated :
    let before := Shared.view askingMemory askingAccounts
    let result := Shared.calculateIntermediateServiceState hashOf [⟨1, [7]⟩] askingAccounts 5
      askingMemory
    Integrated hashOf 5 [⟨1, [7]⟩] before (Shared.view result.1 result.2) ∧
      Shared.view result.1 askingAccounts ≠ before := by
  have hdist : DistinctHashes hashOf [⟨1, [7]⟩] := by
    intro p hp q hq _ _
    rw [mem_singleton.mp hp, mem_singleton.mp hq]
  obtain ⟨hreturned, hgiven, -⟩ := preimages_integrated_iff hashOf askingMemory askingAccounts
    [⟨1, [7]⟩] 5 askingAccounts_wellFormed hdist
  have hreq := asking_requested (.inl rfl)
  refine ⟨hreturned.mpr ⟨?_, ?_⟩, ?_⟩
  · intro p hp _
    rw [mem_singleton.mp hp]
    exact hreq
  · intro p hp q hq _ _ _ _
    rw [mem_singleton.mp hp, mem_singleton.mp hq]
  · intro hsame
    have hnil := (hgiven.mp hsame ⟨1, [7]⟩ mem_cons_self hreq.solicited).2
    revert hnil
    decide

theorem preimages_lost_and_unasked : (let before := Shared.view askingMemory askingAccounts
      let ps : List Preimage := [⟨1, [7]⟩, ⟨1, [8]⟩]
      let result := Shared.calculateIntermediateServiceState hashOf ps askingAccounts 5 askingMemory
      ¬ Integrated hashOf 5 ps before (Shared.view result.1 result.2) ∧
        Shared.view result.1 askingAccounts ≠ before) ∧
    (let before := Shared.view askingMemory askingAccounts
      let result := Shared.calculateIntermediateServiceState hashOf [⟨1, [9]⟩] askingAccounts 5
        askingMemory
      ¬ Requested hashOf before ⟨1, [9]⟩ ∧
        ¬ Integrated hashOf 5 [⟨1, [9]⟩] before (Shared.view result.1 result.2)) := by
  have hno : ¬ Requested hashOf (Shared.view askingMemory askingAccounts) ⟨1, [9]⟩ := by
    intro h
    have hheld := h.held_eq
    revert hheld
    decide +kernel
  refine ⟨⟨?_, ?_⟩, hno, ?_⟩
  · intro h
    have hheld := (h.answered ⟨1, [7]⟩ mem_cons_self (asking_requested (.inl rfl))).held_eq
    revert hheld
    decide +kernel
  · intro hsame
    have hheld := (asking_requested (.inl rfl)).held_eq
    rw [← hsame] at hheld
    revert hheld
    decide +kernel
  · intro h
    have hheld := h.others.held_eq hno
    revert hheld
    decide +kernel

end Strawberry.StateTransition
