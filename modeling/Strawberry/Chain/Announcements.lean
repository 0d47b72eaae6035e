import Mathlib.Data.Set.Function
import Strawberry.Lib.Ancestry
import Strawberry.Store.Chain

/-!
# Announced headers

The block service that keeps the known leaves and the latest finalized block, and what is known of
its store after any run of announcements.
-/

namespace Strawberry.Chain

open Block Jam Store

structure LatestFinalized where
  hash : Hash
  timeSlotIndex : Timeslot
  deriving DecidableEq

structure BlockService where
  knownLeaves : GoMap Hash Timeslot
  latestFinalized : LatestFinalized
  store : Store.Chain

inductive ServiceError where
  | gettingParent (cause : StoreError)
  | checkingDescendant (cause : ServiceError)
  | notDescendant (hash : Hash)
  | storingHeader (cause : StoreError)
  | gettingHeaderInChain (cause : StoreError)
  | storingGenesis (cause : StoreError)
  deriving DecidableEq

variable (H : HashData)

def genesisHeader : Header :=
  { Header.zero with parentHash := hashOf [1], timeSlotIndex := 1 }

def genesisBlock : Block := { Block.zero with header := genesisHeader }

def newBlockService : Call ServiceError BlockService :=
  match newChain.putHeader H genesisHeader with
  | .error e => .fail (.storingGenesis e)
  | .ok store =>
    match store.putBlock H genesisBlock with
    | .ret (.error e) => .fail (.storingGenesis e)
    | .crash f => .crash f
    | .hang => .hang
    | .ret (.ok store) => .ok
      { knownLeaves := ∅
        latestFinalized := ⟨genesisHeader.hash H, genesisHeader.timeSlotIndex⟩
        store := store }

namespace BlockService

variable (bs : BlockService)

def updateLatestFinalized (hash : Hash) (slot : Timeslot) : BlockService :=
  { bs with latestFinalized := ⟨hash, slot⟩ }

def addLeaf (hash : Hash) (slot : Timeslot) : BlockService :=
  { bs with knownLeaves := bs.knownLeaves.insert hash slot }

def removeLeaf (hash : Hash) : BlockService :=
  { bs with knownLeaves := bs.knownLeaves.erase hash }

def descendantRound (current : Header) : Outcome (Flow Header (Except ServiceError Bool)) :=
  if bs.latestFinalized.timeSlotIndex < current.timeSlotIndex then
    match bs.store.getHeader current.parentHash with
    | .error e => .ret (.done (.error (.gettingParent e)))
    | .ok parent => .ret (.next parent)
  else if current.timeSlotIndex = bs.latestFinalized.timeSlotIndex then
    .ret (.done (.ok (current.hash H = bs.latestFinalized.hash)))
  else .ret (.done (.ok false))

def isDescendantOfFinalized (fuel : Nat) (header : Header) : Outcome (Except ServiceError Bool) :=
  loop (bs.descendantRound H) fuel header

def walkBack (store : Store.Chain) : Nat → Hash → List Header → Except StoreError (List Header)
  | 0, _, ancestorChain => .ok ancestorChain
  | n + 1, currentHash, ancestorChain => do
    let header ← store.getHeader currentHash
    walkBack store n header.parentHash (ancestorChain ++ [header])

def checkFinalization (hash : Hash) : Outcome (Except ServiceError BlockService) :=
  match walkBack bs.store 6 hash [] with
  | .error .headerNotFound => .ret (.ok bs)
  | .error e => .ret (.error (.gettingHeaderInChain e))
  | .ok ancestorChain =>
    match ancestorChain.getLast? with
    | none => .crash .indexOutOfRange
    | some finalizeHeader =>
      let finalizeHash := finalizeHeader.hash H
      .ret (.ok ((bs.removeLeaf finalizeHash).updateLatestFinalized finalizeHash
        finalizeHeader.timeSlotIndex))

def handleNewHeader (fuel : Nat) (header : Header) :
    Outcome (BlockService × Option ServiceError) := do
  let hash := header.hash H
  match ← bs.isDescendantOfFinalized H fuel header with
  | .error e => return (bs, some (.checkingDescendant e))
  | .ok false => return (bs, some (.notDescendant hash))
  | .ok true =>
    match bs.store.putHeader H header with
    | .error e => return (bs, some (.storingHeader e))
    | .ok store =>
      let bs := { bs with store := store }
      let bs := (bs.removeLeaf header.parentHash).addLeaf hash header.timeSlotIndex
      match ← bs.checkFinalization H header.parentHash with
      | .error _ => return (bs, none)
      | .ok bs => return (bs, none)

end BlockService

open Ancestry List

variable (H : HashData)

namespace BlockService

def headerAt (bs : BlockService) (hash : Hash) : Option Header :=
  (bs.store.getHeader hash).toOption

def parentOf (bs : BlockService) (hash : Hash) : Option Hash :=
  (bs.headerAt hash).map (·.parentHash)

end BlockService

abbrev Finds (store : Store.Chain) (held : Hash → Option Header) : Prop :=
  ∀ hash, store.getHeader hash = (held hash).elim (.error .headerNotFound) .ok

def adding (held : Hash → Option Header) (h : Header) : Hash → Option Header :=
  Function.update held (h.hash H) (some h)

/-- What holds of the store after the headers of `announced`, accepted or not. -/
structure Known (announced : List Header) (bs : BlockService) : Prop where
  isOpen : bs.store.closed = false
  get : Finds bs.store bs.headerAt
  own : ∀ hash h, bs.headerAt hash = some h → h.hash H = hash
  source : ∀ hash h, bs.headerAt hash = some h → h = genesisHeader ∨ h ∈ announced
  genesis : bs.headerAt (genesisHeader.hash H) = some genesisHeader
  parent : ∀ hash h, bs.headerAt hash = some h →
    h = genesisHeader ∨ ∃ p, bs.headerAt h.parentHash = some p
  slot : ∀ hash h, bs.headerAt hash = some h → 1 ≤ h.timeSlotIndex
  rooted : ∀ hash h, bs.headerAt hash = some h → Descends bs.parentOf hash (genesisHeader.hash H)
  finalized : ∃ h, bs.headerAt bs.latestFinalized.hash = some h ∧
    h.timeSlotIndex = bs.latestFinalized.timeSlotIndex

variable {H} {announced : List Header} {bs bs' : BlockService} {h : Header} {hash : Hash}

section

variable {held : Hash → Option Header}

theorem adding_self : adding H held h (h.hash H) = some h :=
  Function.update_self _ _ _

theorem adding_of_ne (hne : hash ≠ h.hash H) : adding H held h hash = held hash :=
  Function.update_of_ne hne _ _

theorem adding_cases {hd : Header} (hheld : adding H held h hash = some hd) :
    (hash = h.hash H ∧ hd = h) ∨ held hash = some hd := by
  by_cases hhash : hash = h.hash H
  · rw [hhash, adding_self] at hheld
    cases hheld
    exact .inl ⟨hhash, rfl⟩
  · rw [adding_of_ne hhash] at hheld
    exact .inr hheld

end

theorem parentOf_eq_some {p : Hash} :
    bs.parentOf hash = some p ↔ ∃ h, bs.headerAt hash = some h ∧ h.parentHash = p :=
  Option.map_eq_some_iff

section

variable (hknown : Known H announced bs)
include hknown

theorem descendantRound_cases (current : Header) :
    (bs.headerAt current.parentHash = none ∧ bs.descendantRound H current =
      .ret (.done (.error (.gettingParent .headerNotFound)))) ∨
    (∃ p, bs.headerAt current.parentHash = some p ∧
      bs.latestFinalized.timeSlotIndex < current.timeSlotIndex ∧
      bs.descendantRound H current = .ret (.next p)) ∨
    ∃ answer, bs.descendantRound H current = .ret (.done (.ok answer)) ∧
      (answer = true → current.hash H = bs.latestFinalized.hash ∧
        current.timeSlotIndex = bs.latestFinalized.timeSlotIndex) := by
  unfold BlockService.descendantRound
  by_cases hlt : bs.latestFinalized.timeSlotIndex < current.timeSlotIndex
  · rw [if_pos hlt, hknown.get]
    cases hp : bs.headerAt current.parentHash with
    | none => exact .inl ⟨rfl, rfl⟩
    | some p => exact .inr (.inl ⟨p, rfl, hlt, rfl⟩)
  · rw [if_neg hlt]
    by_cases heq : current.timeSlotIndex = bs.latestFinalized.timeSlotIndex
    · rw [if_pos heq]
      exact .inr (.inr ⟨_, rfl, fun h => ⟨of_decide_eq_true h, heq⟩⟩)
    · rw [if_neg heq]
      exact .inr (.inr ⟨false, rfl, nofun⟩)

variable {fuel : Nat} {current : Header}

theorem walk_to_finalized {parent : Hash → Option Hash}
    (hpar : ∀ hash h, bs.headerAt hash = some h → parent hash = some h.parentHash)
    (hcur : parent (current.hash H) = some current.parentHash)
    (hrun : bs.isDescendantOfFinalized H fuel current = .ret (.ok true)) :
    (∃ k, ancestor parent k (current.hash H) = some bs.latestFinalized.hash) ∧
    (current.hash H = bs.latestFinalized.hash ∨ ∃ p, bs.headerAt current.parentHash = some p) ∧
    bs.latestFinalized.timeSlotIndex ≤ current.timeSlotIndex := by
  induction fuel generalizing current with
  | zero => cases hrun
  | succ fuel ih =>
    unfold BlockService.isDescendantOfFinalized at hrun ih
    rcases descendantRound_cases hknown current with
      ⟨-, hround⟩ | ⟨p, hp, hlt, hround⟩ | ⟨answer, hround, hanswer⟩
    · rw [loop_done hround] at hrun
      cases hrun
    · rw [loop_next hround] at hrun
      have hown := hknown.own _ _ hp
      obtain ⟨⟨k, hk⟩, -, -⟩ := ih (by rw [hown]; exact hpar _ _ hp) hrun
      rw [hown] at hk
      exact ⟨⟨k + 1, by rw [ancestor_succ hcur, hk]⟩, .inr ⟨p, hp⟩, UInt32.le_of_lt hlt⟩
    · rw [loop_done hround] at hrun
      injection hrun with hrun
      obtain ⟨hhash, hslot⟩ := hanswer (Except.ok.inj hrun)
      exact ⟨⟨0, by rw [ancestor, hhash]⟩, .inl hhash, by rw [hslot]; exact UInt32.le_refl _⟩

theorem not_above_genesis : ¬ bs.latestFinalized.timeSlotIndex < genesisHeader.timeSlotIndex := by
  obtain ⟨fh, hfh, hfslot⟩ := hknown.finalized
  intro hlt
  have hslot := hknown.slot _ _ hfh
  rw [hfslot] at hslot
  exact absurd (UInt32.lt_of_le_of_lt hslot hlt) (by decide)

theorem walk_returns_succ (h : ∀ p, bs.headerAt current.parentHash = some p →
      bs.latestFinalized.timeSlotIndex < current.timeSlotIndex →
      (bs.isDescendantOfFinalized H fuel p).Returns) :
    (bs.isDescendantOfFinalized H (fuel + 1) current).Returns := by
  unfold BlockService.isDescendantOfFinalized at h ⊢
  rcases descendantRound_cases hknown current with
    ⟨-, hround⟩ | ⟨p, hp, hlt, hround⟩ | ⟨answer, hround, -⟩
  · exact ⟨_, loop_done hround⟩
  · rw [loop_next hround]
    exact h p hp hlt
  · exact ⟨_, loop_done hround⟩

theorem walk_returns_of_held {k : Nat} (hcur : bs.headerAt (current.hash H) = some current)
    (hk : ancestor bs.parentOf k (current.hash H) = some (genesisHeader.hash H))
    (hfuel : k < fuel) : (bs.isDescendantOfFinalized H fuel current).Returns := by
  induction k generalizing fuel current with
  | zero =>
    obtain ⟨fuel, rfl⟩ : ∃ n, fuel = n + 1 := ⟨fuel - 1, by omega⟩
    rw [Option.some.inj hk, hknown.genesis] at hcur
    cases hcur
    exact walk_returns_succ hknown fun _ _ hlt => absurd hlt (not_above_genesis hknown)
  | succ k ih =>
    obtain ⟨fuel, rfl⟩ : ∃ n, fuel = n + 1 := ⟨fuel - 1, by omega⟩
    refine walk_returns_succ hknown fun p hp _ => ?_
    have hown := hknown.own _ _ hp
    have hstep : bs.parentOf (current.hash H) = some (p.hash H) := by
      rw [hown, BlockService.parentOf, hcur, Option.map_some]
    rw [ancestor_succ hstep] at hk
    exact ih (by rw [hown, hp]) hk (by omega)

theorem walk_returns (h : Header) :
    ∃ n, ∀ fuel, n ≤ fuel → (bs.isDescendantOfFinalized H fuel h).Returns := by
  obtain ⟨k, hk⟩ : ∃ k, ∀ p, bs.headerAt h.parentHash = some p →
      ancestor bs.parentOf k h.parentHash = some (genesisHeader.hash H) := by
    cases hp : bs.headerAt h.parentHash with
    | none => exact ⟨0, nofun⟩
    | some p => exact (hknown.rooted _ _ hp).imp fun k hk _ _ => hk
  refine ⟨k + 2, fun fuel hfuel => ?_⟩
  obtain ⟨fuel, rfl⟩ : ∃ n, fuel = n + 1 := ⟨fuel - 1, by omega⟩
  refine walk_returns_succ hknown fun p hp _ => ?_
  have hown := hknown.own _ _ hp
  exact walk_returns_of_held hknown (by rw [hown, hp]) (by rw [hown, hk p hp]) (by omega)

end

section

variable {c : Store.Chain} {held : Hash → Option Header} (hget : Finds c held)
include hget

theorem walkBack_cases (n : Nat) (hash : Hash) (acc : List Header) :
    (∃ g hd chain, ancestor (fun x => (held x).map (·.parentHash)) n hash = some g ∧
      held g = some hd ∧ BlockService.walkBack c (n + 1) hash acc = .ok chain ∧
      chain.getLast? = some hd) ∨
    ((∀ g, ancestor (fun x => (held x).map (·.parentHash)) n hash = some g → held g = none) ∧
      BlockService.walkBack c (n + 1) hash acc = .error .headerNotFound) := by
  induction n generalizing hash acc with
  | zero =>
    rw [BlockService.walkBack, hget]
    cases hhd : held hash with
    | none =>
      refine .inr ⟨?_, rfl⟩
      intro g hg
      cases hg
      exact hhd
    | some hd => exact .inl ⟨hash, hd, acc ++ [hd], rfl, hhd, rfl, List.getLast?_concat⟩
  | succ n ih =>
    rw [BlockService.walkBack, hget]
    cases hhd : held hash with
    | none =>
      refine .inr ⟨?_, rfl⟩
      intro g hg
      rw [ancestor, hhd] at hg
      cases hg
    | some hd =>
      have hstep : (fun x => (held x).map (·.parentHash)) hash = some hd.parentHash := by
        simp only [hhd, Option.map_some]
      rw [ancestor_succ hstep]
      exact ih hd.parentHash (acc ++ [hd])

end

theorem checkFinalization_cases (H : HashData) {bs : BlockService}
    (hget : Finds bs.store bs.headerAt) (hash : Hash) :
    (∃ g hd, ancestor bs.parentOf 5 hash = some g ∧ bs.headerAt g = some hd ∧
      bs.checkFinalization H hash = .ret (.ok ((bs.removeLeaf
        (hd.hash H)).updateLatestFinalized (hd.hash H) hd.timeSlotIndex))) ∨
    ((∀ g, ancestor bs.parentOf 5 hash = some g → bs.headerAt g = none) ∧
      bs.checkFinalization H hash = .ret (.ok bs)) := by
  unfold BlockService.checkFinalization
  rcases walkBack_cases hget 5 hash [] with ⟨g, hd, chain, hg, hhd, hwalk, hlast⟩ | ⟨hnone, hwalk⟩
  · refine .inl ⟨g, hd, hg, hhd, ?_⟩
    rw [hwalk]
    simp only
    rw [hlast]
  · refine .inr ⟨hnone, ?_⟩
    rw [hwalk]

inductive Finalization (bs : BlockService) (leaves : GoMap Hash Timeslot) (hash : Hash)
    (bs' : BlockService) : Prop where
  | moved (g : Hash) (hd : Header) (hancestor : ancestor bs'.parentOf 6 hash = some g)
      (hheld : bs'.headerAt g = some hd)
      (hfinalized : bs'.latestFinalized = ⟨g, hd.timeSlotIndex⟩)
      (hleaves : bs'.knownLeaves = leaves.erase g)
  | kept (hmissing : ∀ g, ancestor bs'.parentOf 6 hash = some g → bs'.headerAt g = none)
      (hfinalized : bs'.latestFinalized = bs.latestFinalized) (hleaves : bs'.knownLeaves = leaves)

structure Accepted (H : HashData) (bs : BlockService) (h : Header) (bs' : BlockService) :
    Prop where
  isOpen : bs'.store.closed = false
  get : Finds bs'.store bs'.headerAt
  headers : bs'.headerAt = adding H bs.headerAt h
  above : ∃ k, ancestor bs'.parentOf k (h.hash H) = some bs.latestFinalized.hash
  parent : h.hash H = bs.latestFinalized.hash ∨ ∃ p, bs.headerAt h.parentHash = some p
  slot : bs.latestFinalized.timeSlotIndex ≤ h.timeSlotIndex
  finalization : Finalization bs
    ((bs.knownLeaves.erase h.parentHash).insert (h.hash H) h.timeSlotIndex)
    (h.hash H) bs'

theorem headerAt_of_get {held : Hash → Option Header} (hget : Finds bs.store held) :
    bs.headerAt = held := by
  funext hash
  rw [BlockService.headerAt, hget]
  cases held hash with
  | none | some => rfl

theorem putHeader_known (hknown : Known H announced bs) (hh : h.Fits) :
    ∃ c, bs.store.putHeader H h = .ok c ∧ c.closed = false ∧ Finds c (adding H bs.headerAt h) := by
  obtain ⟨c, hput, hopen, hnew, hold⟩ := putHeader_spec H hknown.isOpen hh
  refine ⟨c, hput, hopen, ?_⟩
  intro hash
  by_cases hhash : hash = h.hash H
  · rw [hhash, hnew, adding_self]
    rfl
  · rw [hold hash hhash, adding_of_ne hhash]
    exact hknown.get hash

def Fresh (H : HashData) (bs : BlockService) (h : Header) : Prop :=
  ∀ h', bs.headerAt (h.hash H) = some h' → h' = h

theorem Fresh.headerAt {hd : Header} (hfresh : Fresh H bs h)
    (hhead : bs'.headerAt = adding H bs.headerAt h)
    (hheld : bs.headerAt hash = some hd) : bs'.headerAt hash = some hd := by
  rw [hhead]
  by_cases hhash : hash = h.hash H
  · rw [hhash] at hheld
    rw [hhash, adding_self, hfresh hd hheld]
  · rw [adding_of_ne hhash, hheld]

theorem Accepted.headerAt_self (hok : Accepted H bs h bs') : bs'.headerAt (h.hash H) = some h := by
  rw [hok.headers, adding_self]

theorem Accepted.headerAt_cases (hok : Accepted H bs h bs') {hd : Header}
    (hheld : bs'.headerAt hash = some hd) :
    (hash = h.hash H ∧ hd = h) ∨ bs.headerAt hash = some hd := by
  rw [hok.headers] at hheld
  exact adding_cases hheld

theorem handleNewHeader_cases (hknown : Known H announced bs) (hh : h.Fits)
    (hfresh : Fresh H bs h) {fuel : Nat} {err : Option ServiceError}
    (hrun : bs.handleNewHeader H fuel h = .ret (bs', err)) :
    ((∃ e, err = some e) ∧ bs' = bs) ∨ (err = none ∧ Accepted H bs h bs') := by
  obtain ⟨c, hput, hopen, hget⟩ := putHeader_known hknown hh
  obtain ⟨answer, hanswer, hrun⟩ := bind_eq_ret.mp hrun
  match answer with
  | .error e | .ok false =>
    cases hrun
    exact .inl ⟨⟨_, rfl⟩, rfl⟩
  | .ok true =>
    rw [hput] at hrun
    obtain ⟨result, hfinal, hrun⟩ := bind_eq_ret.mp hrun
    let bs₁ : BlockService := ⟨(bs.knownLeaves.erase h.parentHash).insert (h.hash H)
      h.timeSlotIndex, bs.latestFinalized, c⟩
    have hhead : bs₁.headerAt = adding H bs.headerAt h := headerAt_of_get hget
    have hget₁ : Finds bs₁.store bs₁.headerAt := by rwa [hhead]
    have hstep : bs₁.parentOf (h.hash H) = some h.parentHash :=
      parentOf_eq_some.mpr ⟨h, by rw [hhead, adding_self], rfl⟩
    obtain ⟨habove, hpar, hslot⟩ := walk_to_finalized hknown
      (fun hash hd hheld => parentOf_eq_some.mpr ⟨hd, hfresh.headerAt hhead hheld, rfl⟩)
      hstep hanswer
    have hancestor : ancestor bs₁.parentOf 6 (h.hash H) =
        ancestor bs₁.parentOf 5 h.parentHash := ancestor_succ hstep
    rcases checkFinalization_cases H hget₁ h.parentHash with
      ⟨g, hd, hg, hhd, hcheck⟩ | ⟨hnone, hcheck⟩
    · cases hfinal.symm.trans hcheck
      cases hrun
      have hown : hd.hash H = g := by
        rw [hhead] at hhd
        rcases adding_cases hhd with ⟨rfl, rfl⟩ | hheld
        · rfl
        · exact hknown.own g hd hheld
      refine .inr ⟨rfl, hopen, hget₁, hhead, habove, hpar, hslot, ?_⟩
      rw [hown]
      exact .moved g hd (hancestor.trans hg) hhd rfl rfl
    · cases hfinal.symm.trans hcheck
      obtain ⟨hbs, herr⟩ : bs₁ = bs' ∧ none = err := Prod.mk.inj (Outcome.ret.inj hrun)
      rw [← hbs, ← herr]
      refine .inr ⟨rfl, hopen, hget₁, hhead, habove, hpar, hslot, .kept ?_ rfl rfl⟩
      intro g hg
      exact hnone g (hancestor.symm.trans hg)

section

variable (hknown : Known H announced bs) (hfresh : Fresh H bs h)
  (hok : Accepted H bs h bs')
include hfresh hok

theorem Accepted.headerAt {hash : Hash} {hd : Header} (hheld : bs.headerAt hash = some hd) :
    bs'.headerAt hash = some hd := hfresh.headerAt hok.headers hheld

theorem Accepted.parentOf {hash p : Hash} (hp : bs.parentOf hash = some p) :
    bs'.parentOf hash = some p := by
  obtain ⟨hd, hheld, rfl⟩ := parentOf_eq_some.mp hp
  exact parentOf_eq_some.mpr ⟨hd, hok.headerAt hfresh hheld, rfl⟩

include hknown

theorem Accepted.parent_held : h = genesisHeader ∨ ∃ p, bs.headerAt h.parentHash = some p := by
  rcases hok.parent with hhash | hp
  · obtain ⟨fh, hfh, -⟩ := hknown.finalized
    rw [← hhash] at hfh
    rw [← hfresh fh hfh]
    exact hknown.parent _ _ hfh
  · exact .inr hp

theorem Known.step : Known H (h :: announced) bs' where
  isOpen := hok.isOpen
  get := hok.get
  own hash hd hheld := by
    rcases hok.headerAt_cases hheld with ⟨rfl, rfl⟩ | hold
    · rfl
    · exact hknown.own hash hd hold
  source hash hd hheld := by
    rcases hok.headerAt_cases hheld with ⟨-, rfl⟩ | hold
    · exact .inr mem_cons_self
    · exact (hknown.source hash hd hold).imp_right (mem_cons_of_mem h)
  genesis := hok.headerAt hfresh hknown.genesis
  parent hash hd hheld := by
    have hold : hd = genesisHeader ∨ ∃ p, bs.headerAt hd.parentHash = some p := by
      rcases hok.headerAt_cases hheld with ⟨-, rfl⟩ | hold
      · exact hok.parent_held hknown hfresh
      · exact hknown.parent hash hd hold
    refine hold.imp_right ?_
    rintro ⟨p, hp⟩
    exact ⟨p, hok.headerAt hfresh hp⟩
  slot hash hd hheld := by
    rcases hok.headerAt_cases hheld with ⟨-, rfl⟩ | hold
    · obtain ⟨fh, hfh, hslot⟩ := hknown.finalized
      have hfinalized := hknown.slot _ _ hfh
      rw [hslot] at hfinalized
      exact UInt32.le_trans hfinalized hok.slot
    · exact hknown.slot hash hd hold
  rooted hash hd hheld := by
    have hmono : ∀ a b, bs.parentOf a = some b → bs'.parentOf a = some b :=
      fun _ _ => hok.parentOf hfresh
    rcases hok.headerAt_cases hheld with ⟨rfl, -⟩ | hold
    · obtain ⟨fh, hfh, -⟩ := hknown.finalized
      exact Descends.trans hok.above ((hknown.rooted _ _ hfh).mono hmono)
    · exact (hknown.rooted hash hd hold).mono hmono
  finalized := by
    cases hok.finalization with
    | moved g hd _ hheld hfinalized _ =>
      rw [hfinalized]
      exact ⟨hd, hheld, rfl⟩
    | kept _ hfinalized _ =>
      obtain ⟨fh, hfh, hslot⟩ := hknown.finalized
      rw [hfinalized]
      exact ⟨fh, hok.headerAt hfresh hfh, hslot⟩

end

variable (H) in
inductive Reachable : List Header → BlockService → Prop where
  | start {bs : BlockService} (hs : newBlockService H = .ok bs) : Reachable [] bs
  | announce {announced : List Header} {bs bs' : BlockService} {h : Header} {fuel : Nat}
      {err : Option ServiceError} (hreach : Reachable announced bs)
      (hrun : bs.handleNewHeader H fuel h = .ret (bs', err)) :
      Reachable (h :: announced) bs'

structure Announcements (H : HashData) (announced : List Header) : Prop where
  fits : ∀ h ∈ announced, h.Fits
  injective : Set.InjOn (Header.hash H) {h | h = genesisHeader ∨ h ∈ announced}

theorem Announcements.tail (hall : Announcements H (h :: announced)) :
    Announcements H announced where
  fits h' hh' := hall.fits h' (mem_cons_of_mem h hh')
  injective := hall.injective.mono fun _ hh' => hh'.imp_right (mem_cons_of_mem h)

theorem Known.fresh (hknown : Known H announced bs)
    (hall : Announcements H (h :: announced)) : Fresh H bs h := by
  intro h' hh'
  have hsource := (hknown.source _ _ hh').imp_right (mem_cons_of_mem h)
  exact hall.injective hsource (.inr mem_cons_self) (hknown.own _ _ hh')

theorem genesisHeader_fits : genesisHeader.Fits := show 0 < 2 ^ 64 by decide

theorem newBlockService_known (H : HashData) :
    ∃ bs, newBlockService H = .ok bs ∧ Known H [] bs ∧ bs.knownLeaves = ∅ ∧
      bs.latestFinalized = ⟨genesisHeader.hash H, 1⟩ ∧
      bs.headerAt = adding H (fun _ => none) genesisHeader := by
  have hfits : genesisBlock.Fits := ⟨genesisHeader_fits, Block.zero_fits.extrinsic⟩
  obtain ⟨bytes, hbytes, -⟩ := blockFromBytes_bytes hfits
  obtain ⟨c₁, hput₁, hopen₁, hnew₁, hold₁⟩ :=
    putHeader_spec (c := newChain) H rfl genesisHeader_fits
  obtain ⟨c, hput, hopen, hnew, hold⟩ :=
    putBlock_headers H hopen₁ hbytes genesisHeader_fits
  let bs : BlockService := ⟨∅, ⟨genesisHeader.hash H, 1⟩, c⟩
  have hs : newBlockService H = .ok bs := by
    rw [newBlockService, hput₁]
    simp only
    rw [hput]
    rfl
  have hget : Finds c (adding H (fun _ => none) genesisHeader) := by
    intro hash
    by_cases hhash : hash = genesisHeader.hash H
    · rw [hhash, adding_self]
      exact hnew
    · rw [adding_of_ne hhash, hold hash hhash, hold₁ hash hhash]
      rfl
  have hhead : bs.headerAt = adding H (fun _ => none) genesisHeader :=
    headerAt_of_get hget
  have honly : ∀ hash hd, bs.headerAt hash = some hd →
      hash = genesisHeader.hash H ∧ hd = genesisHeader := by
    intro hash hd hheld
    rw [hhead] at hheld
    exact (adding_cases hheld).resolve_right nofun
  have hgenesis : bs.headerAt (genesisHeader.hash H) = some genesisHeader := by
    rw [hhead, adding_self]
  refine ⟨bs, hs, ?_, rfl, rfl, hhead⟩
  exact
    { isOpen := hopen
      get := by rwa [hhead]
      own := by
        intro hash hd hheld
        obtain ⟨rfl, rfl⟩ := honly hash hd hheld
        rfl
      source := fun hash hd hheld => .inl (honly hash hd hheld).2
      genesis := hgenesis
      parent := fun hash hd hheld => .inl (honly hash hd hheld).2
      slot := by
        intro hash hd hheld
        rw [(honly hash hd hheld).2]
        decide
      rooted := by
        intro hash hd hheld
        rw [(honly hash hd hheld).1]
        exact Descends.refl _ _
      finalized := ⟨genesisHeader, hgenesis, rfl⟩ }

theorem Reachable.known (hreach : Reachable H announced bs)
    (hall : Announcements H announced) : Known H announced bs := by
  induction hreach with
  | start hs =>
    obtain ⟨bs₀, hstart₀, hknown, -⟩ := newBlockService_known H
    cases hstart₀.symm.trans hs
    exact hknown
  | @announce announced bs bs' h fuel err hreach hrun ih =>
    have hknown := ih hall.tail
    have hfresh := hknown.fresh hall
    rcases handleNewHeader_cases hknown (hall.fits h mem_cons_self) hfresh hrun with
      ⟨-, rfl⟩ | ⟨-, hok⟩
    · -- a rejected header is not stored
      exact { hknown with
        source := fun hash hd hheld =>
          (hknown.source hash hd hheld).imp_right (mem_cons_of_mem h) }
    · exact hknown.step hfresh hok

theorem handleNewHeader_accepts (hknown : Known H announced bs) (hh : h.Fits) {fuel : Nat}
    (hanswer : bs.isDescendantOfFinalized H fuel h = .ret (.ok true)) :
    ∃ bs', bs.handleNewHeader H fuel h = .ret (bs', none) := by
  obtain ⟨c, hput, -, hget⟩ := putHeader_known hknown hh
  let bs₁ := ((BlockService.mk bs.knownLeaves bs.latestFinalized c).removeLeaf
    h.parentHash).addLeaf (h.hash H) h.timeSlotIndex
  have hget₁ : Finds bs₁.store bs₁.headerAt := by rwa [headerAt_of_get hget]
  unfold BlockService.handleNewHeader
  simp only [hanswer, hput, ret_bind]
  rcases checkFinalization_cases H hget₁ h.parentHash with
    ⟨g, hd, -, -, hcheck⟩ | ⟨-, hcheck⟩
  · exact ⟨_, bind_eq_ret.mpr ⟨_, hcheck, rfl⟩⟩
  · exact ⟨_, bind_eq_ret.mpr ⟨_, hcheck, rfl⟩⟩

theorem handleNewHeader_returns (hknown : Known H announced bs) (hh : h.Fits) :
    ∃ n, ∀ fuel, n ≤ fuel → (bs.handleNewHeader H fuel h).Returns := by
  obtain ⟨n, hn⟩ := walk_returns hknown h
  refine ⟨n, ?_⟩
  intro fuel hfuel
  obtain ⟨answer, hanswer⟩ := hn fuel hfuel
  match answer with
  | .ok true =>
    obtain ⟨bs', hrun⟩ := handleNewHeader_accepts hknown hh hanswer
    exact ⟨_, hrun⟩
  | .error e | .ok false =>
    unfold BlockService.handleNewHeader
    rw [hanswer]
    exact ⟨_, rfl⟩

def GenesisOnTop (H : HashData) (announced : List Header) : Prop :=
  ∀ h, h = genesisHeader ∨ h ∈ announced → h.hash H ≠ genesisHeader.parentHash

theorem acyclic_start (hgenesis : genesisHeader.hash H ≠ genesisHeader.parentHash)
    (hhead : bs.headerAt = adding H (fun _ => none) genesisHeader) :
    Acyclic bs.parentOf := by
  have hpar : ∀ a b, bs.parentOf a = some b →
      a = genesisHeader.hash H ∧ b = genesisHeader.parentHash := by
    intro a b hb
    obtain ⟨hd, hheld, rfl⟩ := parentOf_eq_some.mp hb
    rw [hhead] at hheld
    exact ((adding_cases hheld).resolve_right nofun).imp_right (congrArg Header.parentHash)
  intro a k hcycle
  obtain ⟨b, -, hb⟩ := ancestor_succ_eq_some.mp hcycle
  obtain ⟨p, hp, -⟩ := Option.bind_eq_some_iff.mp hcycle
  exact hgenesis ((hpar a p hp).1.symm.trans (hpar b a hb).2)

theorem Accepted.no_child (hknown : Known H announced bs) (hfresh : Fresh H bs h)
    (hok : Accepted H bs h bs') (hnew : bs.headerAt (h.hash H) = none)
    (hgenesis : h.hash H ≠ genesisHeader.parentHash) (a : Hash) :
    bs'.parentOf a ≠ some (h.hash H) := by
  intro ha
  obtain ⟨hd, hheld, hpar⟩ := parentOf_eq_some.mp ha
  have hsource : hd = genesisHeader ∨ ∃ p, bs.headerAt hd.parentHash = some p := by
    rcases hok.headerAt_cases hheld with ⟨-, rfl⟩ | hold
    · exact hok.parent_held hknown hfresh
    · exact hknown.parent a hd hold
  rcases hsource with rfl | ⟨p, hp⟩
  · exact hgenesis hpar.symm
  · rw [hpar, hnew] at hp
    cases hp

theorem Reachable.acyclic (hreach : Reachable H announced bs)
    (hall : Announcements H announced) (htop : GenesisOnTop H announced) :
    Acyclic bs.parentOf := by
  induction hreach with
  | start hs =>
    obtain ⟨bs₀, hstart₀, -, -, -, hhead⟩ := newBlockService_known H
    cases hstart₀.symm.trans hs
    exact acyclic_start (htop _ (.inl rfl)) hhead
  | @announce announced bs bs' h fuel err hreach hrun ih =>
    have hknown := hreach.known hall.tail
    have hfresh := hknown.fresh hall
    have hacyclic := ih hall.tail fun h' hh' => htop h' (hh'.imp_right (mem_cons_of_mem h))
    rcases handleNewHeader_cases hknown (hall.fits h mem_cons_self) hfresh hrun with
      ⟨-, rfl⟩ | ⟨-, hok⟩
    · exact hacyclic
    · cases hheld : bs.headerAt (h.hash H) with
      | some h' =>
        have hhead : bs'.headerAt = bs.headerAt := by
          rw [hok.headers, ← hfresh h' hheld, adding, hknown.own _ _ hheld, ← hheld]
          exact Function.update_eq_self _ _
        have hparentOf : bs'.parentOf = bs.parentOf := by
          funext hash
          rw [BlockService.parentOf, hhead]
          rfl
        rw [hparentOf]
        exact hacyclic
      | none =>
        refine hacyclic.extend ?_ (hok.no_child hknown hfresh hheld (htop h (.inr mem_cons_self)))
        intro a ha
        rw [BlockService.parentOf, hok.headers, adding_of_ne ha]
        rfl

end Strawberry.Chain
