import Strawberry.Chain.Announcements
import Strawberry.Store.Sequence

/-!
# Finality

Which announcements keep the finalized block above the one before it, and which keep the known
leaves leaves.
-/

namespace Strawberry.Chain

open Block Jam Store Ancestry

variable {H : HashData} {c : Nat → Header} {n m i j : Nat} {bs bs' : BlockService}

def upTo (c : Nat → Header) : Nat → List Header
  | 0 => []
  | n + 1 => c (n + 1) :: upTo c n

theorem mem_upTo {h : Header} : h ∈ upTo c n ↔ ∃ i, i < n ∧ h = c (i + 1) := by
  induction n with
  | zero => simp [upTo]
  | succ n ih =>
    rw [upTo, List.mem_cons, ih]
    constructor
    · rintro (rfl | ⟨i, hi, rfl⟩)
      · exact ⟨n, by omega, rfl⟩
      · exact ⟨i, by omega, rfl⟩
    · rintro ⟨i, hi, rfl⟩
      by_cases h : i = n
      · exact .inl (by rw [h])
      · exact .inr ⟨i, by omega, rfl⟩

/-- The headers of `announced` are on the chain `c`, not above `m`. -/
abbrev Along (c : Nat → Header) (m : Nat) (announced : List Header) : Prop :=
  ∀ x ∈ announced, ∃ i, i ≤ m ∧ x = c i

theorem upTo_along (hn : n ≤ m) : Along c m (upTo c n) := by
  intro x hx
  obtain ⟨i, hi, rfl⟩ := mem_upTo.mp hx
  exact ⟨i + 1, by omega, rfl⟩

theorem Along.cons {announced : List Header} (h : Along c m announced) (hi : i ≤ m) :
    Along c m (c i :: announced) :=
  List.forall_mem_cons.mpr ⟨⟨i, hi, rfl⟩, h⟩

abbrev Stores (H : HashData) (c : Nat → Header) (n : Nat) (bs : BlockService) : Prop :=
  ∀ i, i ≤ n → bs.headerAt ((c i).hash H) = some (c i)

structure Linked (H : HashData) (c : Nat → Header) (m : Nat) : Prop where
  genesis : c 0 = genesisHeader
  fits : ∀ i, i ≤ m → (c i).Fits
  parent : ∀ i, i < m → (c (i + 1)).parentHash = (c i).hash H
  slot : ∀ i, i < m → (c i).timeSlotIndex < (c (i + 1)).timeSlotIndex
  injective : Set.InjOn (Header.hash H) {h | ∃ i, i ≤ m ∧ h = c i}
  top : ∀ i, i ≤ m → (c i).hash H ≠ genesisHeader.parentHash

structure Grown (H : HashData) (c : Nat → Header) (n : Nat) (bs : BlockService) :
    Prop where
  reachable : Reachable H (upTo c n) bs
  headers : Stores H c n bs
  finalized : bs.latestFinalized = ⟨(c (n - 6)).hash H, (c (n - 6)).timeSlotIndex⟩

theorem Accepted.leaf_mem {h : Header} (hok : Accepted H bs h bs')
    (hacyclic : Acyclic bs'.parentOf) : h.hash H ∈ bs'.knownLeaves := by
  cases hok.finalization with
  | moved g hd hancestor _ _ hkept =>
    rw [hkept, Finmap.mem_erase, Finmap.mem_insert]
    refine ⟨?_, .inl rfl⟩
    rintro rfl
    exact hacyclic _ 5 hancestor
  | kept _ _ hkept =>
    rw [hkept, Finmap.mem_insert]
    exact .inl rfl

section

variable (hlinked : Linked H c m)
include hlinked

theorem Linked.slot_lt (hij : i < j) (hj : j ≤ m) : (c i).timeSlotIndex < (c j).timeSlotIndex := by
  induction j with
  | zero => omega
  | succ j ih =>
    have hstep := hlinked.slot j (by omega)
    by_cases h : i = j
    · rwa [h]
    · exact UInt32.lt_trans (ih (by omega) (by omega)) hstep

variable {announced : List Header}

theorem Linked.announcements (h : Along c m announced) : Announcements H announced where
  fits := by
    intro x hx
    obtain ⟨i, hi, rfl⟩ := h x hx
    exact hlinked.fits i hi
  injective := by
    refine hlinked.injective.mono ?_
    rintro x (rfl | hx)
    · exact ⟨0, Nat.zero_le m, hlinked.genesis.symm⟩
    · exact h x hx

theorem Linked.genesisOnTop (h : Along c m announced) : GenesisOnTop H announced := by
  rintro x (rfl | hx)
  · have htop := hlinked.top 0 (Nat.zero_le m)
    rwa [hlinked.genesis] at htop
  · obtain ⟨i, hi, rfl⟩ := h x hx
    exact hlinked.top i hi

theorem Linked.ancestor_eq (hhead : Stores H c n bs) (hn : n ≤ m) (hi : i ≤ n) (hj : j ≤ i) :
    ancestor bs.parentOf j ((c i).hash H) = some ((c (i - j)).hash H) := by
  induction j generalizing i with
  | zero => rfl
  | succ j ih =>
    obtain ⟨i, rfl⟩ : ∃ k, i = k + 1 := ⟨i - 1, by omega⟩
    have hstep : bs.parentOf ((c (i + 1)).hash H) = some ((c i).hash H) :=
      parentOf_eq_some.mpr ⟨_, hhead _ hi, hlinked.parent i (by omega)⟩
    rw [ancestor_succ hstep, ih (by omega) (by omega), Nat.add_sub_add_right]

theorem Linked.above_genesis (hknown : Known H announced bs)
    (h : Along c m announced) {g : Hash} {hd : Header}
    (hg : ancestor bs.parentOf (j + 1) (genesisHeader.hash H) = some g)
    (hheld : bs.headerAt g = some hd) : False := by
  have hmissing : bs.headerAt genesisHeader.parentHash = none := by
    cases hp : bs.headerAt genesisHeader.parentHash with
    | none => rfl
    | some p =>
      have hsource := hknown.source _ _ hp
      exact absurd (hknown.own _ _ hp) (hlinked.genesisOnTop h p hsource)
  have hstep : bs.parentOf (genesisHeader.hash H) = some genesisHeader.parentHash :=
    parentOf_eq_some.mpr ⟨_, hknown.genesis, rfl⟩
  rw [ancestor_succ hstep] at hg
  cases j with
  | zero =>
    cases hg
    rw [hmissing] at hheld
    cases hheld
  | succ j =>
    obtain ⟨p, hp, -⟩ := Option.bind_eq_some_iff.mp hg
    rw [BlockService.parentOf, hmissing] at hp
    cases hp

theorem Linked.descendant (hknown : Known H announced bs) (hhead : Stores H c n bs)
    (hfinal : bs.latestFinalized = ⟨(c j).hash H, (c j).timeSlotIndex⟩)
    (hij : j ≤ i) (hi : i ≤ n + 1) (him : i ≤ m) {fuel : Nat} (hfuel : i - j < fuel) :
    bs.isDescendantOfFinalized H fuel (c i) = .ret (.ok true) := by
  unfold BlockService.isDescendantOfFinalized
  induction fuel generalizing i with
  | zero => omega
  | succ fuel ih =>
    by_cases h : i = j
    · have hround : bs.descendantRound H (c i) = .ret (.done (.ok true)) := by
        rw [h, BlockService.descendantRound, hfinal, if_neg (UInt32.lt_irrefl _), if_pos rfl]
        simp
      exact loop_done hround
    · obtain ⟨i, rfl⟩ : ∃ k, i = k + 1 := ⟨i - 1, by omega⟩
      have hround : bs.descendantRound H (c (i + 1)) = .ret (.next (c i)) := by
        have hslot := hlinked.slot_lt (show j < i + 1 by omega) him
        rw [BlockService.descendantRound, hfinal, if_pos hslot,
          hlinked.parent i (by omega), hknown.get, hhead i (by omega)]
        rfl
      rw [loop_next hround]
      exact ih (by omega) (by omega) (by omega) (by omega)

theorem Linked.finalizes (hknown : Known H announced bs')
    (h : Along c m announced) (hok : Accepted H bs (c i) bs')
    (hhead : Stores H c n bs') (hn : n ≤ m) (hi : i ≤ n) (hs : i < 6 →
      bs.latestFinalized = ⟨(c 0).hash H, (c 0).timeSlotIndex⟩) :
    bs'.latestFinalized = ⟨(c (i - 6)).hash H, (c (i - 6)).timeSlotIndex⟩ := by
  by_cases hsix : 6 ≤ i
  · have hancestor := hlinked.ancestor_eq hhead hn hi hsix
    cases hok.finalization with
    | moved g hd hg hheld hfinal _ =>
      cases hg.symm.trans hancestor
      cases hheld.symm.trans (hhead (i - 6) (by omega))
      exact hfinal
    | kept hmissing _ _ =>
      have hnone := hmissing _ hancestor
      rw [hhead (i - 6) (by omega)] at hnone
      cases hnone
  · have hzero : i - 6 = 0 := by omega
    cases hok.finalization with
    | moved g hd hg hheld _ _ =>
      have hgenesis := hlinked.ancestor_eq hhead hn hi (Nat.le_refl i)
      rw [Nat.sub_self, hlinked.genesis] at hgenesis
      obtain ⟨j, hj⟩ : ∃ j, 6 = i + (j + 1) := ⟨5 - i, by omega⟩
      rw [hj, ancestor_add hgenesis] at hg
      exact (hlinked.above_genesis hknown h hg hheld).elim
    | kept _ hfinal _ =>
      rw [hfinal, hs (by omega), hzero]

theorem Linked.accepts (hgrown : Grown H c n bs) (hi : i ≤ n + 1) (him : i ≤ m)
    (hn : n ≤ m) (hlow : n - 6 ≤ i) (hpos : 0 < i) :
    ∃ fuel bs', bs.handleNewHeader H fuel (c i) = .ret (bs', none) ∧
      Reachable H (c i :: upTo c n) bs' ∧ Known H (c i :: upTo c n) bs' ∧
      Accepted H bs (c i) bs' ∧
      Stores H c (max n i) bs' := by
  have hall := hlinked.announcements ((upTo_along hn).cons him)
  have hknown := hgrown.reachable.known hall.tail
  have hanswer := hlinked.descendant hknown hgrown.headers hgrown.finalized hlow hi him
    (Nat.lt_succ_self (i - (n - 6)))
  obtain ⟨bs', hrun⟩ := handleNewHeader_accepts hknown (hlinked.fits i him) hanswer
  have hfresh := hknown.fresh hall
  have hok : Accepted H bs (c i) bs' := by
    rcases handleNewHeader_cases hknown (hlinked.fits i him) hfresh hrun with
      ⟨⟨e, he⟩, -⟩ | ⟨-, hok⟩
    · cases he
    · exact hok
  refine ⟨_, bs', hrun, hgrown.reachable.announce hrun, hknown.step hfresh hok, hok, ?_⟩
  intro j hj
  by_cases h : j ≤ n
  · exact hok.headerAt hfresh (hgrown.headers j h)
  · obtain rfl : j = i := by omega
    exact hok.headerAt_self

theorem Linked.grown_zero : ∃ bs, newBlockService H = .ok bs ∧ Grown H c 0 bs := by
  obtain ⟨bs, hs, hknown, -, hfinal, -⟩ := newBlockService_known H
  refine ⟨bs, hs, .start hs, ?_, ?_⟩
  · intro i hi
    obtain rfl : i = 0 := by omega
    rw [hlinked.genesis]
    exact hknown.genesis
  · rw [hfinal, hlinked.genesis]
    rfl

theorem Linked.grown_succ (hgrown : Grown H c n bs) (hn : n < m) :
    ∃ fuel bs', bs.handleNewHeader H fuel (c (n + 1)) = .ret (bs', none) ∧
      Grown H c (n + 1) bs' := by
  obtain ⟨fuel, bs', hrun, hreach, hknown, hok, hhead⟩ :=
    hlinked.accepts hgrown (Nat.le_refl _) hn (by omega) (by omega) (by omega)
  have hhead' : Stores H c (n + 1) bs' := fun j hj => hhead j (by omega)
  refine ⟨fuel, bs', hrun, hreach, hhead', ?_⟩
  refine hlinked.finalizes hknown (upTo_along hn) hok hhead' hn (Nat.le_refl _) ?_
  intro hlt
  rw [hgrown.finalized, show n - 6 = 0 by omega]

theorem Linked.grown (hn : n ≤ m) : ∃ bs, Grown H c n bs := by
  induction n with
  | zero =>
    obtain ⟨bs, -, hgrown⟩ := hlinked.grown_zero
    exact ⟨bs, hgrown⟩
  | succ n ih =>
    obtain ⟨bs, hgrown⟩ := ih (by omega)
    obtain ⟨-, bs', -, hgrown'⟩ := hlinked.grown_succ hgrown hn
    exact ⟨bs', hgrown'⟩

theorem Linked.announced_again (hgrown : Grown H c (n + 7) bs) (hn : n + 7 ≤ m) :
    ∃ fuel bs', bs.handleNewHeader H fuel (c (n + 6)) = .ret (bs', none) ∧
      bs'.latestFinalized = ⟨(c n).hash H, (c n).timeSlotIndex⟩ ∧
      Acyclic bs'.parentOf ∧
      bs'.parentOf ((c (n + 1)).hash H) = some ((c n).hash H) ∧
      (c (n + 6)).hash H ∈ bs'.knownLeaves ∧
      bs'.parentOf ((c (n + 7)).hash H) = some ((c (n + 6)).hash H) := by
  obtain ⟨fuel, bs', hrun, hreach, hknown, hok, hhead⟩ :=
    hlinked.accepts (i := n + 6) hgrown (by omega) (by omega) hn (by omega) (by omega)
  have hmem : Along c m (c (n + 6) :: upTo c (n + 7)) := (upTo_along hn).cons (by omega)
  have hhead' : Stores H c (n + 7) bs' := fun j hj => hhead j (by omega)
  have hpar : ∀ j, j < n + 7 → bs'.parentOf ((c (j + 1)).hash H) = some ((c j).hash H) :=
    fun j hj => parentOf_eq_some.mpr ⟨_, hhead' (j + 1) (by omega), hlinked.parent j (by omega)⟩
  have hacyclic := hreach.acyclic (hlinked.announcements hmem) (hlinked.genesisOnTop hmem)
  refine ⟨fuel, bs', hrun, ?_, hacyclic, hpar n (by omega), ?_, hpar (n + 6) (by omega)⟩
  · have hfinal := hlinked.finalizes hknown hmem hok hhead' hn (by omega) (by omega)
    rwa [Nat.add_sub_cancel] at hfinal
  · exact hok.leaf_mem hacyclic

end

def link : Nat → Header
  | 0 => genesisHeader
  | i + 1 =>
    { Header.zero with
      parentHash := hashOf [255, UInt8.ofNat (i + 1)]
      timeSlotIndex := UInt32.ofNat (i + 2) }

theorem hash_link : ∀ i, i ≤ 7 → (link i).hash slotHash = hashOf [255, UInt8.ofNat (i + 1)] := by
  decide +kernel

theorem link_fits : ∀ i, (link i).Fits
  | 0 => genesisHeader_fits
  | _ + 1 => show 0 < 2 ^ 64 by decide

theorem link_linked : Linked slotHash link 7 where
  genesis := rfl
  fits i _ := link_fits i
  parent i hi := by rw [hash_link i (by omega), link]
  slot := by decide
  injective := by
    rintro _ ⟨i, hi, rfl⟩ _ ⟨j, hj, rfl⟩ heq
    rw [hash_link i hi, hash_link j hj] at heq
    have hinj : ∀ i ≤ 7, ∀ j ≤ 7, hashOf [255, UInt8.ofNat (i + 1)] =
        hashOf [255, UInt8.ofNat (j + 1)] → i = j := by decide +kernel
    rw [hinj i hi j hj heq]
  top i hi := by
    rw [hash_link i hi]
    have hne : ∀ i ≤ 7, hashOf [255, UInt8.ofNat (i + 1)] ≠ genesisHeader.parentHash := by
      decide +kernel
    exact hne i hi

/-- Headers announced along one chain are all accepted, and the sixth below the last is final. -/
theorem linked_chain_finalizes (hlinked : Linked H c m) (hn : n < m) :
    ∃ bs, Reachable H (upTo c n) bs ∧
      bs.latestFinalized = ⟨(c (n - 6)).hash H, (c (n - 6)).timeSlotIndex⟩ ∧
      (∀ i, i ≤ n → ancestor bs.parentOf i ((c n).hash H) = some ((c (n - i)).hash H)) ∧
      ∃ fuel bs', bs.handleNewHeader H fuel (c (n + 1)) = .ret (bs', none) := by
  obtain ⟨bs, hgrown⟩ := hlinked.grown (Nat.le_of_lt hn)
  obtain ⟨fuel, bs', hrun, -⟩ := hlinked.grown_succ hgrown hn
  refine ⟨bs, hgrown.reachable, hgrown.finalized, fun i hi => ?_, fuel, bs', hrun⟩
  exact hlinked.ancestor_eq hgrown.headers (Nat.le_of_lt hn) (Nat.le_refl n) hi

theorem six_links_finalize : ∃ bs, Reachable slotHash (upTo link 6) bs ∧
    bs.latestFinalized = ⟨genesisHeader.hash slotHash, 1⟩ := by
  obtain ⟨bs, hreach, hfinal, -⟩ := linked_chain_finalizes link_linked (n := 6) (by decide)
  exact ⟨bs, hreach, hfinal⟩

variable {H : HashData} {announced : List Header} {bs bs' : BlockService} {h : Header}

def BlockService.parentWith (H : HashData) (bs : BlockService) (h : Header) (hash : Hash) :
    Option Hash := (adding H bs.headerAt h hash).map (·.parentHash)

/-- The sixth generation above `h`, if it is stored: the block that `h` finalizes. -/
def SixthAncestor (H : HashData) (bs : BlockService) (h : Header) (g : Hash) : Prop :=
  ancestor (bs.parentWith H h) 6 (h.hash H) = some g ∧ ∃ hd, adding H bs.headerAt h g = some hd

def SixAbove (H : HashData) (bs : BlockService) (h : Header) : Prop :=
  ∀ g, SixthAncestor H bs h g → ∃ k, 6 ≤ k ∧
    ancestor (bs.parentWith H h) k (h.hash H) = some bs.latestFinalized.hash

theorem Accepted.parentWith (hok : Accepted H bs h bs') : bs'.parentOf = bs.parentWith H h := by
  funext hash
  rw [BlockService.parentOf, hok.headers]
  rfl

theorem Accepted.finalized (hok : Accepted H bs h bs') :
    (∃ g, SixthAncestor H bs h g ∧ bs'.latestFinalized.hash = g) ∨
      (∀ g, ¬ SixthAncestor H bs h g) ∧ bs'.latestFinalized = bs.latestFinalized := by
  have hpar := hok.parentWith
  cases hok.finalization with
  | moved g hd hancestor hheld hfinal _ =>
    rw [hpar] at hancestor
    rw [hok.headers] at hheld
    exact .inl ⟨g, ⟨hancestor, hd, hheld⟩, by rw [hfinal]⟩
  | kept hmissing hfinal _ =>
    refine .inr ⟨?_, hfinal⟩
    rintro g ⟨hancestor, hd, hheld⟩
    rw [← hpar] at hancestor
    have hnone := hmissing g hancestor
    rw [hok.headers] at hnone
    exact nomatch hheld.symm.trans hnone

theorem Accepted.finality_of_six (hok : Accepted H bs h bs') (hsix : SixAbove H bs h) :
    Descends bs'.parentOf bs'.latestFinalized.hash bs.latestFinalized.hash := by
  rcases hok.finalized with ⟨g, hsixth, hfinal⟩ | ⟨-, hfinal⟩
  · obtain ⟨k, hk, hancestor⟩ := hsix g hsixth
    obtain ⟨g', hg', hup⟩ := exists_ancestor_of_le hancestor hk
    cases hg'.symm.trans hsixth.1
    rw [hfinal, hok.parentWith]
    exact ⟨k - 6, hup⟩
  · rw [hfinal]
    exact Descends.refl _ _

theorem Accepted.six_of_finality (hok : Accepted H bs h bs') (hacyclic : Acyclic bs'.parentOf)
    (hdescends : Descends bs'.parentOf bs'.latestFinalized.hash bs.latestFinalized.hash) :
    SixAbove H bs h := by
  intro g hsixth
  obtain ⟨k, hk⟩ := hok.above
  rw [hok.parentWith] at hacyclic hdescends hk
  refine ⟨k, ?_, hk⟩
  rcases hok.finalized with ⟨g', hsixth', hfinal⟩ | ⟨hnone, -⟩
  · rw [hfinal] at hdescends
    obtain ⟨j, hj⟩ := hdescends
    refine Nat.not_lt.mp fun hlt => ?_
    obtain ⟨f, hf, hup⟩ := exists_ancestor_of_le hsixth'.1 (Nat.le_of_lt hlt)
    cases hk.symm.trans hf
    have hcycle := (ancestor_add (k := j) hup).trans hj
    obtain ⟨n, hn⟩ : ∃ n, 6 - k + j = n + 1 := ⟨6 - k + j - 1, by omega⟩
    rw [hn] at hcycle
    exact hacyclic _ n hcycle
  · exact absurd hsixth (hnone g)

/-- When the new finalized block descends from the old one. -/
theorem finality_monotone_iff (hreach : Reachable H announced bs)
    (hall : Announcements H (h :: announced)) :
    (∃ n, ∀ fuel, n ≤ fuel → (bs.handleNewHeader H fuel h).Returns) ∧
    ∀ fuel bs' err, bs.handleNewHeader H fuel h = .ret (bs', err) → (err.isSome → bs' = bs) ∧
      (err = none → (SixAbove H bs h →
          Descends bs'.parentOf bs'.latestFinalized.hash bs.latestFinalized.hash) ∧
        (GenesisOnTop H (h :: announced) →
          Descends bs'.parentOf bs'.latestFinalized.hash bs.latestFinalized.hash →
          SixAbove H bs h)) := by
  have hknown := hreach.known hall.tail
  refine ⟨handleNewHeader_returns hknown (hall.fits h List.mem_cons_self), ?_⟩
  intro fuel bs' err hrun
  rcases handleNewHeader_cases hknown (hall.fits h List.mem_cons_self) (hknown.fresh hall) hrun with
    ⟨⟨e, rfl⟩, rfl⟩ | ⟨rfl, hok⟩
  · exact ⟨fun _ => rfl, nofun⟩
  · refine ⟨nofun, fun _ => ⟨hok.finality_of_six, ?_⟩⟩
    intro htop
    exact hok.six_of_finality ((hreach.announce hrun).acyclic hall htop)

theorem link_announced_again : ∃ bs bs' fuel, Reachable slotHash (upTo link 7) bs ∧
      bs.latestFinalized = ⟨(link 1).hash slotHash, 2⟩ ∧
      bs.handleNewHeader slotHash fuel (link 6) = .ret (bs', none) ∧
      bs'.latestFinalized = ⟨genesisHeader.hash slotHash, 1⟩ ∧
      ¬ Descends bs'.parentOf bs'.latestFinalized.hash bs.latestFinalized.hash ∧
      (link 6).hash slotHash ∈ bs'.knownLeaves ∧
      bs'.parentOf ((link 7).hash slotHash) = some ((link 6).hash slotHash) := by
  obtain ⟨bs, hgrown⟩ := link_linked.grown (Nat.le_refl 7)
  obtain ⟨fuel, bs', hrun, hfinal, hacyclic, hpar, hleaf⟩ :=
    link_linked.announced_again (n := 0) hgrown (Nat.le_refl 7)
  refine ⟨bs, bs', fuel, hgrown.reachable, hgrown.finalized, hrun, hfinal, ?_, hleaf⟩
  rw [hfinal, hgrown.finalized]
  rintro ⟨k, hk⟩
  refine hacyclic ((link 1).hash slotHash) k ?_
  rw [ancestor_succ hpar]
  exact hk

theorem finality_kept_unless_announced_again : ∃ bs, Reachable slotHash (upTo link 7) bs ∧
    Announcements slotHash (link 6 :: upTo link 7) ∧ ¬ SixAbove slotHash bs (link 6) := by
  obtain ⟨bs, bs', fuel, hreach, -, hrun, -, hback, -⟩ := link_announced_again
  have hall : Announcements slotHash (link 6 :: upTo link 7) :=
    link_linked.announcements ((upTo_along (Nat.le_refl 7)).cons (by decide))
  refine ⟨bs, hreach, hall, fun hsix => hback ?_⟩
  exact (((finality_monotone_iff hreach hall).2 fuel bs' none hrun).2 rfl).1 hsix

theorem finality_moves_back : ∃ bs bs' fuel, Reachable slotHash (upTo link 7) bs ∧
      bs.latestFinalized = ⟨(link 1).hash slotHash, 2⟩ ∧
      bs.handleNewHeader slotHash fuel (link 6) = .ret (bs', none) ∧
      bs'.latestFinalized = ⟨genesisHeader.hash slotHash, 1⟩ ∧
      ¬ Descends bs'.parentOf bs'.latestFinalized.hash bs.latestFinalized.hash := by
  obtain ⟨bs, bs', fuel, hreach, hpre, hrun, hafter, hback, -⟩ := link_announced_again
  exact ⟨bs, bs', fuel, hreach, hpre, hrun, hafter, hback⟩

def LeafInvariant (bs : BlockService) : Prop :=
  ∀ leaf ∈ bs.knownLeaves, (∃ hd, bs.headerAt leaf = some hd) ∧
    (∀ hash, bs.parentOf hash ≠ some leaf) ∧
    Descends bs.parentOf leaf bs.latestFinalized.hash

def KeepsLeaves (H : HashData) (bs : BlockService) (h : Header) : Prop :=
  (∀ hash, bs.parentOf hash ≠ some (h.hash H)) ∧
  ∀ g, SixthAncestor H bs h g → ∀ leaf ∈ bs.knownLeaves, leaf ≠ h.parentHash →
    Descends (bs.parentWith H h) leaf g

theorem Accepted.mem_leaves (hok : Accepted H bs h bs') {leaf : Hash} :
    (leaf ∈ bs'.knownLeaves → leaf = h.hash H ∨ (leaf ∈ bs.knownLeaves ∧ leaf ≠ h.parentHash)) ∧
    (leaf = h.hash H ∨ (leaf ∈ bs.knownLeaves ∧ leaf ≠ h.parentHash) →
      leaf ∈ bs'.knownLeaves ∨ leaf = bs'.latestFinalized.hash) := by
  have hleaves : leaf ∈ (bs.knownLeaves.erase h.parentHash).insert (h.hash H)
      h.timeSlotIndex ↔ leaf = h.hash H ∨ (leaf ∈ bs.knownLeaves ∧ leaf ≠ h.parentHash) := by
    rw [Finmap.mem_insert, Finmap.mem_erase, and_comm]
  cases hok.finalization with
  | moved g hd _ _ hfinal hkept =>
    rw [hkept, hfinal, Finmap.mem_erase, hleaves]
    refine ⟨And.right, fun hmem => ?_⟩
    by_cases hg : leaf = g
    · exact .inr hg
    · exact .inl ⟨hg, hmem⟩
  | kept _ _ hkept =>
    rw [hkept, hleaves]
    exact ⟨id, .inl⟩

theorem Accepted.descends (hok : Accepted H bs h bs') :
    Descends bs'.parentOf (h.hash H) bs'.latestFinalized.hash := by
  rcases hok.finalized with ⟨g, hsixth, hfinal⟩ | ⟨-, hfinal⟩
  · rw [hfinal, hok.parentWith]
    exact ⟨6, hsixth.1⟩
  · rw [hfinal]
    exact hok.above

section

variable (hknown : Known H announced bs) (hfresh : Fresh H bs h)
  (hok : Accepted H bs h bs')
include hfresh hok

theorem Accepted.parentOf_cases {hash p : Hash} (hp : bs'.parentOf hash = some p) :
    (hash = h.hash H ∧ p = h.parentHash) ∨ bs.parentOf hash = some p := by
  obtain ⟨hd, hheld, rfl⟩ := parentOf_eq_some.mp hp
  rcases hok.headerAt_cases hheld with ⟨rfl, rfl⟩ | hold
  · exact .inl ⟨rfl, rfl⟩
  · exact .inr (parentOf_eq_some.mpr ⟨hd, hold, rfl⟩)

include hknown

theorem Accepted.parent_ne (hleaf : ∀ hash, bs.parentOf hash ≠ some (h.hash H)) :
    h.parentHash ≠ h.hash H := by
  intro heq
  have hheld : ∃ hd, bs.headerAt (h.hash H) = some hd := by
    rcases hok.parent with hhash | hp
    · obtain ⟨fh, hfh, -⟩ := hknown.finalized
      exact ⟨fh, by rw [hhash, hfh]⟩
    · rwa [heq] at hp
  obtain ⟨hd, hheld⟩ := hheld
  refine hleaf (h.hash H) (parentOf_eq_some.mpr ⟨hd, hheld, ?_⟩)
  rw [hfresh hd hheld, heq]

theorem Accepted.leaves_of_keeps (hinv : LeafInvariant bs)
    (hkeeps : KeepsLeaves H bs h) : LeafInvariant bs' := by
  intro leaf hleaf
  rcases hok.mem_leaves.1 hleaf with rfl | ⟨hmem, hne⟩
  · refine ⟨⟨h, hok.headerAt_self⟩, ?_, hok.descends⟩
    intro hash hp
    rcases hok.parentOf_cases hfresh hp with ⟨-, heq⟩ | hold
    · exact hok.parent_ne hknown hfresh hkeeps.1 heq.symm
    · exact hkeeps.1 hash hold
  · obtain ⟨⟨hd, hheld⟩, hchildless, hdescends⟩ := hinv leaf hmem
    refine ⟨⟨hd, hok.headerAt hfresh hheld⟩, fun hash hp => ?_, ?_⟩
    · rcases hok.parentOf_cases hfresh hp with ⟨-, heq⟩ | hold
      · exact hne heq
      · exact hchildless hash hold
    · rcases hok.finalized with ⟨g, hsixth, hfinal⟩ | ⟨-, hfinal⟩
      · rw [hfinal, hok.parentWith]
        exact hkeeps.2 g hsixth leaf hmem hne
      · rw [hfinal]
        exact hdescends.mono fun _ _ => hok.parentOf hfresh

omit hknown in
theorem Accepted.keeps_of_leaves (hacyclic : Acyclic bs'.parentOf) (hinv : LeafInvariant bs') :
    KeepsLeaves H bs h := by
  constructor
  · have hmem := hok.leaf_mem hacyclic
    intro hash hp
    exact (hinv _ hmem).2.1 hash (hok.parentOf hfresh hp)
  · intro g hsixth leaf hleaf hne
    rcases hok.finalized with ⟨g', hsixth', hfinal⟩ | ⟨hnone, -⟩
    · cases hsixth'.1.symm.trans hsixth.1
      rw [← hok.parentWith, ← hfinal]
      rcases hok.mem_leaves.2 (.inr ⟨hleaf, hne⟩) with hmem | heq
      · exact (hinv leaf hmem).2.2
      · rw [heq]
        exact Descends.refl _ _
    · exact absurd hsixth (hnone g)

end

theorem leafInvariant_start (hs : newBlockService H = .ok bs) : LeafInvariant bs := by
  obtain ⟨bs₀, hstart₀, -, hempty, -⟩ := newBlockService_known H
  cases hstart₀.symm.trans hs
  intro leaf hleaf
  rw [hempty] at hleaf
  exact absurd hleaf Finmap.notMem_empty

variable (H) in
inductive KeepingRun : List Header → BlockService → Prop where
  | start {bs : BlockService} (hs : newBlockService H = .ok bs) : KeepingRun [] bs
  | announce {announced : List Header} {bs bs' : BlockService} {h : Header} {fuel : Nat}
      {err : Option ServiceError} (hpre : KeepingRun announced bs)
      (hrun : bs.handleNewHeader H fuel h = .ret (bs', err))
      (hkeeps : err = none → KeepsLeaves H bs h) : KeepingRun (h :: announced) bs'

theorem KeepingRun.reachable (hkeeping : KeepingRun H announced bs) : Reachable H announced bs := by
  induction hkeeping with
  | start hs => exact .start hs
  | announce _ hrun _ ih => exact .announce ih hrun

theorem KeepingRun.leafInvariant (hkeeping : KeepingRun H announced bs)
    (hall : Announcements H announced) : LeafInvariant bs := by
  induction hkeeping with
  | start hs => exact leafInvariant_start hs
  | @announce announced bs bs' h fuel err hpre hrun hkeeps ih =>
    have hknown := hpre.reachable.known hall.tail
    have hfresh := hknown.fresh hall
    rcases handleNewHeader_cases hknown (hall.fits h List.mem_cons_self) hfresh hrun with
      ⟨-, rfl⟩ | ⟨herr, hok⟩
    · exact ih hall.tail
    · exact hok.leaves_of_keeps hknown hfresh (ih hall.tail) (hkeeps herr)

/-- When the leaves are the blocks without children. -/
theorem leaf_invariant_iff (hreach : Reachable H announced bs)
    (hall : Announcements H (h :: announced)) :
    (KeepingRun H announced bs → LeafInvariant bs) ∧
    ∀ fuel bs' err, bs.handleNewHeader H fuel h = .ret (bs', err) → LeafInvariant bs →
      (err.isSome → LeafInvariant bs') ∧
      (err = none → (KeepsLeaves H bs h → LeafInvariant bs') ∧
        (GenesisOnTop H (h :: announced) → LeafInvariant bs' → KeepsLeaves H bs h)) := by
  have hknown := hreach.known hall.tail
  have hfresh := hknown.fresh hall
  refine ⟨fun hkeeping => hkeeping.leafInvariant hall.tail, ?_⟩
  intro fuel bs' err hrun hinv
  rcases handleNewHeader_cases hknown (hall.fits h List.mem_cons_self) hfresh hrun with
    ⟨⟨e, rfl⟩, rfl⟩ | ⟨rfl, hok⟩
  · exact ⟨fun _ => hinv, nofun⟩
  · refine ⟨nofun, fun _ => ⟨hok.leaves_of_keeps hknown hfresh hinv, ?_⟩⟩
    intro htop
    exact hok.keeps_of_leaves hfresh ((hreach.announce hrun).acyclic hall htop)

theorem leaf_invariant_from_genesis :
    ∃ bs bs' fuel, newBlockService slotHash = .ok bs ∧ LeafInvariant bs ∧
      bs.handleNewHeader slotHash fuel (link 1) = .ret (bs', none) ∧ LeafInvariant bs' := by
  obtain ⟨bs, hs, hgrown⟩ := link_linked.grown_zero
  obtain ⟨fuel, bs', hrun, -⟩ := link_linked.grown_succ hgrown (by decide)
  have hall := link_linked.announcements (upTo_along (n := 1) (by decide))
  obtain ⟨hkeeping, hstep⟩ := leaf_invariant_iff hgrown.reachable hall
  have hinv := hkeeping (.start hs)
  obtain ⟨bs₀, hstart₀, -, hempty, -, hhead⟩ := newBlockService_known slotHash
  cases hstart₀.symm.trans hs
  refine ⟨bs, bs', fuel, hs, hinv, hrun, ?_⟩
  refine ((hstep fuel bs' none hrun hinv).2 rfl).1 ⟨?_, ?_⟩
  · -- the genesis header is the only one stored, and its parent is no header
    intro hash hp
    obtain ⟨hd, hheld, hpar⟩ := parentOf_eq_some.mp hp
    rw [hhead] at hheld
    obtain ⟨-, rfl⟩ := (adding_cases hheld).resolve_right nofun
    exact link_linked.top 1 (by decide) hpar.symm
  · intro g _ leaf hleaf
    rw [hempty] at hleaf
    exact absurd hleaf Finmap.notMem_empty

theorem leaf_with_child : ∃ bs bs' fuel, Reachable slotHash (upTo link 7) bs ∧
      bs.handleNewHeader slotHash fuel (link 6) = .ret (bs', none) ∧
      (link 6).hash slotHash ∈ bs'.knownLeaves ∧
      bs'.parentOf ((link 7).hash slotHash) = some ((link 6).hash slotHash) ∧
      ¬ LeafInvariant bs' := by
  obtain ⟨bs, bs', fuel, hreach, -, hrun, -, -, hleaf, hpar⟩ := link_announced_again
  exact ⟨bs, bs', fuel, hreach, hrun, hleaf, hpar, fun hinv => (hinv _ hleaf).2.1 _ hpar⟩

end Strawberry.Chain
