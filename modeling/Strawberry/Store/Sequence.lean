import Strawberry.Lib.Ancestry
import Strawberry.Store.Chain

/-!
# Sequences of stored blocks

`GetBlockSequence` returns a path of stored blocks that ends early only where no stored block
goes on.
-/

namespace Strawberry.Store

open Block Jam Ancestry List Finmap Function

variable (H : HashData)

def Recoverable (b : Block) : Prop :=
  ∃ bytes, b.bytes = .ok bytes ∧ blockFromBytes bytes = .ok b

variable {b : Block} {hash : Hash}

theorem Recoverable.of_fits (hb : b.Fits) : Recoverable b := by
  obtain ⟨bytes, hbytes, hread⟩ := blockFromBytes_bytes hb
  refine ⟨bytes, hbytes, ?_⟩
  have h := hread []
  rwa [append_nil] at h

def putBlocks (c : Chain) : List Block → Call StoreError Chain
  | [] => .ok c
  | b :: blocks => do
    let c ← c.putBlock H b
    putBlocks c blocks

def stored (blocks : List Block) (hash : Hash) : Option Block :=
  blocks.reverse.find? fun b => b.header.hash H = hash

structure Holds (c : Chain) (held : Hash → Option Block) : Prop where
  isOpen : c.closed = false
  get : ∀ hash, c.getBlock hash = (held hash).elim (.error .blockNotFound) .ok
  own : ∀ hash b, held hash = some b → b.header.hash H = hash
  keys : ∀ key ∈ c.db, key.head? = some prefixBlock → ∃ hash, key = makeKey prefixBlock hash

variable {H} {c : Chain} {held : Hash → Option Block}

theorem Holds.get_eq_ok (h : Holds H c held) : c.getBlock hash = .ok b ↔ held hash = some b := by
  rw [h.get hash]
  cases held hash with
  | none => exact iff_of_false nofun nofun
  | some b' =>
    change Except.ok b' = Except.ok b ↔ _
    rw [Except.ok.injEq, Option.some.injEq]

theorem holds_newChain : Holds H newChain fun _ => none where
  isOpen := rfl
  get _ := rfl
  own := nofun
  keys _ hkey := absurd hkey notMem_empty

theorem Holds.put (h : Holds H c held) (hb : Recoverable b) : ∃ c', c.putBlock H b = .ok c' ∧
      Holds H c' (Function.update held (b.header.hash H) (some b)) := by
  obtain ⟨bytes, hbytes, hread⟩ := hb
  let hash := b.header.hash H
  let c' : Chain := ⟨(c.db.insert (makeKey prefixHeader hash) b.header.bytes).insert
    (makeKey prefixBlock hash) bytes, false⟩
  refine ⟨c', putBlock_eq H h.isOpen hbytes, rfl, ?_, ?_, ?_⟩
  · intro k
    rw [getBlock_eq rfl]
    by_cases hk : k = hash
    · have hlookup : c'.db.lookup (makeKey prefixBlock k) = some bytes := by
        rw [hk]
        exact lookup_insert _
      rw [hlookup, hk, update_self]
      simp only
      rw [hread]
      rfl
    · have hkey : makeKey prefixBlock k ≠ makeKey prefixBlock hash :=
        fun heq => hk (makeKey_inj.mp heq).2
      have hlookup : c'.db.lookup (makeKey prefixBlock k) = c.db.lookup (makeKey prefixBlock k) :=
        (lookup_insert_of_ne _ hkey).trans (lookup_insert_of_ne _ (headerKey_ne_blockKey _ _).symm)
      rw [hlookup, ← getBlock_eq h.isOpen, update_of_ne hk]
      exact h.get k
  · intro k b' hb'
    by_cases hk : k = hash
    · rw [hk, update_self] at hb'
      cases hb'
      exact hk.symm
    · rw [update_of_ne hk] at hb'
      exact h.own k b' hb'
  · intro key hkey htag
    rw [mem_insert, mem_insert] at hkey
    rcases hkey with rfl | rfl | hkey
    · exact ⟨hash, rfl⟩
    · exact absurd (Option.some.inj htag) (by decide)
    · exact h.keys key hkey htag

theorem putBlocks_holds {blocks : List Block} (h : Holds H c held)
    (hblocks : ∀ b ∈ blocks, Recoverable b) :
    ∃ c', putBlocks H c blocks = .ok c' ∧
      Holds H c' fun hash => (stored H blocks hash).or (held hash) := by
  induction blocks generalizing c held with
  | nil => exact ⟨c, rfl, h⟩
  | cons b blocks ih =>
    rw [forall_mem_cons] at hblocks
    obtain ⟨c₁, hput, h₁⟩ := h.put hblocks.1
    obtain ⟨c', hrest, h'⟩ := ih h₁ hblocks.2
    refine ⟨c', ?_, ?_⟩
    · rw [putBlocks, hput]
      exact hrest
    · have hfun : (fun hash => (stored H blocks hash).or
          (Function.update held (b.header.hash H) (some b) hash)) =
          fun hash => (stored H (b :: blocks) hash).or (held hash) := by
        funext hash
        rw [stored, stored, reverse_cons, List.find?_append, Option.or_assoc]
        by_cases hk : hash = b.header.hash H
        · subst hk
          simp
        · have hk' : b.header.hash H ≠ hash := fun heq => hk heq.symm
          simp [update_of_ne hk, hk']
      rwa [hfun] at h'

theorem Holds.findChildren (h : Holds H c held) (order : KeyOrder) (parentHash : Hash) :
    ∃ children, c.findChildren order parentHash = .ok children ∧
      ∀ b, b ∈ children ↔ held (b.header.hash H) = some b ∧ b.header.parentHash = parentHash := by
  let blocks := (c.valuesOf order prefixBlock).filterMap
    fun bytes => (blockFromBytes bytes).toOption
  refine ⟨blocks.filter fun b => b.header.parentHash = parentHash, ?_, ?_⟩
  · rw [Chain.findChildren, h.isOpen]
    rfl
  · intro b
    rw [mem_filter, decide_eq_true_eq]
    refine and_congr_left fun _ => ?_
    constructor
    · intro hb
      obtain ⟨_, hbytes, hread⟩ := mem_filterMap.mp hb
      obtain ⟨⟨key, bytes⟩, hentry, rfl⟩ := mem_map.mp hbytes
      obtain ⟨hkey, hlookup⟩ := GoMap.mem_entriesAt.mp hentry
      rw [mem_filter, decide_eq_true_eq] at hkey
      have hmem : key ∈ c.db := mem_of_lookup_eq_some hlookup
      obtain ⟨hash, rfl⟩ := h.keys key hmem hkey.2
      have hread : blockFromBytes bytes = .ok b := by
        cases hrun : blockFromBytes bytes with
        | error e =>
          rw [hrun] at hread
          cases hread
        | ok b' =>
          rw [hrun] at hread
          cases hread
          rfl
      have hget : c.getBlock hash = .ok b := by
        rw [getBlock_eq h.isOpen, hlookup]
        simp only
        rw [hread]
        rfl
      have hheld := h.get_eq_ok.mp hget
      rw [h.own hash b hheld]
      exact hheld
    · intro hheld
      have hget := h.get_eq_ok.mpr hheld
      rw [getBlock_eq h.isOpen] at hget
      cases hlookup : c.db.lookup (makeKey prefixBlock (b.header.hash H)) with
      | none =>
        rw [hlookup] at hget
        cases hget
      | some bytes =>
        rw [hlookup] at hget
        have hread : blockFromBytes bytes = .ok b := mapError_eq_ok.mp hget
        refine mem_filterMap.mpr ⟨bytes, ?_, by rw [hread]; rfl⟩
        refine mem_map.mpr ⟨(makeKey prefixBlock (b.header.hash H), bytes), ?_, rfl⟩
        refine GoMap.mem_entriesAt.mpr ⟨mem_filter.mpr ⟨?_, rfl⟩, hlookup⟩
        exact ((order c.db.keys).mem_iff _).mpr (mem_keys.mpr (mem_of_lookup_eq_some hlookup))

variable (H)

def parentOf (held : Hash → Option Block) (hash : Hash) : Option Hash :=
  (held hash).map (·.header.parentHash)

structure AscendingPath (held : Hash → Option Block) (start : Block) (maxBlocks : Nat)
    (blocks : List Block) : Prop where
  length_le : blocks.length ≤ maxBlocks
  linked : (start :: blocks).IsChain fun a b => b.header.parentHash = a.header.hash H
  stored : ∀ b ∈ blocks, held (b.header.hash H) = some b
  maximal : blocks.length < maxBlocks → ∀ last, (start :: blocks).getLast? = some last →
    ∀ b, held (b.header.hash H) = some b → b.header.parentHash ≠ last.header.hash H

structure DescendingPath (held : Hash → Option Block) (start : Block) (maxBlocks : Nat)
    (blocks : List Block) : Prop where
  length_le : blocks.length ≤ maxBlocks
  first : 0 < maxBlocks → blocks.head? = some start
  linked : blocks.IsChain fun a b => a.header.parentHash = b.header.hash H
  stored : ∀ b ∈ blocks, held (b.header.hash H) = some b
  maximal : blocks.length < maxBlocks → ∀ last, blocks.getLast? = some last →
    held last.header.parentHash = none

variable {H}

theorem ofNat_lt_iff {n : Nat} {m : UInt32} (hn : n ≤ m.toNat) :
    UInt32.ofNat n < m ↔ n < m.toNat := by
  rw [UInt32.lt_iff_toNat_lt, UInt32.toNat_ofNat_of_lt' (Nat.lt_of_le_of_lt hn m.toNat_lt)]

theorem Holds.retrieve_some (h : Holds H c held) (hb : held hash = some b) (blocks : List Block) :
    c.retrieve hash blocks = .next ⟨b, hash, blocks⟩ := by
  rw [Chain.retrieve, h.get_eq_ok.mpr hb]

theorem Holds.retrieve_none (h : Holds H c held) (hb : held hash = none)
    (blocks : List Block) : c.retrieve hash blocks = .done (.ok blocks) := by
  rw [Chain.retrieve, h.get, hb]
  rfl

def collected (startHash : Hash) (w : Walk) : List Block :=
  if w.currentHash ≠ startHash then w.blocks ++ [w.currentBlock] else w.blocks

theorem length_collected (startHash : Hash) (w : Walk) : (collected startHash w).length =
    w.blocks.length + if w.currentHash = startHash then 0 else 1 := by
  unfold collected
  by_cases hs : w.currentHash = startHash
  · rw [if_neg (not_not.mpr hs), if_pos hs, Nat.add_zero]
  · rw [if_pos hs, if_neg hs, length_append, length_singleton]

section

variable (H) (order : KeyOrder) (startHash : Hash) {limit : UInt32} {w : Walk}
  (hlen : w.blocks.length ≤ limit.toNat)
include hlen

theorem sequenceRound_full (ascending : Bool) (hfull : ¬ w.blocks.length < limit.toNat) :
    c.sequenceRound H order startHash ascending limit w =
      .ret (.done (.ok w.blocks)) := by
  rw [Chain.sequenceRound, if_neg fun hlt => hfull ((ofNat_lt_iff hlen).mp hlt)]

variable (hlt : w.blocks.length < limit.toNat)
include hlt

theorem sequenceRound_down : c.sequenceRound H order startHash false limit w =
      .ret (c.retrieve w.currentBlock.header.parentHash (w.blocks ++ [w.currentBlock])) := by
  rw [Chain.sequenceRound, if_pos ((ofNat_lt_iff hlen).mpr hlt)]
  rfl

theorem sequenceRound_leaf (hchildren : c.findChildren order w.currentHash = .ok []) :
    c.sequenceRound H order startHash true limit w =
      .ret (.done (.ok (collected startHash w))) := by
  rw [Chain.sequenceRound, if_pos ((ofNat_lt_iff hlen).mpr hlt), if_pos rfl, hchildren]
  rfl

theorem sequenceRound_child {child : Block} {others : List Block}
    (hchildren : c.findChildren order w.currentHash = .ok (child :: others)) :
    c.sequenceRound H order startHash true limit w =
      .ret (c.retrieve (child.header.hash H) (collected startHash w)) := by
  rw [Chain.sequenceRound, if_pos ((ofNat_lt_iff hlen).mpr hlt), if_pos rfl, hchildren]
  rfl

end

section

variable (h : Holds H c held) (order : KeyOrder) (startHash : Hash) {start : Block}
  (limit : UInt32)
include h

theorem descending_loop {fuel : Nat} {w : Walk} (hcur : held w.currentHash = some w.currentBlock)
    (hlen : w.blocks.length ≤ limit.toNat)
    (hfirst : (w.blocks ++ [w.currentBlock]).head? = some start)
    (hlinked : (w.blocks ++ [w.currentBlock]).IsChain
      fun a b => a.header.parentHash = b.header.hash H)
    (hstored : ∀ b ∈ w.blocks, held (b.header.hash H) = some b)
    (hfuel : limit.toNat - w.blocks.length < fuel) :
    ∃ blocks, loop (c.sequenceRound H order startHash false limit) fuel w =
      .ret (.ok blocks) ∧ DescendingPath H held start limit.toNat blocks := by
  induction fuel generalizing w with
  | zero => omega
  | succ fuel ih =>
    by_cases hlt : w.blocks.length < limit.toNat
    · have hround := sequenceRound_down (c := c) H order startHash hlen hlt
      have hown := h.own _ _ hcur
      have hstored' : ∀ b ∈ w.blocks ++ [w.currentBlock], held (b.header.hash H) = some b := by
        intro b hb
        rcases mem_append.mp hb with hb | hb
        · exact hstored b hb
        · rw [mem_singleton.mp hb, hown, hcur]
      have hlen' : (w.blocks ++ [w.currentBlock]).length = w.blocks.length + 1 :=
        length_append
      cases hpar : held w.currentBlock.header.parentHash with
      | none =>
        rw [h.retrieve_none hpar] at hround
        refine ⟨_, loop_done hround, by omega, fun _ => hfirst, hlinked, hstored', ?_⟩
        intro _ last hlast
        rw [List.getLast?_concat] at hlast
        cases hlast
        exact hpar
      | some parent =>
        rw [h.retrieve_some hpar] at hround
        rw [loop_next hround]
        have hlinked' : ((w.blocks ++ [w.currentBlock]) ++ [parent]).IsChain
            fun a b => a.header.parentHash = b.header.hash H := by
          refine isChain_append.mpr ⟨hlinked, isChain_singleton _, ?_⟩
          intro a ha b hb
          rw [List.getLast?_concat] at ha
          cases ha
          cases hb
          exact (h.own _ _ hpar).symm
        have hfirst' : ((w.blocks ++ [w.currentBlock]) ++ [parent]).head? = some start := by
          rw [List.head?_append, hfirst]
          rfl
        exact ih hpar (by rw [hlen']; omega) hfirst' hlinked' hstored'
          (by rw [hlen']; omega)
    · have hround := sequenceRound_full (c := c) H order startHash hlen false hlt
      refine ⟨_, loop_done hround, hlen, ?_, (isChain_append.mp hlinked).1, hstored,
        fun hc => absurd hc hlt⟩
      intro hpos
      have hne : w.blocks ≠ [] := ne_nil_of_length_pos (by omega)
      rwa [List.head?_append_of_ne_nil _ hne] at hfirst

end

section

variable (h : Holds H c held) (order : KeyOrder) {startHash : Hash} {start : Block}
  (limit : UInt32)

def OnPath (H : HashData) (held : Hash → Option Block) (startHash : Hash) (start : Block)
    (w : Walk) : Prop :=
  (w.currentHash = startHash ∧ w.currentBlock = start ∧ w.blocks = []) ∨
  (w.currentHash ≠ startHash ∧ (start :: (w.blocks ++ [w.currentBlock])).IsChain
      (fun a b => b.header.parentHash = a.header.hash H) ∧
    (∀ b ∈ w.blocks, held (b.header.hash H) = some b) ∧
    ∃ k, ancestor (parentOf held) (k + 1) w.currentHash = some startHash)

theorem OnPath.collected {w : Walk} (hw : OnPath H held startHash start w)
    (hcur : held w.currentHash = some w.currentBlock)
    (hown : w.currentBlock.header.hash H = w.currentHash) :
    (start :: collected startHash w).IsChain (fun a b => b.header.parentHash = a.header.hash H) ∧
      (start :: collected startHash w).getLast? = some w.currentBlock ∧
      (∀ b ∈ collected startHash w, held (b.header.hash H) = some b) ∧
      ∃ k, ancestor (parentOf held) k w.currentHash = some startHash := by
  unfold Store.collected
  rcases hw with ⟨hhash, hblock, hblocks⟩ | ⟨hne, hlinked, hstored, k, hk⟩
  · rw [if_neg (not_not.mpr hhash), hblocks, hblock, hhash]
    exact ⟨isChain_singleton _, rfl, nofun, 0, rfl⟩
  · rw [if_pos hne]
    refine ⟨hlinked, ?_, ?_, k + 1, hk⟩
    · rw [← cons_append, List.getLast?_concat]
    · intro b hb
      rcases mem_append.mp hb with hb | hb
      · exact hstored b hb
      · rw [mem_singleton.mp hb, hown, hcur]

include h

theorem ascending_loop (hacyclic : ∀ k, ancestor (parentOf held) (k + 1) startHash ≠ some startHash)
    {fuel : Nat} {w : Walk} (hcur : held w.currentHash = some w.currentBlock)
    (hlen : w.blocks.length ≤ limit.toNat) (hw : OnPath H held startHash start w)
    (hfuel : limit.toNat - w.blocks.length + (if w.currentHash = startHash then 1 else 0) < fuel) :
    ∃ blocks, loop (c.sequenceRound H order startHash true limit) fuel w =
      .ret (.ok blocks) ∧ AscendingPath H held start limit.toNat blocks := by
  induction fuel generalizing w with
  | zero => omega
  | succ fuel ih =>
    have hown := h.own _ _ hcur
    by_cases hlt : w.blocks.length < limit.toNat
    · obtain ⟨hlinked, hlast, hstored, k, hk⟩ := hw.collected hcur hown
      have hlen' := length_collected startHash w
      obtain ⟨children, hchildren, hmem⟩ := h.findChildren order w.currentHash
      cases children with
      | nil =>
        refine ⟨_, loop_done (sequenceRound_leaf H order startHash hlen hlt hchildren), ?_,
          hlinked, hstored, ?_⟩
        · rw [hlen']
          split <;> omega
        · intro _ last hlast' b hb hpar
          rw [hlast] at hlast'
          cases hlast'
          rw [hown] at hpar
          exact absurd ((hmem b).mpr ⟨hb, hpar⟩) not_mem_nil
      | cons child others =>
        obtain ⟨hchild, hpar⟩ := (hmem child).mp mem_cons_self
        have hround := sequenceRound_child H order startHash hlen hlt hchildren
        rw [h.retrieve_some hchild] at hround
        rw [loop_next hround]
        have hup : ancestor (parentOf held) (k + 1) (child.header.hash H) = some startHash := by
          have hstep : parentOf held (child.header.hash H) = some w.currentHash := by
            rw [parentOf, hchild, Option.map_some, hpar]
          rw [ancestor_succ hstep, hk]
        have hne : child.header.hash H ≠ startHash := by
          intro heq
          rw [heq] at hup
          exact hacyclic k hup
        have hlinked' : (start :: (collected startHash w ++ [child])).IsChain
            (fun a b => b.header.parentHash = a.header.hash H) := by
          refine isChain_append.mpr ⟨hlinked, isChain_singleton _, ?_⟩
          intro a ha b hb
          rw [hlast] at ha
          cases ha
          cases hb
          rw [hown, hpar]
        refine ih hchild ?_ (.inr ⟨hne, hlinked', hstored, k, hup⟩) ?_
        · rw [hlen']
          split <;> omega
        · -- the start is left out once, and every other round collects a block
          rw [if_neg hne, hlen']
          by_cases hs : w.currentHash = startHash
          · rw [if_pos hs] at hfuel ⊢
            omega
          · rw [if_neg hs] at hfuel ⊢
            omega
    · have hround := sequenceRound_full (c := c) H order startHash hlen true hlt
      refine ⟨_, loop_done hround, hlen, ?_, ?_, fun hc => absurd hc hlt⟩
      · rcases hw with ⟨-, -, hblocks⟩ | ⟨-, hlinked, -⟩
        · rw [hblocks]
          exact isChain_singleton _
        · exact (isChain_append.mp hlinked).1
      · rcases hw with ⟨-, -, hblocks⟩ | ⟨-, -, hstored, -⟩
        · rw [hblocks]
          nofun
        · exact hstored

end

/-- The blocks that are returned form a path. -/
theorem block_sequence_is_path (H : HashData) (order : KeyOrder) (blocks : List Block)
    (hblocks : ∀ b ∈ blocks, Recoverable b) :
    ∃ c, putBlocks H newChain blocks = .ok c ∧
      ∀ (startHash : Hash) (start : Block) (limit : UInt32) (fuel : Nat),
        stored H blocks startHash = some start → limit.toNat + 1 < fuel →
        (∃ result, c.getBlockSequence H order fuel startHash false limit =
            .ret (.ok result) ∧
          DescendingPath H (stored H blocks) start limit.toNat result) ∧
        ((∀ k, ancestor (parentOf (stored H blocks)) (k + 1) startHash ≠ some startHash) →
          ∃ result, c.getBlockSequence H order fuel startHash true limit =
              .ret (.ok result) ∧
            AscendingPath H (stored H blocks) start limit.toNat result) := by
  obtain ⟨c, hput, h⟩ := putBlocks_holds holds_newChain hblocks
  simp only [Option.or_none] at h
  refine ⟨c, hput, ?_⟩
  intro startHash start limit fuel hs hfuel
  have hrun : ∀ ascending, c.getBlockSequence H order fuel startHash ascending limit =
      loop (c.sequenceRound H order startHash ascending limit) fuel ⟨start, startHash, []⟩ := by
    intro ascending
    rw [Chain.getBlockSequence, h.isOpen, h.get_eq_ok.mpr hs]
    rfl
  constructor
  · rw [hrun]
    exact descending_loop h order startHash limit hs (Nat.zero_le _) rfl
      (isChain_singleton _) nofun (by change limit.toNat - 0 < fuel; omega)
  · intro hacyclic
    rw [hrun]
    refine ascending_loop h order limit hacyclic hs (Nat.zero_le _) (.inl ⟨rfl, rfl, rfl⟩) ?_
    rw [if_pos rfl]
    omega

def slotHash : HashData := fun bytes => hashOf (255 :: (bytes.drop 96).take 4)

noncomputable def listOrder : KeyOrder := GoMap.Traversal.listed

def childOfZero : Block :=
  { Block.zero with
    header :=
      { Header.zero with parentHash := Header.zero.hash slotHash, timeSlotIndex := 1 } }

theorem childOfZero_fits : childOfZero.Fits where
  header := show 0 < 2 ^ 64 by decide
  extrinsic := Block.zero_fits.extrinsic

theorem stored_childOfZero : stored slotHash [Block.zero, childOfZero] (Header.zero.hash slotHash) =
      some Block.zero ∧ stored slotHash [Block.zero, childOfZero] (.replicate 32 0) = none := by
  have hchild : childOfZero.header.hash slotHash ≠ Header.zero.hash slotHash := by decide +kernel
  have hnone : childOfZero.header.hash slotHash ≠ .replicate 32 0 ∧
      Header.zero.hash slotHash ≠ .replicate 32 0 := by decide +kernel
  simp [stored, hchild, hnone, Block.zero]

theorem block_sequence_of_two : ∃ c, putBlocks slotHash newChain [Block.zero, childOfZero] = .ok c ∧
      ∃ result, c.getBlockSequence slotHash listOrder 3 (Header.zero.hash slotHash) true 1 =
          .ret (.ok result) ∧
        AscendingPath slotHash (stored slotHash [Block.zero, childOfZero]) Block.zero 1 result := by
  have hblocks : ∀ b ∈ [Block.zero, childOfZero], Recoverable b := by
    intro b hb
    rcases mem_pair.mp hb with rfl | rfl
    · exact .of_fits Block.zero_fits
    · exact .of_fits childOfZero_fits
  obtain ⟨c, hput, h⟩ := block_sequence_is_path slotHash listOrder _ hblocks
  obtain ⟨hstored, hnone⟩ := stored_childOfZero
  refine ⟨c, hput, (h _ _ 1 3 hstored (by decide)).2 fun k => ?_⟩
  rw [ancestor_succ (b := .replicate 32 0) (by rw [parentOf, hstored]; rfl)]
  cases k with
  | zero => decide +kernel
  | succ k => simp [ancestor, parentOf, hnone]

end Strawberry.Store
