import Strawberry.Block.RoundTrip

/-!
# The chain store

Package `store`. The database does not fail, and lists its entries in an arbitrary order.
-/

namespace Strawberry.Store

open Block Jam Finmap

inductive StoreError where
  | chainClosed
  | blockNotFound
  | headerNotFound
  | marshalBlock (cause : JamError)
  | unmarshalHeader (cause : JamError)
  | unmarshalBlock (cause : JamError)
  | startingBlockNotFound (cause : StoreError)
  | gettingStartingBlock (cause : StoreError)
  | gettingBlockInSequence (cause : StoreError)
  deriving DecidableEq

structure Chain where
  db : GoMap (List UInt8) (List UInt8)
  closed : Bool

def newChain : Chain := ⟨∅, false⟩

def prefixHeader : UInt8 := 1

def prefixBlock : UInt8 := 2

def makeKey (tag : UInt8) (hash : Hash) : List UInt8 := tag :: hash.toList

abbrev KeyOrder := (keys : Finset (List UInt8)) → GoMap.Traversal keys

variable (H : HashData)

def Chain.putHeader (c : Chain) (h : Header) : Except StoreError Chain := do
  check (!c.closed) .chainClosed
  return { c with db := c.db.insert (makeKey prefixHeader (h.hash H)) h.bytes }

def Chain.getHeader (c : Chain) (hash : Hash) : Except StoreError Header := do
  check (!c.closed) .chainClosed
  match c.db.lookup (makeKey prefixHeader hash) with
  | none => .error .headerNotFound
  | some bytes => (headerFromBytes bytes).mapError .unmarshalHeader

def Chain.putBlock (c : Chain) (b : Block) : Call StoreError Chain := do
  Call.check (!c.closed) .chainClosed
  match b.bytes with
  | .ret (.ok bytes) =>
    let headerHash := b.header.hash H
    return { c with
      db := (c.db.insert (makeKey prefixHeader headerHash) b.header.bytes).insert
        (makeKey prefixBlock headerHash) bytes }
  | .ret (.error e) => .fail (.marshalBlock e)
  | .crash f => .crash f
  | .hang => .hang

def Chain.getBlock (c : Chain) (hash : Hash) : Except StoreError Block := do
  check (!c.closed) .chainClosed
  match c.db.lookup (makeKey prefixBlock hash) with
  | none => .error .blockNotFound
  | some bytes => (blockFromBytes bytes).mapError .unmarshalBlock

def Chain.valuesOf (order : KeyOrder) (c : Chain) (tag : UInt8) : List (List UInt8) :=
  let keys := (order c.db.keys).keys.filter fun key => key.head? = some tag
  (c.db.entriesAt keys).map Prod.snd

def Chain.findChildren (order : KeyOrder) (c : Chain) (parentHash : Hash) :
    Except StoreError (List Block) := do
  check (!c.closed) .chainClosed
  let blocks := (c.valuesOf order prefixBlock).filterMap fun bytes => (blockFromBytes bytes).toOption
  return blocks.filter fun b => b.header.parentHash = parentHash

structure Walk where
  currentBlock : Block
  currentHash : Hash
  blocks : List Block

def Chain.retrieve (c : Chain) (currentHash : Hash) (blocks : List Block) :
    Flow Walk (Except StoreError (List Block)) :=
  match c.getBlock currentHash with
  | .ok currentBlock => .next ⟨currentBlock, currentHash, blocks⟩
  | .error .blockNotFound => .done (.ok blocks)
  | .error e => .done (.error (.gettingBlockInSequence e))

def Chain.sequenceRound (order : KeyOrder) (c : Chain) (startHash : Hash) (ascending : Bool)
    (maxBlocks : UInt32) (w : Walk) : Outcome (Flow Walk (Except StoreError (List Block))) :=
  if UInt32.ofNat w.blocks.length < maxBlocks then
    if ascending then
      let blocks := if w.currentHash ≠ startHash then w.blocks ++ [w.currentBlock] else w.blocks
      match c.findChildren order w.currentHash with
      | .error _ | .ok [] => .ret (.done (.ok blocks))
      | .ok (child :: _) => .ret (c.retrieve (child.header.hash H) blocks)
    else
      .ret (c.retrieve w.currentBlock.header.parentHash (w.blocks ++ [w.currentBlock]))
  else .ret (.done (.ok w.blocks))

def Chain.getBlockSequence (order : KeyOrder) (fuel : Nat) (c : Chain) (startHash : Hash)
    (ascending : Bool) (maxBlocks : UInt32) : Outcome (Except StoreError (List Block)) :=
  if c.closed then .ret (.error .chainClosed)
  else
    match c.getBlock startHash with
    | .error .blockNotFound => .ret (.error (.startingBlockNotFound .blockNotFound))
    | .error e => .ret (.error (.gettingStartingBlock e))
    | .ok currentBlock =>
      loop (c.sequenceRound H order startHash ascending maxBlocks) fuel
        ⟨currentBlock, startHash, []⟩

theorem makeKey_inj {tag tag' : UInt8} {hash hash' : Hash} :
    makeKey tag hash = makeKey tag' hash' ↔ tag = tag' ∧ hash = hash' := by
  rw [makeKey, makeKey, List.cons.injEq, Vector.toList_inj]

theorem headerKey_ne_blockKey (hash hash' : Hash) :
    makeKey prefixHeader hash ≠ makeKey prefixBlock hash' := by
  intro h
  exact absurd (makeKey_inj.mp h).1 (by decide)

section

variable {c : Chain} (hopen : c.closed = false)
include hopen

theorem getHeader_eq (hash : Hash) :
    c.getHeader hash = match c.db.lookup (makeKey prefixHeader hash) with
      | none => .error .headerNotFound
      | some bytes => (headerFromBytes bytes).mapError .unmarshalHeader := by
  rw [Chain.getHeader, hopen]
  rfl

theorem getBlock_eq (hash : Hash) :
    c.getBlock hash = match c.db.lookup (makeKey prefixBlock hash) with
      | none => .error .blockNotFound
      | some bytes => (blockFromBytes bytes).mapError .unmarshalBlock := by
  rw [Chain.getBlock, hopen]
  rfl

omit hopen in
theorem getHeader_of_lookup {c : Chain} (hopen : c.closed = false) {hash : Hash} {h : Header}
    (hget : c.db.lookup (makeKey prefixHeader hash) = some h.bytes) (hh : h.Fits) :
    c.getHeader hash = .ok h := by
  rw [getHeader_eq hopen, hget]
  simp only
  rw [headerFromBytes_bytes hh]
  rfl

omit hopen in
theorem getHeader_congr {c c' : Chain} (hopen : c.closed = false) (hopen' : c'.closed = false)
    {hash : Hash} (hget : c.db.lookup (makeKey prefixHeader hash) =
      c'.db.lookup (makeKey prefixHeader hash)) : c.getHeader hash = c'.getHeader hash := by
  rw [getHeader_eq hopen, getHeader_eq hopen', hget]

theorem putHeader_spec {h : Header} (hh : h.Fits) :
    ∃ c', c.putHeader H h = .ok c' ∧ c'.closed = false ∧ c'.getHeader (h.hash H) = .ok h ∧
      ∀ hash, hash ≠ h.hash H → c'.getHeader hash = c.getHeader hash := by
  let c' : Chain := ⟨c.db.insert (makeKey prefixHeader (h.hash H)) h.bytes, false⟩
  have hput : c.putHeader H h = .ok c' := by
    rw [Chain.putHeader, hopen]
    rfl
  refine ⟨c', hput, rfl, ?_, ?_⟩
  · exact getHeader_of_lookup rfl (lookup_insert _) hh
  · intro hash hne
    have hkey : makeKey prefixHeader hash ≠ makeKey prefixHeader (h.hash H) :=
      fun heq => hne (makeKey_inj.mp heq).2
    exact getHeader_congr rfl hopen (lookup_insert_of_ne _ hkey)

theorem putBlock_eq {b : Block} {bytes : List UInt8} (hbytes : b.bytes = .ok bytes) :
    c.putBlock H b = .ok
      ⟨(c.db.insert (makeKey prefixHeader (b.header.hash H)) b.header.bytes).insert
        (makeKey prefixBlock (b.header.hash H)) bytes, false⟩ := by
  rw [Chain.putBlock, hbytes, hopen]
  rfl

theorem putBlock_headers {b : Block} {bytes : List UInt8} (hbytes : b.bytes = .ok bytes)
    (hh : b.header.Fits) :
    ∃ c', c.putBlock H b = .ok c' ∧ c'.closed = false ∧
      c'.getHeader (b.header.hash H) = .ok b.header ∧
      ∀ hash, hash ≠ b.header.hash H → c'.getHeader hash = c.getHeader hash := by
  refine ⟨_, putBlock_eq H hopen hbytes, rfl, ?_, ?_⟩
  · refine getHeader_of_lookup rfl ?_ hh
    rw [lookup_insert_of_ne _ (headerKey_ne_blockKey _ _)]
    exact lookup_insert _
  · intro hash hne
    have hkey : makeKey prefixHeader hash ≠ makeKey prefixHeader (b.header.hash H) :=
      fun heq => hne (makeKey_inj.mp heq).2
    refine getHeader_congr rfl hopen ?_
    rw [lookup_insert_of_ne _ (headerKey_ne_blockKey _ _)]
    exact lookup_insert_of_ne _ hkey

end

end Strawberry.Store
