import Strawberry.StateTransition.Records

/-!
# The recent history

The history after any number of blocks, compared with the list of all of them: it has an entry for
each of the last few, in order.
-/

namespace Strawberry.StateTransition

open Block State Constants List

variable {prims : Primitives}

structure HistoryBlock where
  header : Header
  headerHash : Hash
  accumulationRoot : Hash
  workPackageMapping : GoMap Hash Hash

def recordBlock (prims : Primitives) (recentBlocks : List BlockState) (b : HistoryBlock) :
    List BlockState :=
  updateRecentBlocks prims b.headerHash b.header.priorStateRoot b.accumulationRoot
    (calculateIntermediateBlockState b.header recentBlocks) b.workPackageMapping

def recordBlocks (prims : Primitives) (blocks : List HistoryBlock) : List BlockState :=
  blocks.foldl (recordBlock prims) []

def mountainRange (prims : Primitives) (blocks : List HistoryBlock) : List (Option Hash) :=
  blocks.foldl (fun range b => Merkle.append prims.keccakData range b.accumulationRoot) []

structure EntryOf (prims : Primitives) (blocks : List HistoryBlock) (k : Nat)
    (entry : BlockState) : Prop where
  block : ∃ b, blocks[k]? = some b ∧ entry.headerHash = b.headerHash ∧
    entry.workReportHashes = b.workPackageMapping
  stateRoot : entry.stateRoot =
    (blocks[k + 1]?).elim (.replicate 32 0) fun next => next.header.priorStateRoot
  range : entry.accumulationResultMMR = mountainRange prims (blocks.take (k + 1))

structure RecentHistory (prims : Primitives) (blocks : List HistoryBlock)
    (recentBlocks : List BlockState) : Prop where
  length : recentBlocks.length = min blocks.length maxRecentBlocks
  entries : ∀ i entry, recentBlocks[i]? = some entry →
    EntryOf prims blocks (blocks.length - recentBlocks.length + i) entry

section

variable {stateRoot : Hash}

@[simp] theorem setLastStateRoot_cons_cons (block next : BlockState) (blocks : List BlockState) :
    setLastStateRoot stateRoot (block :: next :: blocks) =
      block :: setLastStateRoot stateRoot (next :: blocks) := rfl

theorem length_setLastStateRoot (blocks : List BlockState) :
    (setLastStateRoot stateRoot blocks).length = blocks.length := by
  induction blocks with
  | nil => rfl
  | cons block blocks ih =>
    cases blocks with
    | nil => rfl
    | cons next blocks => simp [ih]

theorem getElem?_setLastStateRoot (blocks : List BlockState) (i : Nat) :
    (setLastStateRoot stateRoot blocks)[i]? =
      blocks[i]?.map fun b => if i + 1 = blocks.length then { b with stateRoot } else b := by
  induction blocks generalizing i with
  | nil => rfl
  | cons block blocks ih =>
    cases blocks with
    | nil => cases i <;> simp [setLastStateRoot]
    | cons next blocks =>
      cases i with
      | zero => simp
      | succ i => simp [ih]

theorem setLastStateRoot_twice (blocks : List BlockState) :
    setLastStateRoot stateRoot (setLastStateRoot stateRoot blocks) =
      setLastStateRoot stateRoot blocks := by
  apply ext_getElem?
  intro i
  simp only [getElem?_setLastStateRoot, length_setLastStateRoot, Option.map_map]
  congr 1
  funext b
  dsimp only [Function.comp_apply]
  split <;> rfl

theorem lastRange_setLastStateRoot (blocks : List BlockState) :
    (setLastStateRoot stateRoot blocks).getLast?.map (·.accumulationResultMMR) =
      blocks.getLast?.map (·.accumulationResultMMR) := by
  rw [List.getLast?_eq_getElem?, List.getLast?_eq_getElem?, length_setLastStateRoot,
    getElem?_setLastStateRoot, Option.map_map]
  congr 1
  funext b
  dsimp only [Function.comp_apply]
  split <;> rfl

end

section

variable {blocks : List HistoryBlock} {recent : List BlockState} {b : HistoryBlock}

def newestEntry (prims : Primitives) (range : List (Option Hash)) (b : HistoryBlock) :
    BlockState where
  headerHash := b.headerHash
  stateRoot := .replicate 32 0
  accumulationResultMMR := Merkle.append prims.keccakData range b.accumulationRoot
  workReportHashes := b.workPackageMapping

theorem recordBlock_eq (prims : Primitives) (recent : List BlockState) (b : HistoryBlock) :
    recordBlock prims recent b =
      (setLastStateRoot b.header.priorStateRoot recent ++ [newestEntry prims
        ((recent.getLast?.map (·.accumulationResultMMR)).getD []) b]).drop
        (recent.length + 1 - maxRecentBlocks) := by
  unfold recordBlock updateRecentBlocks calculateIntermediateBlockState
  simp only [setLastStateRoot_twice, lastRange_setLastStateRoot, length_append,
    length_setLastStateRoot, length_singleton]
  rfl

theorem mountainRange_append (blocks : List HistoryBlock) (b : HistoryBlock) :
    mountainRange prims (blocks ++ [b]) =
      Merkle.append prims.keccakData (mountainRange prims blocks) b.accumulationRoot := by
  rw [mountainRange, foldl_append]
  rfl

theorem RecentHistory.lastRange (h : RecentHistory prims blocks recent) :
    (recent.getLast?.map (·.accumulationResultMMR)).getD [] = mountainRange prims blocks := by
  have hlen := h.length
  unfold maxRecentBlocks at hlen
  rw [List.getLast?_eq_getElem?]
  cases hlast : recent[recent.length - 1]? with
  | none =>
    have hempty : blocks.length = 0 := by
      rw [List.getElem?_eq_none_iff] at hlast
      omega
    rw [length_eq_zero_iff.mp hempty]
    rfl
  | some entry =>
    have hrange := (h.entries _ entry hlast).range
    have hk : blocks.length - recent.length + (recent.length - 1) + 1 =
        blocks.length := by
      have hi := (List.getElem?_eq_some_iff.mp hlast).1
      omega
    rw [hk, take_length] at hrange
    exact hrange

theorem EntryOf.append {k : Nat} {entry : BlockState} (h : EntryOf prims blocks k entry) :
    EntryOf prims (blocks ++ [b]) k
      (if k + 1 = blocks.length then { entry with stateRoot := b.header.priorStateRoot }
        else entry) := by
  obtain ⟨c, hc, hhash, hmapping⟩ := h.block
  have hk := (List.getElem?_eq_some_iff.mp hc).1
  have hblock : (blocks ++ [b])[k]? = some c := by rw [List.getElem?_append_left hk, hc]
  have hrange : (blocks ++ [b]).take (k + 1) = blocks.take (k + 1) :=
    take_append_of_le_length hk
  split
  · next hlast =>
    refine ⟨⟨c, hblock, hhash, hmapping⟩, ?_, ?_⟩
    · rw [hlast, List.getElem?_append_right le_rfl, Nat.sub_self]
      rfl
    · rw [hrange]
      exact h.range
  · next hlast =>
    refine ⟨⟨c, hblock, hhash, hmapping⟩, ?_, ?_⟩
    · rw [List.getElem?_append_left (by omega)]
      exact h.stateRoot
    · rw [hrange]
      exact h.range

theorem entryOf_newest (prims : Primitives) (blocks : List HistoryBlock) (b : HistoryBlock) :
    EntryOf prims (blocks ++ [b]) blocks.length
      (newestEntry prims (mountainRange prims blocks) b) where
  block := by
    refine ⟨b, ?_, rfl, rfl⟩
    rw [List.getElem?_append_right le_rfl, Nat.sub_self]
    rfl
  stateRoot := by
    rw [List.getElem?_eq_none (by rw [length_append, length_singleton])]
    rfl
  range := by
    rw [take_of_length_le (by rw [length_append, length_singleton]),
      mountainRange_append]
    rfl

theorem recordBlock_recentHistory (h : RecentHistory prims blocks recent) :
    RecentHistory prims (blocks ++ [b]) (recordBlock prims recent b) := by
  have hlen := h.length
  have hnew : (recordBlock prims recent b).length =
      min (blocks ++ [b]).length maxRecentBlocks := by
    simp only [recordBlock_eq, length_drop, length_append, length_setLastStateRoot,
      length_singleton]
    omega
  refine ⟨hnew, ?_⟩
  intro i entry hentry
  rw [hnew, length_append, length_singleton]
  rw [recordBlock_eq, h.lastRange, List.getElem?_drop] at hentry
  by_cases hold : recent.length + 1 - maxRecentBlocks + i < recent.length
  · -- the entry of an earlier block
    rw [List.getElem?_append_left (by rwa [length_setLastStateRoot]),
      getElem?_setLastStateRoot] at hentry
    obtain ⟨old, hget, rfl⟩ := Option.map_eq_some_iff.mp hentry
    have hk : blocks.length + 1 - min (blocks.length + 1) maxRecentBlocks + i =
        blocks.length - recent.length +
          (recent.length + 1 - maxRecentBlocks + i) := by omega
    have hlast : recent.length + 1 - maxRecentBlocks + i + 1 = recent.length ↔
        blocks.length - recent.length + (recent.length + 1 - maxRecentBlocks + i) + 1 =
          blocks.length := by omega
    rw [hk]
    simp only [hlast]
    exact (h.entries _ old hget).append
  · rw [List.getElem?_append_right (by rw [length_setLastStateRoot]; omega),
      length_setLastStateRoot] at hentry
    obtain ⟨hi, hnewest⟩ := List.getElem?_eq_some_iff.mp hentry
    rw [length_singleton] at hi
    rw [getElem_singleton] at hnewest
    have hk : blocks.length + 1 - min (blocks.length + 1) maxRecentBlocks + i = blocks.length := by
      omega
    rw [hk, ← hnewest]
    exact entryOf_newest prims blocks b

end

/-- The history holds the last blocks, in order. -/
theorem recent_history (prims : Primitives) (blocks : List HistoryBlock) :
    RecentHistory prims blocks (recordBlocks prims blocks) := by
  induction blocks using List.reverseRecOn with
  | nil => exact ⟨rfl, nofun⟩
  | append_singleton blocks b ih =>
    rw [recordBlocks, foldl_append]
    exact recordBlock_recentHistory ih

end Strawberry.StateTransition
