import Strawberry.HostCall.InnerMemory
import Strawberry.HostCall.Selection
import Strawberry.HostCall.Atomicity

/-!
# Calls that leave the node running

What a call needs is a list of demands, which follows its code. The call answers, with modest
buffers, exactly if they are met (`Settles`).
-/

namespace Strawberry.HostCall

open Polkavm Interpreter Service Work Constants List Reg

inductive Demand where
  /-- A buffer of `n` octets. -/
  | alloc (n : Nat)
  /-- A range of memory. -/
  | range (m : Memory) (address : UInt64) (n : Nat)
  /-- An element of a list of length `n`. -/
  | index (i n : Nat)
  /-- A blob that can be taken apart. -/
  | blob (bytes : List UInt8)
  /-- A map that can be assigned to. -/
  | map (ctxPair : RefineContextPair)
  /-- An error that is an exit of the machine. -/
  | exit (e : Err)

def Demand.Met : Demand → Prop
  | alloc n => n ≤ 2 ^ 32
  | range m address n => ¬ m.Overruns address n
  | index i n => i < n
  | blob bytes => BlobSafe bytes
  | map ctxPair => ctxPair.integratedPVMMap ≠ none
  | exit e => e.IsExit

def Answers {X : Type} (x : Outcome (HostResult X)) : Prop :=
  ∃ r, x = .ret r ∧ ∀ e, r.err = some e → e.IsExit

def Settles {X : Type} (x : Outcome (HostResult X)) (demands : List Demand) : Prop :=
  (Answers x ∧ ∀ n, .alloc n ∈ demands → n ≤ 2 ^ 32) ↔ ∀ d ∈ demands, d.Met

def paying (gas : Gas) (demands : List Demand) : List Demand :=
  if gas < callCost then [] else demands

def filling (m : Memory) (address n : UInt64) (next : List UInt8 → List Demand) : List Demand :=
  .alloc n.toNat :: .range m address n.toNat ::
    match m.read address n with
    | .ret (.ok data) => next data
    | _ => []

def indexing {α : Type} (xs : List α) (i : Nat) (next : α → List Demand) : List Demand :=
  .index i xs.length :: (xs[i]?.map next).getD []

/-- An index that is compared as an `int`: from `2 ^ 63` on it is negative and passes the check of
every length. -/
def narrow (i : UInt64) (length : Nat) : Demand := .index i.toNat (max length (2 ^ 63))

def checking {α : Type} (xs : List α) (i : UInt64) (next : α → List Demand) : List Demand :=
  narrow i xs.length :: (xs[i.toNat]?.map next).getD []

def selectedLength (data : List UInt8) (offset length : UInt64) : Nat :=
  min length.toNat (data.length - offset.toNat)

section

variable {X α : Type} {x : Outcome α} {y : Outcome (HostResult X)} {demands : List Demand}
  {m : Memory} {data : List UInt8} {address : UInt64}

@[simp] theorem answers_ret {r : HostResult X} :
    Answers (.ret r) ↔ ∀ e, r.err = some e → e.IsExit := by
  simp [Answers]

theorem settles_of
    (h : (∀ n, .alloc n ∈ demands → n ≤ 2 ^ 32) → (Answers y ↔ ∀ d ∈ demands, d.Met)) :
    Settles y demands :=
  ⟨fun ⟨hanswers, hmodest⟩ => (h hmodest).mp hanswers, fun hmet =>
    ⟨(h fun _ hn => hmet _ hn).mpr hmet, fun _ hn => hmet _ hn⟩⟩

theorem Settles.answers_iff (h : Settles y demands)
    (hmodest : ∀ n, .alloc n ∈ demands → n ≤ 2 ^ 32) : Answers y ↔ ∀ d ∈ demands, d.Met :=
  ⟨fun hanswers => h.mp ⟨hanswers, hmodest⟩, fun hmet => (h.mpr hmet).1⟩

theorem settles_nil (h : Answers y) : Settles y [] := settles_of fun _ => by simp [h]

theorem settles_alloc {n : Nat} (h : Settles y demands) : Settles y (.alloc n :: demands) := by
  refine settles_of fun hmodest => ?_
  rw [h.answers_iff fun l hl => hmodest l (mem_cons_of_mem _ hl), forall_mem_cons]
  exact (and_iff_right (hmodest n mem_cons_self)).symm

theorem settles_allocs (h : Settles y demands) (sizes : List Nat) :
    Settles y (sizes.map .alloc ++ demands) := by
  induction sizes with
  | nil => exact h
  | cons n sizes ih => exact settles_alloc ih

theorem settles_last {k : α → Outcome (HostResult X)} {d : Demand} (hd : x.Returns ↔ d.Met)
    (hk : ∀ a, x = .ret a → Answers (k a)) : Settles (x >>= k) [d] := by
  refine settles_of fun _ => ?_
  rw [forall_mem_singleton, ← hd]
  cases x with
  | ret a => simp [hk a rfl]
  | crash | hang => simp [Answers]

theorem settles_charged {gas : Gas} {regs : Registers} {z : X}
    {body : Gas → Outcome (HostResult X)} (h : Settles (body (gas - callCost)) demands) :
    Settles (charged callCost gas regs m z body) (paying gas demands) := by
  unfold charged paying
  split
  · exact settles_nil (by simp)
  · exact h

theorem settles_filling {n : UInt64} {next : List UInt8 → List Demand}
    {k : Except Err (List UInt8) → Outcome (HostResult X)} (hm : m.Fits (2 ^ 34))
    (herr : ∀ e, Answers (k (.error e)))
    (hok : ∀ data, data.length < 2 ^ 63 → m.read address n = .ret (.ok data) →
      Settles (k (.ok data)) (next data)) :
    Settles (makeCheck 1 n.toNat >>= fun _ => m.read address n >>= k)
      (filling m address n next) := by
  refine settles_of fun hmodest => ?_
  have hn : n.toNat ≤ 2 ^ 32 := hmodest _ mem_cons_self
  have hreturns : (m.read address n).Returns ↔ _ :=
    Memory.read_returns_iff hm (Nat.lt_of_le_of_lt hn (by decide))
  rw [makeCheck_of_le (by rw [Nat.one_mul]; exact Nat.le_trans hn (by decide)), ret_bind,
    filling, forall_mem_cons, forall_mem_cons, Demand.Met, and_iff_right hn, Demand.Met,
    ← hreturns]
  cases hread : m.read address n with
  | crash | hang => simp [Answers]
  | ret res =>
    cases res with
    | error e => simp [herr]
    | ok data =>
      have hlength := Memory.length_of_read hread
      have hsettles := hok data (by omega) hread
      have hnext := hsettles.answers_iff fun l hl => hmodest l (by simp [filling, hread, hl])
      simp [hnext]

theorem selectedLength_eq {offset length : UInt64} (hdata : data.length < 2 ^ 63) :
    (min length (UInt64.ofNat data.length - min offset (UInt64.ofNat data.length))).toNat =
      selectedLength data offset length := by
  have hlen : (UInt64.ofNat data.length).toNat = data.length := toNat_ofNat_of_lt (by omega)
  have hle : min offset (UInt64.ofNat data.length) ≤ UInt64.ofNat data.length := by
    rw [UInt64.le_iff_toNat_le, UInt64.toNat_min]
    exact Nat.min_le_right ..
  rw [UInt64.toNat_min, UInt64.toNat_sub_of_le _ _ hle, UInt64.toNat_min, hlen, selectedLength]
  omega

theorem settles_copy {offset length : UInt64} {k : Except Err Memory → Outcome (HostResult X)}
    (hm : m.Fits (2 ^ 34)) (hdata : data.length < 2 ^ 63) (hok : ∀ m', Answers (k (.ok m')))
    (herr : ∀ msg, Answers (k (.error (.panic msg)))) :
    Settles (writeFromOffset m address data offset length >>= k)
      [.range m address (selectedLength data offset length)] := by
  have hselected : _ = selectedLength data offset length := selectedLength_eq hdata
  have hf : (min offset (UInt64.ofNat data.length)).toNat = min offset.toNat data.length := by
    rw [UInt64.toNat_min, toNat_ofNat_of_lt (by omega)]
  unfold writeFromOffset
  simp only
  generalize min offset (UInt64.ofNat data.length) = f at hselected hf ⊢
  generalize min length (UInt64.ofNat data.length - f) = l at hselected ⊢
  split
  · have hlength : ((data.drop f.toNat).take l.toNat).length =
        selectedLength data offset length := by
      rw [length_take, length_drop, hselected, hf, selectedLength]
      omega
    rw [← hlength, bind_assoc]
    refine settles_last (Memory.write_returns_iff hm (by rw [hlength, selectedLength]; omega)) ?_
    rintro (e | m') - <;> simp [hok, herr]
  · next hpos =>
    have hlt := address.toNat_lt
    refine settles_of fun _ => ?_
    rw [ret_bind, forall_mem_singleton, ← hselected, Demand.Met, Memory.Overruns]
    have hzero : l.toNat = 0 := Nat.eq_zero_of_not_pos hpos
    simp only [hok, true_iff]
    omega

end

section

variable (H : HashData) (gas : Gas) (regs : Registers) (mem : Memory) (s : ServiceAccount)
  (serviceId : ServiceId) (services : ServiceState) (ctxPair : RefineContextPair)

def readDemands : List Demand :=
  paying gas <|
    match foundByRead s serviceId services (regs.get A0) with
    | none => []
    | some (id, a) => filling mem (regs.get A1) (regs.get A2) fun key =>
      .alloc (4 + key.length) ::
        match a.storage.lookup (storageKey H id key) with
        | none => []
        | some v =>
          [.range mem (regs.get A3) (selectedLength v (regs.get A4) (regs.get A5))]

def writeDemands : List Demand :=
  paying gas <| filling mem (regs.get A0) (regs.get A1) fun key =>
    .alloc (4 + key.length) ::
      if regs.get A3 = 0 then []
      else filling mem (regs.get A2) (regs.get A3) fun _ => []

def blobAllocs (bytes : List UInt8) : List Nat :=
  match decodeLengths bytes with
  | .error _ => []
  | .ok (sizes, r) => 8 * sizes.jumpTableEntryCount.toNat ::
    match decodeJumpTable sizes.jumpTableEntrySize.toNat sizes.jumpTableEntryCount.toNat r with
    | .error _ => []
    | .ok (_, r) => sizes.codeLength.toNat ::
      match Jam.decodeBytesFixedLength sizes.codeLength.toNat r with
      | .error _ => []
      | .ok (_, mask) => if mask.length ≤ Jam.maxUint32 then [8 * mask.length] else []

def machineDemands : List Demand :=
  paying gas <| filling mem (regs.get A0) (regs.get A1) fun bytes =>
    (blobAllocs bytes).map .alloc ++ .blob bytes ::
      match deblob bytes with
      | .ret (.ok _) => [.map ctxPair]
      | _ => []

def copyDemands (source target : IntegratedPVM → Memory) (address address' : UInt64) :
    List Demand :=
  paying gas <|
    match ctxPair.machines.lookup (regs.get A0) with
    | none => []
    | some u => filling (source u) address (regs.get A3) fun data =>
      [.range (target u) address' data.length]

def peekDemands : List Demand :=
  copyDemands gas regs ctxPair IntegratedPVM.ram (fun _ => mem) (regs.get A2) (regs.get A1)

def pokeDemands : List Demand :=
  copyDemands gas regs ctxPair (fun _ => mem) IntegratedPVM.ram (regs.get A1) (regs.get A2)

variable {H gas regs mem s serviceId services ctxPair}

theorem read_settles (hm : mem.Fits (2 ^ 34))
    (hvalues : ∀ p, foundByRead s serviceId services (regs.get A0) = some p →
      ∀ key v, p.2.storage.lookup key = some v → v.length < 2 ^ 63) :
    Settles (read H gas regs mem s serviceId services)
      (readDemands H gas regs mem s serviceId services) := by
  rw [read_selecting, selecting]
  refine settles_charged ?_
  cases hp : foundByRead s serviceId services (regs.get A0) with
  | none => exact settles_nil (by simp [absent])
  | some p =>
    refine settles_filling hm (by simp) fun key _ _ => settles_alloc ?_
    dsimp only
    cases hv : p.2.storage.lookup (storageKey H p.1 key) with
    | none => exact settles_nil (by simp)
    | some v => exact settles_copy hm (hvalues p hp _ v hv) (by simp) (by simp)

theorem write_settles (hm : mem.Fits (2 ^ 34)) :
    Settles (write H gas regs mem s serviceId) (writeDemands gas regs mem) := by
  have hresult (g a k) : Answers (.ret (writeResult g regs mem a k)) := by
    unfold writeResult
    split
    · simp
    · split <;> simp
  refine settles_charged ?_
  refine settles_filling hm (by simp) fun key _ _ => settles_alloc ?_
  dsimp only
  split
  · exact settles_nil (hresult ..)
  · exact settles_filling hm (by simp) fun _ _ _ => settles_nil (hresult ..)

theorem machine_settles (hm : mem.Fits (2 ^ 34)) :
    Settles (machine gas regs mem ctxPair) (machineDemands gas regs mem ctxPair) := by
  refine settles_charged ?_
  refine settles_filling hm (by simp) fun bytes _ _ => settles_allocs ?_ _
  refine settles_of fun _ => ?_
  rw [forall_mem_cons, Demand.Met, ← deblob_returns_iff]
  dsimp only
  cases deblob bytes with
  | crash | hang => simp [Answers]
  | ret d =>
    cases d with
    | error e => simp
    | ok d =>
      cases hmap : ctxPair.integratedPVMMap <;>
        simp [RefineContextPair.setMachine, hmap, Answers, Demand.Met]

theorem peek_settles (hm : mem.Fits (2 ^ 34))
    (hu : ∀ u, ctxPair.machines.lookup (regs.get A0) = some u → u.ram.Fits (2 ^ 34)) :
    Settles (peek gas regs mem ctxPair) (peekDemands gas regs mem ctxPair) := by
  refine settles_charged ?_
  cases hget : ctxPair.machines.lookup (regs.get A0) with
  | none => exact settles_nil (by simp)
  | some u =>
    refine settles_filling (hu u hget) (by simp) fun data hlength _ => ?_
    refine settles_last (Memory.write_returns_iff hm hlength) fun res _ => ?_
    cases res <;> simp

theorem poke_settles (hm : mem.Fits (2 ^ 34))
    (hu : ∀ u, ctxPair.machines.lookup (regs.get A0) = some u → u.ram.Fits (2 ^ 34)) :
    Settles (poke gas regs mem ctxPair) (pokeDemands gas regs mem ctxPair) := by
  refine settles_charged ?_
  dsimp only
  cases hget : ctxPair.machines.lookup (regs.get A0) with
  | none => exact settles_nil (by simp)
  | some u =>
    refine settles_filling hm (by simp) fun data hlength _ => ?_
    refine settles_last (Memory.write_returns_iff (hu u hget) hlength) fun res _ => ?_
    cases res with
    | error e => simp
    | ok ram =>
      obtain ⟨x, hx, -⟩ := setMachine_of_lookup hget { u with ram }
      simp [hx]

end

section

variable {α β : Type} {xs : List α} {k : α → Outcome β} {next : α → List Demand}

theorem indexing_returns {i : Nat} (h : ∀ a, (k a).Returns ↔ ∀ d ∈ next a, d.Met) :
    (indexAt xs i >>= k).Returns ↔ ∀ d ∈ indexing xs i next, d.Met := by
  by_cases hi : i < xs.length <;> simp [indexAt, indexing, hi, Demand.Met, h]

theorem passesCheck_iff {i : UInt64} {n : Nat} :
    passesCheck i n ↔ i.toNat < n ∨ 2 ^ 63 ≤ i.toNat := by
  have hlt := i.toNat_lt
  rw [passesCheck, decide_eq_true_iff, toInt_toInt64]
  split
  · omega
  · omega

theorem narrow_met {i : UInt64} {n : Nat} : (narrow i n).Met ↔ (passesCheck i n → i.toNat < n) := by
  rw [narrow, Demand.Met, passesCheck_iff]
  omega

theorem checking_returns {i : UInt64} {b : β} (h : ∀ a, (k a).Returns ↔ ∀ d ∈ next a, d.Met) :
    (if passesCheck i xs.length then indexAt xs i.toNat >>= k else .ret b).Returns ↔
      ∀ d ∈ checking xs i next, d.Met := by
  rw [checking, forall_mem_cons, narrow_met]
  split
  · next hpass =>
    rw [indexing_returns h, indexing, forall_mem_cons, forall_prop_of_true hpass]
    rfl
  · next hfail =>
    have hout : xs[i.toNat]? = none := by
      rw [passesCheck_iff] at hfail
      exact getElem?_eq_none (by omega)
    simp [hfail, hout]

theorem octet_returns {segments : List Segment} {i j : Nat} {b : UInt8 → β} :
    (do
      let segment ← indexAt segments i
      let octet ← indexAt segment.toList j
      .ret (b octet)).Returns ↔ i < segments.length ∧ j < sizeOfSegment := by
  by_cases hi : i < segments.length <;> by_cases hj : j < sizeOfSegment <;>
    simp [indexAt, hi, hj]

variable (item : UInt32) (wp : Package) (auth : Option (List UInt8))
  (imported : List Segment) (fetcher : Option PreimageFetcher) (gas : Gas)
  (regs : Registers) (mem : Memory) (ctxPair : RefineContextPair)

def fetchIndices (dataID index1 index2 : UInt64) : List Demand :=
  match dataID.toNat with
  | 2 => checking wp.workItems index1 fun _ => []
  | 3 =>
    if fetcher.isNone then []
    else checking wp.workItems index1 fun w => checking w.extrinsics index2 fun _ => []
  | 4 =>
    if fetcher.isNone then []
    else indexing wp.workItems item.toNat fun w =>
      checking w.extrinsics index1 fun _ => []
  | 5 =>
    -- neither index is used if the other one is refused
    (if passesCheck index2 sizeOfSegment then [narrow index1 imported.length] else []) ++
      if passesCheck index1 imported.length then [narrow index2 sizeOfSegment] else []
  | 6 => if item.toNat < imported.length then [narrow index1 sizeOfSegment] else []
  | _ => []

def fetchDemands : List Demand :=
  let found := fetchData item wp auth imported fetcher
    (regs.get A3) (regs.get A4) (regs.get A5)
  paying gas <| (if regs.get A3 = 0 then [wp.encode.length] else []).map .alloc ++
      (fetchIndices item wp imported fetcher (regs.get A3)
        (regs.get A4) (regs.get A5) ++
      match found with
      | .ret (.error e) => [.exit e]
      | .ret (.ok (some v)) =>
        [.range mem (regs.get A0) (selectedLength v (regs.get A1) (regs.get A2))]
      | _ => [])

variable {item wp auth imported fetcher gas regs mem ctxPair}

variable (auth) in
theorem fetchData_returns_iff {dataID index1 index2 : UInt64} :
    (fetchData item wp auth imported fetcher dataID index1
        index2).Returns ↔
      ∀ d ∈ fetchIndices item wp imported fetcher dataID index1 index2,
        d.Met := by
  unfold fetchData fetchIndices
  generalize dataID.toNat = id
  split
  · simp
  · simp
  · exact checking_returns (by simp)
  · cases fetcher with
    | none => simp
    | some fetchPreimage => exact checking_returns fun w => checking_returns (by simp)
  · cases fetcher with
    | none => simp
    | some fetchPreimage => exact indexing_returns fun w => checking_returns (by simp)
  · by_cases hfirst : passesCheck index1 imported.length
    · by_cases hsecond : passesCheck index2 sizeOfSegment
      · simp [hfirst, hsecond, narrow_met, octet_returns]
      · simp [hfirst, hsecond, narrow_met]
    · simp [hfirst, narrow_met]
  · by_cases hitem : item.toNat < imported.length
    · by_cases hindex : passesCheck index1 sizeOfSegment
      · simp [hitem, hindex, narrow_met, octet_returns]
      · simp [hitem, hindex, narrow_met]
    · simp [hitem]
  · simp_all

theorem fetch_settles (hm : mem.Fits (2 ^ 34))
    (hdata : ∀ v, fetchData item wp auth imported fetcher
      (regs.get A3) (regs.get A4) (regs.get A5) = .ret (.ok (some v)) → v.length < 2 ^ 63) :
    Settles (fetch gas regs mem ctxPair item wp auth imported
        fetcher)
      (fetchDemands item wp auth imported fetcher gas regs
        mem) := by
  refine settles_charged (settles_allocs (settles_of fun _ => ?_) _)
  rw [forall_mem_append, ← fetchData_returns_iff auth]
  generalize fetchData .. = found at hdata ⊢
  cases found with
  | crash | hang => simp [Answers]
  | ret res =>
    rcases res with e | _ | v
    · simp [Demand.Met]
    · simp
    · rw [and_iff_right (returns_ret _)]
      exact (settles_copy hm (hdata v rfl) (by simp) (by simp)).answers_iff (by simp)

end

/-- A call answers just if its demands are met. -/
theorem calls_settle (H : HashData) (gas : Gas) (regs : Registers) (mem : Memory)
    (s : ServiceAccount) (serviceId : ServiceId) (services : ServiceState)
    (ctxPair : RefineContextPair) (item : UInt32) (wp : Package)
    (auth : Option (List UInt8)) (imported : List Segment)
    (fetcher : Option PreimageFetcher) (hm : mem.Fits (2 ^ 34))
    (hu : ∀ u, ctxPair.machines.lookup (regs.get A0) = some u → u.ram.Fits (2 ^ 34))
    (hvalues : ∀ p, foundByRead s serviceId services (regs.get A0) = some p →
      ∀ key v, p.2.storage.lookup key = some v → v.length < 2 ^ 63)
    (hdata : ∀ v, fetchData item wp auth imported fetcher
      (regs.get A3) (regs.get A4) (regs.get A5) = .ret (.ok (some v)) → v.length < 2 ^ 63) :
    Settles (fetch gas regs mem ctxPair item wp auth imported
        fetcher)
      (fetchDemands item wp auth imported fetcher gas regs
        mem) ∧
    Settles (read H gas regs mem s serviceId services)
      (readDemands H gas regs mem s serviceId services) ∧
    Settles (write H gas regs mem s serviceId) (writeDemands gas regs mem) ∧
    Settles (machine gas regs mem ctxPair) (machineDemands gas regs mem ctxPair) ∧
    Settles (peek gas regs mem ctxPair) (peekDemands gas regs mem ctxPair) ∧
    Settles (poke gas regs mem ctxPair) (pokeDemands gas regs mem ctxPair) :=
  ⟨fetch_settles hm hdata, read_settles hm hvalues, write_settles hm, machine_settles hm,
    peek_settles hm hu, poke_settles hm hu⟩

def emptyPackage : Package :=
  let hash : Hash := .replicate 32 0
  ⟨[], 0, hash, [], ⟨⟨hash, hash, hash⟩, ⟨hash, 0⟩, []⟩, []⟩

def wildRegisters : Registers :=
  #v[0, 0, 0, 0, 0, 0, 0, 0, 0, 0xFFFFFFFFFFFFFFFF, 2, 0x8000000000000000, 0]

def oneMachine : RefineContextPair :=
  ⟨some ((∅ : GoMap UInt64 IntegratedPVM).insert 0 ⟨[], Memory.emptyLayout, 0⟩), []⟩

theorem calls_settle_of_wildRegisters : Memory.emptyLayout.Fits (2 ^ 34) ∧
      Settles (fetch callCost wildRegisters Memory.emptyLayout oneMachine 0 emptyPackage none [] none)
        (fetchDemands 0 emptyPackage none [] none callCost wildRegisters Memory.emptyLayout) ∧
      Settles (peek callCost wildRegisters Memory.emptyLayout oneMachine)
        (peekDemands callCost wildRegisters Memory.emptyLayout oneMachine) := by
  have hm : Memory.emptyLayout.Fits (2 ^ 34) := Memory.emptyLayout_fits.mono (by decide)
  have hu : ∀ u, oneMachine.machines.lookup (wildRegisters.get A0) = some u →
      u.ram.Fits (2 ^ 34) := by
    intro u hu
    rw [show wildRegisters.get A0 = 0 from rfl, oneMachine, RefineContextPair.machines,
      Option.getD_some, Finmap.lookup_insert] at hu
    cases hu
    exact hm
  have hvalues : ∀ p, foundByRead .zero 0 ∅ (wildRegisters.get A0) = some p →
      ∀ key v, p.2.storage.lookup key = some v → v.length < 2 ^ 63 := by
    rintro p hp key v hv
    cases hp
    cases hv
  have hall := calls_settle (fun _ => .replicate 32 0) callCost wildRegisters Memory.emptyLayout
    .zero 0 ∅ oneMachine 0 emptyPackage none [] none hm hu hvalues fun v hv => by cases hv
  exact ⟨hm, hall.1, hall.2.2.2.2.1⟩

theorem wild_registers_crash :
    fetch callCost wildRegisters Memory.emptyLayout .zero 0 emptyPackage none [] none =
        .crash .indexOutOfRange ∧
      read (fun _ => .replicate 32 0) callCost wildRegisters Memory.emptyLayout .zero 0 ∅ =
        .crash .makeLenOutOfRange :=
  ⟨rfl, rfl⟩

end Strawberry.HostCall
