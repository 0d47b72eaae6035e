import Strawberry.Codec.Naturals
import Strawberry.Lib.Checks
import Strawberry.Polkavm.Program

/-!
# Blobs and their encodings

`deblob` inverts the encoding of the code; `parseBlob` inverts that of a program nowhere.
-/

namespace Strawberry.Jam

open List

theorem leNat_append_zeros (bytes : List UInt8) (k : Nat) :
    leNat (bytes ++ List.replicate k 0) = leNat bytes := by
  induction bytes with
  | nil =>
    induction k with
    | zero => rfl
    | succ k ih => simpa [replicate_succ, leNat] using ih
  | cons b bytes ih => simp only [cons_append, leNat, ih]

variable {n l : Nat} {r : Reader} {bytes : List UInt8} {bits : List Bool}

theorem decodeFixedWidth_take (hr : r ≠ []) :
    decodeFixedWidth n r = .ok (leUInt64 (r.take n), r.drop n) := by
  cases n with
  | zero => rfl
  | succ n =>
    simp only [decodeFixedWidth, read, Nat.succ_ne_zero, if_neg hr, if_false]
    rw [leUInt64, leUInt64, leNat_append_zeros]

theorem decodeFixedWidth_toLE {x : Nat} (hx : x < 256 ^ l) (rest : List UInt8) :
    decodeFixedWidth l (toLE l x ++ rest) = .ok (UInt64.ofNat x, rest) := by
  have hread := read_append (toLE l x) rest
  rw [length_toLE] at hread
  rw [decodeFixedWidth, hread]
  simp only [leUInt64, leNat_toLE, Nat.mod_eq_of_lt hx]

theorem leUInt64_toNat (hl : l ≤ 8) (h : bytes.length ≤ l) :
    (leUInt64 bytes).toNat = leNat bytes := by
  have hlt := leNat_lt bytes
  have hpow : 256 ^ bytes.length ≤ 256 ^ 8 := Nat.pow_le_pow_right (by decide) (by omega)
  rw [leUInt64, UInt64.toNat_ofNat']
  omega

theorem decodeBytesFixedLength_append (h : bytes.length ≤ maxUint32) (rest : List UInt8) :
    decodeBytesFixedLength bytes.length (bytes ++ rest) = .ok (bytes, rest) := by
  rw [decodeBytesFixedLength, if_neg (by omega), read_append]

theorem decodeBytesFixedLength_eq_ok {r' : Reader} {buf : List UInt8}
    (h : decodeBytesFixedLength n r = .ok (buf, r')) :
    buf.length = n ∧ r' = r.drop n ∧ (n ≤ r.length → buf = r.take n) := by
  unfold decodeBytesFixedLength at h
  split at h
  · cases h
  · refine ⟨read_length h, ?_⟩
    unfold read at h
    split at h
    · next hn =>
      cases h
      simp [hn]
    · split at h
      · cases h
      · cases h
        refine ⟨rfl, fun hle => ?_⟩
        rw [Nat.sub_eq_zero_of_le hle]
        simp

def bitsNat : List Bool → Nat
  | [] => 0
  | b :: bs => b.toNat + 2 * bitsNat bs

def packOctets : Nat → List Bool → List UInt8
  | 0, _ => []
  | n + 1, bits => UInt8.ofNat (bitsNat (bits.take 8)) :: packOctets n (bits.drop 8)

def packBits (bits : List Bool) : List UInt8 := packOctets ((bits.length + 7) / 8) bits

theorem bitsNat_lt (bits : List Bool) : bitsNat bits < 2 ^ bits.length := by
  induction bits with
  | nil => simp [bitsNat]
  | cons b bs ih =>
    have hb := b.toNat_lt
    rw [bitsNat, length_cons, Nat.pow_succ]
    omega

theorem testBit_bitsNat (bits : List Bool) (k : Nat) :
    (bitsNat bits).testBit k = bits.getD k false := by
  induction bits generalizing k with
  | nil => simp [bitsNat]
  | cons b bs ih =>
    have hb := b.toNat_lt
    cases k with
    | zero =>
      rw [bitsNat, Nat.testBit_zero, Nat.add_mul_mod_self_left]
      cases b <;> rfl
    | succ k =>
      have hhalf : (b.toNat + 2 * bitsNat bs) / 2 = bitsNat bs := by omega
      rw [bitsNat, Nat.testBit_succ, hhalf, ih]
      rfl

theorem octetBits_ofNat (h : bits.length ≤ 8) :
    octetBits (UInt8.ofNat (bitsNat bits)) = bits ++ List.replicate (8 - bits.length) false := by
  have hlt := bitsNat_lt bits
  have hpow : 2 ^ bits.length ≤ 2 ^ 8 := Nat.pow_le_pow_right (by decide) h
  have hoctet : (UInt8.ofNat (bitsNat bits)).toNat = bitsNat bits := by
    rw [UInt8.toNat_ofNat']
    omega
  rw [octetBits, hoctet]
  apply ext_getElem
  · simp only [length_map, length_range, length_append, length_replicate]
    omega
  · intro k hk hk'
    rw [getElem_map, getElem_range, testBit_bitsNat, getElem_append,
      getD_eq_getElem?_getD]
    split
    · next hlt => rw [List.getElem?_eq_getElem hlt, Option.getD_some]
    · next hge =>
      rw [List.getElem?_eq_none (Nat.le_of_not_lt hge), getElem_replicate, Option.getD_none]

theorem flatMap_octetBits_packOctets (h : bits.length ≤ 8 * n) :
    (packOctets n bits).flatMap octetBits = bits ++ List.replicate (8 * n - bits.length) false := by
  induction n generalizing bits with
  | zero =>
    obtain rfl : bits = [] := eq_nil_of_length_eq_zero (by omega)
    rfl
  | succ n ih =>
    have htail : (bits.drop 8).length ≤ 8 * n := by
      rw [length_drop]
      omega
    rw [packOctets, flatMap_cons, ih htail, octetBits_ofNat (length_take_le _ _)]
    by_cases hlong : 8 ≤ bits.length
    · -- a full octet: nothing is filled up here
      have hfull : 8 - (bits.take 8).length = 0 := by
        rw [length_take]
        omega
      have hpad : 8 * n - (bits.drop 8).length = 8 * (n + 1) - bits.length := by
        rw [length_drop]
        omega
      rw [hfull, replicate_zero, append_nil, ← append_assoc,
        take_append_drop, hpad]
    · have hpad : 8 - bits.length + 8 * n = 8 * (n + 1) - bits.length := by omega
      rw [take_of_length_le (by omega), drop_of_length_le (by omega), nil_append,
        length_nil, Nat.sub_zero, append_assoc, replicate_append_replicate, hpad]

theorem length_packOctets (n : Nat) (bits : List Bool) : (packOctets n bits).length = n := by
  induction n generalizing bits with
  | zero => rfl
  | succ n ih => simp [packOctets, ih]

theorem flatMap_octetBits_packBits (bits : List Bool) :
    ∃ pad < 8, (packBits bits).flatMap octetBits = bits ++ List.replicate pad false :=
  ⟨_, by omega, flatMap_octetBits_packOctets (by omega)⟩

end Strawberry.Jam

namespace Strawberry.Polkavm

open List

open Jam (JamError Reader toLE leNat leUInt64 serializeUint64 packBits)

structure StandardParts where
  roData : List UInt8
  rwData : List UInt8
  initialHeapPages : Nat
  stackSize : Nat
  code : List UInt8
  roData_lt : roData.length < 256 ^ 3
  rwData_lt : rwData.length < 256 ^ 3
  initialHeapPages_lt : initialHeapPages < 256 ^ 2
  stackSize_lt : stackSize < 256 ^ 3
  code_lt : code.length < 256 ^ 4

namespace StandardParts

def body (p : StandardParts) : List UInt8 :=
  p.roData ++ (p.rwData ++ (toLE 4 p.code.length ++ p.code))

def encode (p : StandardParts) : List UInt8 :=
  toLE 3 p.roData.length ++ (toLE 3 p.rwData.length ++ (toLE 2 p.initialHeapPages ++
    (toLE 3 p.stackSize ++ p.body)))

def program (p : StandardParts) : Program :=
  { programMemorySizes :=
      { roDataSize := UInt64.ofNat p.roData.length
        rwDataSize := UInt64.ofNat p.rwData.length
        initialHeapPages := UInt64.ofNat p.initialHeapPages
        stackSize := UInt64.ofNat p.stackSize }
    roData := p.roData
    rwData := p.rwData
    codeAndJumpTable := p.code }

theorem length_encode (p : StandardParts) :
    p.encode.length = 15 + p.roData.length + p.rwData.length + p.code.length := by
  simp only [encode, body, length_append, Jam.length_toLE]
  omega

theorem decode_header (p : StandardParts) :
    decodeProgramMemorySizes p.encode = .ok (p.program.programMemorySizes, p.body) := by
  simp only [decodeProgramMemorySizes, decodeSizedField, encode,
    Jam.decodeFixedWidth_toLE p.roData_lt, Jam.decodeFixedWidth_toLE p.rwData_lt,
    Jam.decodeFixedWidth_toLE p.initialHeapPages_lt, Jam.decodeFixedWidth_toLE p.stackSize_lt,
    bind, Except.bind]
  rfl

end StandardParts

theorem parseBlob_encode (p : StandardParts) : parseBlob p.encode =
      .ret (.error (if p.rwData = [] then .codeSizeMismatch else .rwDataSizeMismatch)) := by
  have hro := toNat_ofNat_of_lt (p.roData_lt.trans (by decide))
  have hrw := toNat_ofNat_of_lt (p.rwData_lt.trans (by decide))
  have hcode := toNat_ofNat_of_lt (p.code_lt.trans (by decide))
  have hrolt := p.roData_lt
  have hlen := p.length_encode
  have hread : Jam.decodeBytesFixedLength p.roData.length p.body = .ok (p.roData, _) :=
    Jam.decodeBytesFixedLength_append (Nat.le_of_lt (Nat.lt_of_lt_of_le hrolt (by decide))) _
  simp only [parseBlob, p.decode_header, StandardParts.program, hro, hrw, hread, ne_eq, not_true,
    if_false]
  by_cases hnil : p.rwData = []
  · simp only [hnil, length_nil, not_true, if_false, nil_append, if_true]
    have hempty (r : Reader) : Jam.decodeBytesFixedLength 0 r = .ok ([], r) := rfl
    rw [hempty]
    simp only [Jam.decodeFixedWidth_toLE p.code_lt, hcode]
    rw [sliceOf_of_le (by omega) (Nat.le_refl _), ret_bind, if_pos]
    · rfl
    · rw [length_take, length_drop, hlen]
      omega
  · rw [if_pos (fun h => hnil (eq_nil_of_length_eq_zero h)), if_neg hnil]

def headerOf (data : List UInt8) : ProgramMemorySizes :=
  { roDataSize := leUInt64 (data.take 3)
    rwDataSize := leUInt64 ((data.drop 3).take 3)
    initialHeapPages := leUInt64 ((data.drop 6).take 2)
    stackSize := leUInt64 ((data.drop 8).take 3) }

structure Misread (data : List UInt8) : Prop where
  room : 11 + leNat (data.take 3) < data.length
  rwData : leNat ((data.drop 3).take 3) = 0
  codeSize : leNat ((data.drop (11 + leNat (data.take 3))).take 4) = data.length - 4

instance (data : List UInt8) : Decidable (Misread data) :=
  decidable_of_iff (11 + leNat (data.take 3) < data.length ∧ leNat ((data.drop 3).take 3) = 0 ∧
      leNat ((data.drop (11 + leNat (data.take 3))).take 4) = data.length - 4)
    ⟨fun ⟨h, h', h''⟩ => ⟨h, h', h''⟩, fun ⟨h, h', h''⟩ => ⟨h, h', h''⟩⟩

def misreading (data : List UInt8) : Program :=
  { programMemorySizes := headerOf data
    roData := (data.drop 11).take (leNat (data.take 3))
    rwData := []
    codeAndJumpTable := data.drop (15 + leNat (data.take 3)) }

variable {data blob : List UInt8} {n z : Nat} {r r' : Reader} {table : List UInt64}

theorem drop_ne_nil (h : n < data.length) : data.drop n ≠ [] := by
  intro hnil
  have hle := drop_eq_nil_iff.mp hnil
  omega

theorem decodeProgramMemorySizes_of_le (h : 9 ≤ data.length) :
    decodeProgramMemorySizes data = .ok (headerOf data, data.drop 11) := by
  have h₀ : data ≠ [] := ne_nil_of_length_pos (by omega)
  have h₃ : data.drop 3 ≠ [] := drop_ne_nil (by omega)
  have h₆ : data.drop 6 ≠ [] := drop_ne_nil (by omega)
  have h₈ : data.drop 8 ≠ [] := drop_ne_nil (by omega)
  simp only [decodeProgramMemorySizes, decodeSizedField, bind, Except.bind,
    Jam.decodeFixedWidth_take h₀, drop_drop, Jam.decodeFixedWidth_take h₃,
    Jam.decodeFixedWidth_take h₆, Jam.decodeFixedWidth_take h₈, headerOf]

theorem decodeSizedField_eq_ok {name : String} {x : UInt64} (hn : n ≠ 0)
    (h : decodeSizedField name n r = .ok (x, r')) : r ≠ [] ∧ r' = r.drop n := by
  have hr : r ≠ [] := by
    rintro rfl
    simp only [decodeSizedField, Jam.decodeFixedWidth_nil hn] at h
    cases h
  refine ⟨hr, ?_⟩
  simp only [decodeSizedField, Jam.decodeFixedWidth_take hr] at h
  cases h
  rfl

theorem le_of_decodeProgramMemorySizes {x : ProgramMemorySizes × Reader}
    (h : decodeProgramMemorySizes data = .ok x) : 9 ≤ data.length := by
  simp only [decodeProgramMemorySizes, Strawberry.bind_eq_ok] at h
  obtain ⟨⟨_, r₁⟩, h₁, ⟨_, r₂⟩, h₂, ⟨_, r₃⟩, h₃, ⟨_, r₄⟩, h₄, -⟩ := h
  obtain ⟨-, rfl⟩ := decodeSizedField_eq_ok (by decide) h₁
  obtain ⟨-, rfl⟩ := decodeSizedField_eq_ok (by decide) h₂
  obtain ⟨-, rfl⟩ := decodeSizedField_eq_ok (by decide) h₃
  obtain ⟨hr, -⟩ := decodeSizedField_eq_ok (by decide) h₄
  have hpos := length_pos_of_ne_nil hr
  simp only [drop_drop, length_drop] at hpos
  omega

theorem sliceOf_measured (h : 9 ≤ data.length) :
    sliceOf data (0 + 4) data.length = .ret (data.drop 4) := by
  rw [sliceOf_of_le (by omega) (Nat.le_refl _), take_of_length_le (by rw [length_drop])]

theorem toNat_header (data : List UInt8) : (headerOf data).roDataSize.toNat = leNat (data.take 3) ∧
      (headerOf data).rwDataSize.toNat = leNat ((data.drop 3).take 3) :=
  ⟨Jam.leUInt64_toNat (l := 3) (by decide) (length_take_le _ _),
    Jam.leUInt64_toNat (l := 3) (by decide) (length_take_le _ _)⟩

theorem roDataSize_le (data : List UInt8) : leNat (data.take 3) ≤ Jam.maxUint32 := by
  have hlt := Jam.leNat_lt (data.take 3)
  have hpow : 256 ^ (data.take 3).length ≤ 256 ^ 3 :=
    Nat.pow_le_pow_right (by decide) (length_take_le _ _)
  have hmax : 256 ^ 3 ≤ Jam.maxUint32 := by decide
  omega

theorem parseBlob_of_misread (h : Misread data) :
    parseBlob data = .ret (.ok (misreading data)) := by
  obtain ⟨hroom, hrw, hcode⟩ := h
  obtain ⟨hro', hrw'⟩ := toNat_header data
  rw [hrw] at hrw'
  have hnine : 9 ≤ data.length := by omega
  obtain ⟨buf, hbuf, hlen⟩ := Jam.decodeBytesFixedLength_ok (roDataSize_le data)
    (.inr (drop_ne_nil (show 11 < data.length by omega)))
  obtain rfl : buf = _ := (Jam.decodeBytesFixedLength_eq_ok hbuf).2.2 (by
    rw [length_drop]
    omega)
  have hempty (r : Reader) : Jam.decodeBytesFixedLength 0 r = .ok ([], r) := rfl
  have hfield : Jam.decodeFixedWidth 4 (data.drop (11 + leNat (data.take 3))) = _ :=
    Jam.decodeFixedWidth_take (drop_ne_nil hroom)
  have hsize := Jam.leUInt64_toNat (by decide)
    (length_take_le 4 (data.drop (11 + leNat (data.take 3))))
  simp only [parseBlob, decodeProgramMemorySizes_of_le hnine, hro', hbuf, hlen, hrw', ne_eq,
    not_true, if_false, hempty, drop_drop, hfield, hsize, hcode, sliceOf_measured hnine,
    ret_bind, length_drop, pure_eq, misreading]
  rw [Nat.add_right_comm]

theorem parseBlob_of_not_misread (h : ¬ Misread data) : ∃ e, parseBlob data = .ret (.error e) := by
  unfold parseBlob
  split
  · exact ⟨_, rfl⟩
  next sizes r hsizes =>
  have hnine := le_of_decodeProgramMemorySizes hsizes
  rw [decodeProgramMemorySizes_of_le hnine] at hsizes
  cases hsizes
  obtain ⟨hro, hrw⟩ := toNat_header data
  rw [hro, hrw]
  split
  · exact ⟨_, rfl⟩
  next roData r hread =>
  obtain ⟨hlen, rfl, -⟩ := Jam.decodeBytesFixedLength_eq_ok hread
  rw [if_neg (not_not.mpr hlen.symm)]
  split
  · exact ⟨_, rfl⟩
  next hzero =>
  rw [not_not] at hzero
  rw [hzero]
  have hempty (r : Reader) : Jam.decodeBytesFixedLength 0 r = .ok ([], r) := rfl
  simp only [hempty]
  split
  · exact ⟨_, rfl⟩
  next codeSize r hcode =>
  have hne : (data.drop 11).drop (leNat (data.take 3)) ≠ [] := by
    intro hnil
    rw [hnil, Jam.decodeFixedWidth_nil (by decide)] at hcode
    cases hcode
  rw [Jam.decodeFixedWidth_take hne] at hcode
  cases hcode
  rw [sliceOf_measured hnine, ret_bind, if_pos]
  · exact ⟨_, rfl⟩
  · intro hsize
    rw [Jam.leUInt64_toNat (l := 4) (by decide) (length_take_le _ _), drop_drop,
      length_drop] at hsize
    rw [drop_drop] at hne
    have hpos := length_pos_of_ne_nil hne
    rw [length_drop] at hpos
    exact h ⟨by omega, hzero, hsize.symm⟩

structure ParsesRight (data : List UInt8) : Prop where
  standard : ∀ p : StandardParts, data = p.encode → parseBlob data = .ret (.ok p.program)
  other : (∀ p : StandardParts, data ≠ p.encode) → ∃ e, parseBlob data = .ret (.error e)

/-- When a program is parsed as it was written. -/
theorem parseBlob_right_iff (data : List UInt8) : (parseBlob data).Returns ∧
      (ParsesRight data ↔ (∀ p : StandardParts, data ≠ p.encode) ∧ ¬ Misread data) := by
  constructor
  · by_cases h : Misread data
    · rw [parseBlob_of_misread h]
      exact returns_ret _
    · obtain ⟨e, he⟩ := parseBlob_of_not_misread h
      rw [he]
      exact returns_ret _
  · constructor
    · intro h
      have hother : ∀ p : StandardParts, data ≠ p.encode := by
        rintro p rfl
        have hok := h.standard p rfl
        rw [parseBlob_encode] at hok
        cases hok
      refine ⟨hother, fun hmis => ?_⟩
      obtain ⟨e, he⟩ := h.other hother
      rw [parseBlob_of_misread hmis] at he
      cases he
    · rintro ⟨hother, hmis⟩
      exact ⟨fun p hp => absurd hp (hother p), fun _ => parseBlob_of_not_misread hmis⟩

def emptyParts : StandardParts :=
  { roData := [], rwData := [], initialHeapPages := 0, stackSize := 0, code := []
    roData_lt := by decide
    rwData_lt := by decide
    initialHeapPages_lt := by decide
    stackSize_lt := by decide
    code_lt := by decide }

theorem empty_program_refused : parseBlob emptyParts.encode = .ret (.error .codeSizeMismatch) ∧
      Misread (List.replicate 11 0 ++ [11, 0, 0, 0]) ∧
      parseBlob (List.replicate 11 0 ++ [11, 0, 0, 0]) =
        .ret (.ok (misreading (List.replicate 11 0 ++ [11, 0, 0, 0]))) := by
  decide

structure CodeParts where
  code : List UInt8
  bitmask : List Bool
  jumpTable : List UInt64
  entrySize : Nat
  bitmask_length : bitmask.length = code.length
  entrySize_le : entrySize ≤ 8
  entry_lt : ∀ entry ∈ jumpTable, entry.toNat < 256 ^ entrySize

namespace CodeParts

def body (p : CodeParts) : List UInt8 :=
  p.jumpTable.flatMap (fun entry => toLE p.entrySize entry.toNat) ++ (p.code ++ packBits p.bitmask)

def encode (p : CodeParts) : List UInt8 :=
  serializeUint64 (UInt64.ofNat p.jumpTable.length) ++ (toLE 1 p.entrySize ++
    (serializeUint64 (UInt64.ofNat p.code.length) ++ p.body))

def lengths (p : CodeParts) : CodeAndJumpTableLengths :=
  { jumpTableEntryCount := UInt64.ofNat p.jumpTable.length
    jumpTableEntrySize := UInt64.ofNat p.entrySize
    codeLength := UInt64.ofNat p.code.length }

def deblobbed (p : CodeParts) : Deblobbed :=
  { code := p.code, bitmask := p.bitmask, jumpTable := p.jumpTable }

theorem decode_lengths (p : CodeParts) : decodeLengths p.encode = .ok (p.lengths, p.body) := by
  have hsize : p.entrySize < 256 ^ 1 := Nat.lt_of_le_of_lt p.entrySize_le (by decide)
  simp only [decodeLengths, decodeField, encode, Jam.decodeUint_serializeUint64,
    Jam.decodeFixedWidth_toLE hsize, bind, Except.bind]
  rfl

end CodeParts

theorem decodeJumpTable_flatMap (rest : List UInt8) (h : ∀ entry ∈ table, entry.toNat < 256 ^ z) :
    decodeJumpTable z table.length
      (table.flatMap (fun entry => toLE z entry.toNat) ++ rest) = .ok (table, rest) := by
  induction table with
  | nil => rfl
  | cons entry table ih =>
    have hentry := h entry mem_cons_self
    have htable := ih fun e he => h e (mem_cons_of_mem _ he)
    simp only [length_cons, decodeJumpTable, flatMap_cons, append_assoc,
      Jam.decodeFixedWidth_toLE hentry, bind, Except.bind, htable, UInt64.ofNat_toNat]

theorem deblobCode_append {code : List UInt8} {mask : List Bool} (table : List UInt64)
    (hmask : mask.length = code.length) (hcode : code.length ≤ Jam.maxUint32) :
    deblobCode code.length table (code ++ packBits mask) =
      .ret (.ok { code, bitmask := mask, jumpTable := table }) := by
  have halloc : 1 * code.length ≤ maxAlloc :=
    Nat.le_trans (Nat.le_of_eq (Nat.one_mul _)) (Nat.le_trans hcode (by decide))
  obtain ⟨pad, -, hbits⟩ := Jam.flatMap_octetBits_packBits mask
  have hpacked : (packBits mask).length ≤ Jam.maxUint32 := by
    rw [packBits, Jam.length_packOctets]
    omega
  simp only [deblobCode, makeCheck_of_le halloc, ret_bind,
    Jam.decodeBytesFixedLength_append hcode, Jam.decodeBitsFixedLength_all]
  rw [if_neg (by omega), hbits, ← hmask]
  simp only
  rw [sliceOf_of_le (Nat.zero_le _) (by rw [length_append]; omega)]
  simp

theorem deblob_encode {p : CodeParts} (hcode : p.code.length ≤ Jam.maxUint32)
    (htable : 8 * p.jumpTable.length ≤ maxAlloc) :
    deblob p.encode = .ret (.ok p.deblobbed) := by
  have hmax : Jam.maxUint32 < 2 ^ 64 := by decide
  have halloc : maxAlloc < 2 ^ 64 := by decide
  have hc : p.lengths.codeLength.toNat = p.code.length := by
    rw [CodeParts.lengths, UInt64.toNat_ofNat']
    omega
  have hn : p.lengths.jumpTableEntryCount.toNat = p.jumpTable.length := by
    rw [CodeParts.lengths, UInt64.toNat_ofNat']
    omega
  have hz : p.lengths.jumpTableEntrySize.toNat = p.entrySize := by
    have hle := p.entrySize_le
    rw [CodeParts.lengths, UInt64.toNat_ofNat']
    omega
  simp only [deblob, p.decode_lengths, hn, hz, hc, makeCheck_of_le htable, ret_bind,
    CodeParts.body, decodeJumpTable_flatMap _ p.entry_lt]
  exact deblobCode_append _ p.bitmask_length hcode

theorem length_of_decodeJumpTable
    (h : decodeJumpTable z n r = .ok (table, r')) : table.length = n := by
  induction n generalizing r table with
  | zero =>
    cases h
    rfl
  | succ n ih =>
    simp only [decodeJumpTable, Strawberry.bind_eq_ok] at h
    obtain ⟨⟨entry, r₁⟩, -, ⟨entries, r₂⟩, hentries, h⟩ := h
    cases h
    rw [length_cons, ih hentries]

structure AsDeclared (sizes : CodeAndJumpTableLengths) (d : Deblobbed) : Prop where
  code : d.code.length = sizes.codeLength.toNat
  bitmask : d.bitmask.length = sizes.codeLength.toNat
  jumpTable : d.jumpTable.length = sizes.jumpTableEntryCount.toNat
  allocated : 8 * sizes.jumpTableEntryCount.toNat ≤ maxAlloc

theorem deblob_eq_ok {d : Deblobbed} (h : deblob blob = .ret (.ok d)) :
    ∃ sizes rest, decodeLengths blob = .ok (sizes, rest) ∧ AsDeclared sizes d := by
  unfold deblob at h
  split at h
  · cases h
  · next sizes r hsizes =>
    have halloc := (makeCheck_bind_returns.mp ⟨_, h⟩).1
    rw [bind_eq_ret] at h
    obtain ⟨_, -, h⟩ := h
    split at h
    · cases h
    · next table r' htable =>
      obtain ⟨rfl, hcode, hmatched⟩ := deblobCode_eq_ok h
      exact ⟨sizes, r, hsizes, hcode, hmatched.1.trans hcode, length_of_decodeJumpTable htable,
        halloc⟩

def FailsOrMatches (blob : List UInt8) : Prop :=
  (∃ e, deblob blob = .ret (.error e)) ∨
    ∃ sizes rest d, decodeLengths blob = .ok (sizes, rest) ∧ deblob blob = .ret (.ok d) ∧
      d.code.length = sizes.codeLength.toNat ∧ d.bitmask.length = sizes.codeLength.toNat

theorem failsOrMatches_iff_returns : FailsOrMatches blob ↔ (deblob blob).Returns := by
  constructor
  · rintro (⟨e, he⟩ | ⟨_, _, d, -, hd, -⟩)
    · exact ⟨_, he⟩
    · exact ⟨_, hd⟩
  · rintro ⟨answer, hanswer⟩
    cases answer with
    | error e => exact .inl ⟨e, hanswer⟩
    | ok d =>
      obtain ⟨sizes, rest, hsizes, hdeclared⟩ := deblob_eq_ok hanswer
      exact .inr ⟨sizes, rest, d, hsizes, hanswer, hdeclared.code, hdeclared.bitmask⟩

/-- When the code is parsed as it was written. -/
theorem deblob_right_iff (p : CodeParts) (blob : List UInt8) :
    (deblob p.encode = .ret (.ok p.deblobbed) ↔
      p.code.length ≤ Jam.maxUint32 ∧ 8 * p.jumpTable.length ≤ maxAlloc) ∧
    (FailsOrMatches blob ↔ BlobSafe blob) := by
  refine ⟨⟨fun h => ?_, fun ⟨hcode, htable⟩ => deblob_encode hcode htable⟩, ?_⟩
  · obtain ⟨sizes, rest, -, hdeclared⟩ := deblob_eq_ok h
    refine ⟨(deblob_matched h).2, ?_⟩
    have hlen : p.jumpTable.length = _ := hdeclared.jumpTable
    rw [hlen]
    exact hdeclared.allocated
  · rw [failsOrMatches_iff_returns, deblob_returns_iff]

theorem deblob_without_mask : decodeLengths [0, 0, 1, 0] = .ok (⟨0, 0, 1⟩, [0]) ∧
      deblob [0, 0, 1, 0] = .crash .sliceOutOfRange := by
  decide

end Strawberry.Polkavm
