import Strawberry.Codec.Naturals

/-!
# Bit sequences

`encodeBits` writes the number of octets and the octets.  The rounding of the number looks at the
octets where it should look at the bits.
-/

namespace Strawberry.Jam

open List

def setBit (bb : List UInt8) (i : Nat) : Outcome (List UInt8) := do
  let b ← indexAt bb (i / 8)
  return bb.set (i / 8) (b ||| 1 <<< UInt8.ofNat (i % 8))

def setBits : List Bool → Nat → List UInt8 → Outcome (List UInt8)
  | [], _, bb => .ret bb
  | false :: bits, i, bb => setBits bits (i + 1) bb
  | true :: bits, i, bb => do
    let bb ← setBit bb i
    setBits bits (i + 1) bb

def bitsLength (n : Nat) : Nat := if 0 < n ∧ n / 8 % 8 = 0 then n / 8 + 1 else n / 8

def encodeBits (bits : List Bool) : Outcome (List UInt8) := do
  let bb ← setBits bits 0 (.replicate (bitsLength bits.length) 0)
  return serializeUint64 (UInt64.ofNat (bitsLength bits.length)) ++ bb

def decodeBits (r : Reader) : Except JamError (List Bool × Reader) := do
  let (length, r) ← decodeUint r
  decodeBitsFixedLength length.toNat r

theorem getElem?_flatMap_octetBits (bb : List UInt8) (p : Nat) :
    (bb.flatMap octetBits)[p]? = bb[p / 8]?.map fun b => b.toNat.testBit (p % 8) := by
  induction bb generalizing p with
  | nil => simp
  | cons b bb ih =>
    rw [flatMap_cons]
    by_cases hp : p < 8
    · rw [List.getElem?_append_left (by rw [octetBits_length]; exact hp), Nat.div_eq_of_lt hp,
        Nat.mod_eq_of_lt hp]
      simp [octetBits, hp]
    · rw [List.getElem?_append_right (by rw [octetBits_length]; omega), octetBits_length, ih,
        show p / 8 = (p - 8) / 8 + 1 by omega, show p % 8 = (p - 8) % 8 by omega]
      rfl

theorem testBit_or_shift (b : UInt8) {k j : Nat} (hk : k < 8) :
    (b ||| 1 <<< UInt8.ofNat k).toNat.testBit j = (b.toNat.testBit j || decide (k = j)) := by
  have hpow : 2 ^ k < 2 ^ 8 := Nat.pow_lt_pow_right (by decide) hk
  have hshift : ((1 : UInt8) <<< UInt8.ofNat k).toNat = 2 ^ k := by
    rw [UInt8.toNat_shiftLeft, UInt8.toNat_ofNat', Nat.mod_eq_of_lt (show k < 2 ^ 8 by omega),
      Nat.mod_eq_of_lt hk, UInt8.toNat_one, Nat.one_shiftLeft, Nat.mod_eq_of_lt hpow]
  rw [UInt8.toNat_or, hshift, Nat.testBit_or, Nat.testBit_two_pow]

theorem setBit_eq {bb : List UInt8} {i : Nat} (h : i < 8 * bb.length) :
    ∃ bb', setBit bb i = .ret bb' ∧ bb'.length = bb.length ∧
      bb'.flatMap octetBits = (bb.flatMap octetBits).set i true := by
  have hi : i / 8 < bb.length := by omega
  refine ⟨_, by rw [setBit, indexAt_of_lt hi, ret_bind]; rfl, length_set, ?_⟩
  apply ext_getElem?
  intro p
  rw [getElem?_flatMap_octetBits, List.getElem?_set, List.getElem?_set,
    getElem?_flatMap_octetBits, flatMap_octetBits_length, if_pos h, if_pos hi]
  by_cases hp : i / 8 = p / 8
  · rw [if_pos hp, Option.map_some, testBit_or_shift _ (Nat.mod_lt _ (by decide)), ← hp,
      List.getElem?_eq_getElem hi, Option.map_some]
    by_cases hip : i = p
    · simp [hip]
    · simp [hip, show i % 8 ≠ p % 8 by omega]
  · rw [if_neg hp, if_neg (by rintro rfl; exact hp rfl)]

theorem setBits_eq {bits front : List Bool} {bb : List UInt8} {zeros : Nat}
    (hbb : bb.flatMap octetBits = front ++ .replicate (bits.length + zeros) false) :
    ∃ bb', setBits bits front.length bb = .ret bb' ∧ bb'.length = bb.length ∧
      bb'.flatMap octetBits = front ++ bits ++ .replicate zeros false := by
  induction bits generalizing front bb with
  | nil => exact ⟨bb, rfl, rfl, by simpa using hbb⟩
  | cons b bits ih =>
    rw [length_cons, Nat.add_right_comm, replicate_succ] at hbb
    cases b with
    | false =>
      obtain ⟨bb', hrun, hlength, hbits⟩ := @ih (front ++ [false]) bb (by simpa using hbb)
      rw [length_append] at hrun
      exact ⟨bb', hrun, hlength, by simpa using hbits⟩
    | true =>
      have hroom : front.length < 8 * bb.length := by
        rw [← flatMap_octetBits_length, hbb]
        simp
      obtain ⟨bb₁, hset, hlength₁, hbits₁⟩ := setBit_eq hroom
      rw [hbb, set_append_right _ _ (Nat.le_refl _), Nat.sub_self, set_cons_zero] at hbits₁
      obtain ⟨bb', hrun, hlength, hbits⟩ := @ih (front ++ [true]) bb₁ (by simpa using hbits₁)
      rw [length_append] at hrun
      refine ⟨bb', ?_, hlength.trans hlength₁, by simpa using hbits⟩
      rw [setBits, hset, ret_bind]
      exact hrun

theorem length_of_setBits {bits : List Bool} {i : Nat} {bb bb' : List UInt8}
    (h : setBits bits i bb = .ret bb') : bb'.length = bb.length := by
  induction bits generalizing i bb with
  | nil =>
    cases h
    rfl
  | cons b bits ih =>
    cases b with
    | false => exact ih h
    | true =>
      obtain ⟨bb₁, hset, hrest⟩ := bind_eq_ret.mp h
      obtain ⟨b, -, hb⟩ := bind_eq_ret.mp hset
      cases hb
      rw [ih hrest, length_set]

def padded (bits : List Bool) : List Bool :=
  bits ++ .replicate (8 * ((bits.length + 7) / 8) - bits.length) false

structure BitsWritten (bits : List Bool) (bytes : List UInt8) : Prop where
  encoded : encodeBits bits =
    .ret (serializeUint64 (UInt64.ofNat ((bits.length + 7) / 8)) ++ bytes)
  length : bytes.length = (bits.length + 7) / 8
  stored : ∀ i < bits.length, bytes[i / 8]?.map (fun b => b.toNat.testBit (i % 8)) = bits[i]?
  decoded : decodeBits (serializeUint64 (UInt64.ofNat ((bits.length + 7) / 8)) ++ bytes) =
    .ok (padded bits, [])

theorem bitsLength_eq_iff (n : Nat) :
    bitsLength n = (n + 7) / 8 ↔ n = 0 ∨ (n % 8 = 0 ↔ n / 8 % 8 ≠ 0) := by
  unfold bitsLength
  split <;> omega

theorem decodeBits_append {n : Nat} {bytes : List UInt8} (hn : n < 2 ^ 64)
    (hlength : bytes.length = n) : decodeBits (serializeUint64 (UInt64.ofNat n) ++ bytes) =
      if maxUint32 < n then .error .exceedingByteArrayLimit
      else .ok (bytes.flatMap octetBits, []) := by
  rw [decodeBits, decodeUint_serializeUint64]
  change decodeBitsFixedLength (UInt64.ofNat n).toNat bytes = _
  rw [UInt64.toNat_ofNat', Nat.mod_eq_of_lt hn, ← hlength, decodeBitsFixedLength_all]

/-- Which bit sequences are written and read back. -/
theorem bit_sequences_iff (bits : List Bool) (hlen : bits.length < 2 ^ 63) :
    (∃ bytes, BitsWritten bits bytes) ↔
      (bits.length = 0 ∨ (bits.length % 8 = 0 ↔ bits.length / 8 % 8 ≠ 0)) ∧
        bits.length ≤ 8 * maxUint32 := by
  rw [← bitsLength_eq_iff]
  constructor
  · rintro ⟨bytes, h⟩
    obtain ⟨bb, hbb, hret⟩ := bind_eq_ret.mp h.encoded
    have hsame : serializeUint64 (UInt64.ofNat (bitsLength bits.length)) ++ bb =
        serializeUint64 (UInt64.ofNat ((bits.length + 7) / 8)) ++ bytes := Outcome.ret.inj hret
    have hdecode := decodeUint_serializeUint64 (UInt64.ofNat (bitsLength bits.length)) bb
    rw [hsame, decodeUint_serializeUint64] at hdecode
    obtain ⟨-, rfl⟩ := Prod.mk.inj (Except.ok.inj hdecode)
    refine ⟨?_, ?_⟩
    · rw [← h.length, length_of_setBits hbb, length_replicate]
    · have hdecoded := h.decoded
      rw [decodeBits_append (by omega) h.length] at hdecoded
      split at hdecoded
      · cases hdecoded
      · omega
  · rintro ⟨hlength, hmax⟩
    have hzeros : (List.replicate (bitsLength bits.length) (0 : UInt8)).flatMap octetBits =
        [] ++ .replicate (bits.length + (8 * ((bits.length + 7) / 8) - bits.length)) false := by
      rw [hlength, show bits.length + (8 * ((bits.length + 7) / 8) - bits.length) =
        (bits.length + 7) / 8 * 8 by omega, flatMap_replicate, nil_append,
        show octetBits 0 = .replicate 8 false from rfl, flatten_replicate_replicate]
    obtain ⟨bytes, hrun, hbytes, hbits⟩ := setBits_eq hzeros
    rw [length_replicate, hlength] at hbytes
    refine ⟨bytes, ?_, hbytes, ?_, ?_⟩
    · rw [encodeBits, show setBits bits 0 _ = _ from hrun, ret_bind, hlength]
      rfl
    · intro i hi
      rw [← getElem?_flatMap_octetBits, hbits, nil_append, List.getElem?_append_left hi]
    · rw [decodeBits_append (by omega) hbytes, if_neg (by omega), hbits]
      rfl

theorem bit_sequence_of_one : ∃ bytes, BitsWritten [true] bytes :=
  (bit_sequences_iff [true] (by decide)).mpr ⟨by decide, by decide⟩

theorem ninth_bit_out_of_range :
    encodeBits (.replicate 9 true) = .crash .indexOutOfRange := by
  decide

end Strawberry.Jam
