import Strawberry.Lib.Outcome

/-!
# The codec

Naturals, byte strings and bit sequences. A single `Read` may return fewer octets than asked for,
and the decoder does not look.
-/

namespace Strawberry.Jam

inductive JamError where
  | eof
  | unexpectedEof
  | readingByte (cause : JamError)
  | readingBytes (cause : JamError)
  | decodingStructField (field : String) (cause : JamError)
  | encodingStructField (field : String) (cause : JamError)
  | exceedingByteArrayLimit
  | unsupportedEnumTypeValue
  | unknownEnumTypeValue
  | invalidPointer
  | decodingBool
  | unsupportedType
  | decodingUint (cause : JamError)
  | decodingMapLength (cause : JamError)
  | decodingMapKey (cause : JamError)
  | decodingMapValue (cause : JamError)
  | notCanonical
  deriving DecidableEq

abbrev Reader := List UInt8

def leNat : List UInt8 → Nat
  | [] => 0
  | b :: bs => b.toNat + 256 * leNat bs

def toLE : Nat → Nat → List UInt8
  | 0, _ => []
  | l + 1, x => UInt8.ofNat x :: toLE l (x / 256)

def leUInt64 (bytes : List UInt8) : UInt64 := UInt64.ofNat (leNat bytes)

theorem length_toLE (l x : Nat) : (toLE l x).length = l := by
  induction l generalizing x with
  | zero => rfl
  | succ l ih => simp [toLE, ih]

theorem leNat_toLE (l x : Nat) : leNat (toLE l x) = x % 256 ^ l := by
  induction l generalizing x with
  | zero => simp [toLE, leNat, Nat.mod_one]
  | succ l ih =>
    rw [toLE, leNat, ih, Nat.pow_succ, Nat.mul_comm (256 ^ l), Nat.mod_mul]
    simp

def read (n : Nat) (r : Reader) : Except JamError (List UInt8 × Reader) :=
  if n = 0 then .ok ([], r)
  else if r = [] then .error .eof
  else .ok (r.take n ++ List.replicate (n - r.length) 0, r.drop n)

def decodeFixedWidth (length : Nat) (r : Reader) : Except JamError (UInt64 × Reader) :=
  match read length r with
  | .error e => .error (.readingByte e)
  | .ok (buf, r) => .ok (leUInt64 buf, r)

def len8 (x : UInt8) : Nat := if x = 0 then 0 else x.toNat.log2 + 1

def decodeUint (r : Reader) : Except JamError (UInt64 × Reader) :=
  match read 1 r with
  | .error e => .error (.readingByte e)
  | .ok (octet, r) =>
    let lead := octet.headD 0
    let l := 8 - len8 (~~~lead)
    match read l r with
    | .error e => .error (.readingBytes e)
    | .ok (bytes, r) =>
      if l = 8 then .ok (leUInt64 bytes, r)
      else
        let high := UInt64.ofNat (lead.toNat % 2 ^ (8 - l)) <<< UInt64.ofNat (8 * l)
        .ok (leUInt64 bytes ||| high, r)

def maxUint32 : Nat := 2 ^ 32 - 1

def decodeBytesFixedLength (length : Nat) (r : Reader) : Except JamError (List UInt8 × Reader) :=
  if maxUint32 < length then .error .exceedingByteArrayLimit
  else read length r

def octetBits (b : UInt8) : List Bool := (List.range 8).map b.toNat.testBit

def decodeBitsFixedLength (bytesLength : Nat) (r : Reader) : Except JamError (List Bool × Reader) :=
  if maxUint32 < bytesLength then .error .exceedingByteArrayLimit
  else
    match read bytesLength r with
    | .error e => .error e
    | .ok (bb, r) => .ok (bb.flatMap octetBits, r)

def uint64Length (x : UInt64) : Nat :=
  ((List.range 8).find? fun l => x.toNat < 2 ^ (7 * (l + 1))).getD 8

def serializeUint64 (x : UInt64) : List UInt8 :=
  let l := uint64Length x
  let lead := if l < 8 then UInt8.ofNat (256 - 2 ^ (8 - l) + x.toNat / 2 ^ (8 * l) % 256) else 255
  lead :: toLE l x.toNat

def encodeBytes (bytes : List UInt8) : List UInt8 :=
  serializeUint64 (UInt64.ofNat bytes.length) ++ bytes

def encodeSlice (encode : α → List UInt8) (xs : List α) : List UInt8 :=
  serializeUint64 (UInt64.ofNat xs.length) ++ xs.flatMap encode

variable {n : Nat} {r : Reader}

theorem read_length {r' : Reader} {buf : List UInt8} (h : read n r = .ok (buf, r')) :
    buf.length = n := by
  unfold read at h
  split at h
  · next hn =>
    cases h
    simp [hn]
  · split at h
    · cases h
    · cases h
      simp only [List.length_append, List.length_take, List.length_replicate]
      omega

theorem read_all (r : Reader) : read r.length r = .ok (r, []) := by
  cases r with
  | nil => rfl
  | cons b bs => simp [read]

theorem read_ok (h : n = 0 ∨ r ≠ []) :
    ∃ buf, read n r = .ok (buf, r.drop n) := by
  unfold read
  split
  · next hn => exact ⟨[], by rw [hn, List.drop_zero]⟩
  · next hn =>
    rw [if_neg (h.resolve_left hn)]
    exact ⟨_, rfl⟩

theorem decodeFixedWidth_ok (h : n = 0 ∨ r ≠ []) :
    ∃ x, decodeFixedWidth n r = .ok (x, r.drop n) := by
  obtain ⟨buf, hbuf⟩ := read_ok h
  exact ⟨leUInt64 buf, by rw [decodeFixedWidth, hbuf]⟩

theorem decodeFixedWidth_nil (hn : n ≠ 0) :
    decodeFixedWidth n [] = .error (.readingByte .eof) := by
  simp [decodeFixedWidth, read, hn]

theorem decodeBytesFixedLength_ok (hn : n ≤ maxUint32)
    (hr : n = 0 ∨ r ≠ []) :
    ∃ buf, decodeBytesFixedLength n r = .ok (buf, r.drop n) ∧ buf.length = n := by
  obtain ⟨buf, hbuf⟩ := read_ok hr
  refine ⟨buf, ?_, read_length hbuf⟩
  rw [decodeBytesFixedLength, if_neg (by omega), hbuf]

theorem decodeBytesFixedLength_error
    (h : maxUint32 < n ∨ (n ≠ 0 ∧ r = [])) : ∃ e, decodeBytesFixedLength n r = .error e := by
  unfold decodeBytesFixedLength
  split
  · exact ⟨_, rfl⟩
  · next hle =>
    obtain ⟨hn, rfl⟩ := h.resolve_left hle
    exact ⟨.eof, by simp [read, hn]⟩

theorem decodeBitsFixedLength_all (r : Reader) : decodeBitsFixedLength r.length r =
      if maxUint32 < r.length then .error .exceedingByteArrayLimit
      else .ok (r.flatMap octetBits, []) := by
  rw [decodeBitsFixedLength, read_all]

theorem octetBits_length (b : UInt8) : (octetBits b).length = 8 := by
  simp [octetBits]

theorem flatMap_octetBits_length (bs : List UInt8) :
    (bs.flatMap octetBits).length = 8 * bs.length := by
  induction bs with
  | nil => rfl
  | cons b bs ih =>
    rw [List.flatMap_cons, List.length_append, octetBits_length, ih, List.length_cons]
    omega

end Strawberry.Jam
