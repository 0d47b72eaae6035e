import Strawberry.Codec.Naturals
import Strawberry.Common
import Strawberry.Lib.Decoders
import Strawberry.Lib.Entries

/-!
# Encoding and decoding by types

`marshal` and `unmarshal`, by recursion over the type. A `Strictness` says which checks the
decoder makes; the code's makes none of them.
-/

namespace Strawberry.Jam

inductive Width where
  | w8
  | w16
  | w32
  | w64
  deriving DecidableEq

namespace Width

def octets : Width → Nat
  | w8 => 1
  | w16 => 2
  | w32 => 4
  | w64 => 8

@[reducible] def Val : Width → Type
  | w8 => UInt8
  | w16 => UInt16
  | w32 => UInt32
  | w64 => UInt64

def toNat : (w : Width) → w.Val → Nat
  | w8 => UInt8.toNat
  | w16 => UInt16.toNat
  | w32 => UInt32.toNat
  | w64 => UInt64.toNat

def wrap : (w : Width) → Nat → w.Val
  | w8 => UInt8.ofNat
  | w16 => UInt16.ofNat
  | w32 => UInt32.ofNat
  | w64 => UInt64.ofNat

theorem wrap_toNat (w : Width) (x : w.Val) : w.wrap (w.toNat x) = x := by
  cases w with
  | w8 => exact UInt8.ofNat_toNat
  | w16 => exact UInt16.ofNat_toNat
  | w32 => exact UInt32.ofNat_toNat
  | w64 => exact UInt64.ofNat_toNat

theorem toNat_lt (w : Width) (x : w.Val) : w.toNat x < 256 ^ w.octets := by
  cases w with
  | w8 => exact UInt8.toNat_lt x
  | w16 => exact UInt16.toNat_lt x
  | w32 => exact UInt32.toNat_lt x
  | w64 => exact UInt64.toNat_lt x

theorem toNat_wrap_le (w : Width) (n : Nat) : w.toNat (w.wrap n) ≤ n := by
  cases w with
  | w8 | w16 | w32 | w64 => exact Nat.mod_le n _

theorem toNat_wrap (w : Width) {n : Nat} (h : n < 256 ^ w.octets) : w.toNat (w.wrap n) = n := by
  cases w with
  | w8 => exact UInt8.toNat_ofNat_of_lt' h
  | w16 => exact UInt16.toNat_ofNat_of_lt' h
  | w32 => exact UInt32.toNat_ofNat_of_lt' h
  | w64 => exact UInt64.toNat_ofNat_of_lt' h

instance (w : Width) : DecidableEq w.Val :=
  match w with
  | w8 => inferInstanceAs (DecidableEq UInt8)
  | w16 => inferInstanceAs (DecidableEq UInt16)
  | w32 => inferInstanceAs (DecidableEq UInt32)
  | w64 => inferInstanceAs (DecidableEq UInt64)

end Width

inductive Prim where
  | bool
  | fixed (w : Width)
  | uint
  | int
  deriving DecidableEq

namespace Prim

@[reducible] def Val : Prim → Type
  | bool => Bool
  | fixed w => w.Val
  | uint => UInt64
  | int => Int64

instance (p : Prim) : DecidableEq p.Val :=
  match p with
  | bool => inferInstanceAs (DecidableEq Bool)
  | fixed w => inferInstanceAs (DecidableEq w.Val)
  | uint => inferInstanceAs (DecidableEq UInt64)
  | int => inferInstanceAs (DecidableEq Int64)

def zero : (p : Prim) → p.Val
  | bool => false
  | fixed w => w.wrap 0
  | uint => (0 : UInt64)
  | int => (0 : Int64)

def rank : (p : Prim) → p.Val → Nat
  | bool => Bool.toNat
  | fixed w => w.toNat
  | uint => UInt64.toNat
  | int => fun x => (Int64.toInt x + 2 ^ 63).toNat

def unrank : (p : Prim) → Nat → p.Val
  | bool => fun n => decide (n ≠ 0)
  | fixed w => w.wrap
  | uint => UInt64.ofNat
  | int => fun n => Int64.ofInt (n - 2 ^ 63)

theorem unrank_rank (p : Prim) : Function.LeftInverse p.unrank p.rank := by
  intro x
  cases p with
  | bool => cases x <;> rfl
  | fixed w => exact w.wrap_toNat x
  | uint => exact UInt64.ofNat_toNat
  | int =>
    have hle := Int64.le_toInt x
    change Int64.ofInt ((Int64.toInt x + 2 ^ 63).toNat - 2 ^ 63) = x
    rw [Int.toNat_of_nonneg (by omega), Int.add_sub_cancel]
    exact Int64.ofInt_toInt x

end Prim

inductive KeyTy where
  | prim (p : Prim)
  | byteArray (n : Nat)

mutual

inductive Ty where
  | prim (p : Prim)
  | publicKey
  | bytes
  | pointer (t : Ty)
  | array (n : Nat) (t : Ty)
  | slice (t : Ty)
  | map (key : KeyTy) (t : Ty)
  | enum (variants : Variants)
  | struct (fields : Fields)

inductive Variants where
  | nil (unknown : JamError)
  | bare (index : UInt8) (rest : Variants)
  | holding (index : UInt8) (t : Ty) (rest : Variants)

inductive Fields where
  | nil
  | field (name : String) (t : Ty) (rest : Fields)
  | tagged (name : String) (length : Nat) (t : Ty) (rest : Fields)
  | skipped (name : String) (t : Ty) (rest : Fields)

end

namespace KeyTy

@[reducible] def Val : KeyTy → Type
  | prim p => p.Val
  | byteArray n => Vector UInt8 n

instance (key : KeyTy) : DecidableEq key.Val :=
  match key with
  | prim p => inferInstanceAs (DecidableEq p.Val)
  | byteArray n => inferInstanceAs (DecidableEq (Vector UInt8 n))

def rank : (key : KeyTy) → key.Val → Nat
  | prim p => p.rank
  | byteArray _ => fun v => leNat v.toList.reverse

def unrank : (key : KeyTy) → Nat → key.Val
  | prim p => p.unrank
  | byteArray n => fun x => toArray n (toLE n x).reverse

theorem unrank_rank (key : KeyTy) : Function.LeftInverse key.unrank key.rank := by
  cases key with
  | prim p => exact p.unrank_rank
  | byteArray n =>
    intro v
    have hlen : v.toList.reverse.length = n := by rw [List.length_reverse, Vector.length_toList]
    have hdigits : toLE n (leNat v.toList.reverse) = v.toList.reverse := by
      have h := toLE_leNat v.toList.reverse
      rwa [hlen] at h
    change toArray n (toLE n (leNat v.toList.reverse)).reverse = v
    rw [hdigits, List.reverse_reverse]
    exact toArray_toList v

end KeyTy

mutual

@[reducible] def Ty.Val : Ty → Type
  | .prim p => p.Val
  | .publicKey => Ed25519Key
  | .bytes => List UInt8
  | .pointer t => Option t.Val
  | .array n t => Vector t.Val n
  | .slice t => List t.Val
  | .map key t => GoMap key.Val t.Val
  | .enum variants => variants.Val
  | .struct fields => fields.Val

@[reducible] def Variants.Val : Variants → Type
  | .nil _ => Unit
  | .bare _ rest => Unit ⊕ rest.Val
  | .holding _ t rest => t.Val ⊕ rest.Val

@[reducible] def Fields.Val : Fields → Type
  | .nil => Unit
  | .field _ t rest => t.Val × rest.Val
  | .tagged _ _ t rest => t.Val × rest.Val
  | .skipped _ t rest => t.Val × rest.Val

end

def Ty.isEnum : Ty → Bool
  | .enum _ => true
  | _ => false

def Ty.isPointer : Ty → Bool
  | .pointer _ => true
  | _ => false

mutual

def Ty.zero : (t : Ty) → t.Val
  | .prim p => p.zero
  | .publicKey => .replicate 32 0
  | .bytes => []
  | .pointer _ => none
  | .array n t => .replicate n t.zero
  | .slice _ => []
  | .map _ _ => ∅
  | .enum variants => variants.zero
  | .struct fields => fields.zero

def Variants.zero : (variants : Variants) → variants.Val
  | .nil _ => ()
  | .bare _ rest => .inr rest.zero
  | .holding _ _ rest => .inr rest.zero

def Fields.zero : (fields : Fields) → fields.Val
  | .nil => ()
  | .field _ t rest => (t.zero, rest.zero)
  | .tagged _ _ t rest => (t.zero, rest.zero)
  | .skipped _ t rest => (t.zero, rest.zero)

end

def encodeLength (l : Nat) : List UInt8 := serializeUint64 (UInt64.ofNat l)

def marshalPrim : (p : Prim) → p.Val → List UInt8
  | .bool, b => [if b then 1 else 0]
  | .fixed w, x => toLE w.octets (w.toNat x)
  | .uint, x => serializeUint64 x
  | .int, x => serializeUint64 (Int64.toUInt64 x)

def marshalKey : (key : KeyTy) → key.Val → List UInt8
  | .prim p, k => marshalPrim p k
  | .byteArray _, k => k.toList

def sortedEntries {α : Type} (key : KeyTy) (m : GoMap key.Val α) : List (key.Val × α) :=
  m.entriesAt (GoMap.Traversal.sorted key.rank key.unrank key.unrank_rank m.keys).keys

def encodeWidth (length : Nat) : (t : Ty) → t.Val → Call JamError (List UInt8)
  | .prim (.fixed w), x => .ok (toLE length (w.toNat x))
  | .prim .uint, x => .ok (toLE length (UInt64.toNat x))
  | _, _ => .fail .unsupportedType

def encodeFixedWidth (length : Nat) : (t : Ty) → t.Val → Call JamError (List UInt8)
  | .pointer _, none => .ok [0]
  | .pointer t, some v => (1 :: ·) <$> encodeWidth length t v
  | t, v => encodeWidth length t v

def inField {α : Type} (wrap : JamError → JamError) (x : Call JamError α) : Call JamError α :=
  match x with
  | .ret (.error e) => .ret (.error (wrap e))
  | x => x

mutual

def marshal : (t : Ty) → t.Val → Call JamError (List UInt8)
  | .prim p, v => .ok (marshalPrim p v)
  | .publicKey, v => .ok v.toList
  | .bytes, v => .ok (encodeBytes v)
  | .pointer t, none => if t.isEnum then .crash .nilDereference else .ok [0]
  | .pointer t, some v => if t.isEnum then marshal t v else (1 :: ·) <$> marshal t v
  | .array _ t, v => List.flatten <$> v.toList.mapM (marshal t)
  | .slice t, v => do
    let parts ← v.mapM (marshal t)
    return encodeLength v.length ++ parts.flatten
  | .map key t, v => do
    let parts ← (sortedEntries key v).mapM fun e =>
      (marshalKey key e.1 ++ ·) <$> marshal t e.2
    return encodeLength v.len ++ parts.flatten
  | .enum variants, v => encodeEnumType variants v
  | .struct fields, v => encodeStruct fields v

def encodeEnumType : (variants : Variants) → variants.Val → Call JamError (List UInt8)
  | .nil _, _ => .fail .unsupportedEnumTypeValue
  | .bare index _, .inl _ => .ok [index]
  | .bare _ rest, .inr v => encodeEnumType rest v
  | .holding index t _, .inl v => (index :: ·) <$> marshal t v
  | .holding _ _ rest, .inr v => encodeEnumType rest v

def encodeStruct : (fields : Fields) → fields.Val → Call JamError (List UInt8)
  | .nil, _ => .ok []
  | .field name t rest, v => do
    let head ← inField (.encodingStructField name) (marshal t v.1)
    let tail ← encodeStruct rest v.2
    return head ++ tail
  | .tagged name length t rest, v => do
    let head ← inField (.encodingStructField name) (encodeFixedWidth length t v.1)
    let tail ← encodeStruct rest v.2
    return head ++ tail
  | .skipped _ _ rest, v => encodeStruct rest v.2

end

structure Strictness where
  fullReads : Bool
  shortestNaturals : Bool
  increasingKeys : Bool

namespace Strictness

def code : Strictness := ⟨false, false, false⟩

def full : Strictness := ⟨true, false, false⟩

def canonical : Strictness := ⟨true, true, true⟩

end Strictness

abbrev Decoder (α : Type) := Strawberry.Decoder UInt8 JamError α

open Strawberry.Decoder (require fail many)

def readOctet : Decoder UInt8
  | [] => .error .eof
  | b :: r => .ok (b, r)

def readWith (s : Strictness) (n : Nat) : Decoder (List UInt8) := fun r =>
  if s.fullReads && !r.isEmpty && r.length < n then .error .unexpectedEof else read n r

def shortUint : Reader → Bool
  | [] => false
  | lead :: r => !r.isEmpty && r.length < octetsAfter lead

def decodeUintWith (s : Strictness) : Decoder UInt64 := fun r =>
  if s.fullReads && shortUint r then .error .unexpectedEof
  else
    match decodeUint r with
    | .error e => .error e
    | .ok (x, r') =>
      if s.shortestNaturals && r ≠ serializeUint64 x ++ r' then .error .notCanonical
      else .ok (x, r')

def decodeLength (s : Strictness) : Decoder Nat := do
  let l ← (decodeUintWith s).mapError .decodingUint
  return l.toNat

def decodeBytes (s : Strictness) : Decoder (List UInt8) := do
  let length ← decodeLength s
  require (length ≤ maxUint32) .exceedingByteArrayLimit
  readWith s length

def decodeEd25519PublicKey : Decoder Ed25519Key := do
  let key ← readWith .full 32
  return toArray 32 key

def readFlag (zero one : Bool) (e : JamError) : Decoder Bool := do
  let b ← readOctet
  if b = 0 then return zero
  else if b = 1 then return one
  else fail e

def readPointerMarker : Decoder Bool := readFlag true false .invalidPointer

def decodeBool : Decoder Bool := readFlag false true .decodingBool

def decodeWidth (s : Strictness) (w : Width) (length : Nat) : Decoder w.Val := do
  let buf ← (readWith s length).mapError .readingByte
  require (!s.shortestNaturals || leNat buf < 256 ^ w.octets) .notCanonical
  return w.wrap (leNat buf)

def unmarshalPrim (s : Strictness) : (p : Prim) → Decoder p.Val
  | .bool => decodeBool
  | .fixed w => decodeWidth s w w.octets
  | .uint => decodeUintWith s
  | .int => do
    let x ← decodeUintWith s
    return UInt64.toInt64 x

def unmarshalKey (s : Strictness) : (key : KeyTy) → Decoder key.Val
  | .prim p => unmarshalPrim s p
  | .byteArray n => do
    let octets ← many (decodeWidth s .w8 1) n
    return toArray n octets

def decodeKind (s : Strictness) (length : Nat) : (t : Ty) → Decoder t.Val
  | .prim (.fixed w) => decodeWidth s w length
  | _ => do
    let _ ← (readWith s length).mapError .readingByte
    fail .unsupportedType

def decodeFixedWidthWith (s : Strictness) (length : Nat) : (t : Ty) → Decoder t.Val
  | .pointer t => do
    let isNil ← readPointerMarker
    if isNil then return none
    else
      let v ← decodeKind s length t
      return some v
  | t => decodeKind s length t

def readEntry {α : Type} (s : Strictness) (key : KeyTy) (decode : Decoder α) :
    Decoder (key.Val × α) := do
  let k ← (unmarshalKey s key).mapError .decodingMapKey
  let v ← decode.mapError .decodingMapValue
  return (k, v)

def increasing {α : Type} (key : KeyTy) (entries : List (key.Val × α)) : Bool :=
  decide (entries.Pairwise fun a b => key.rank a.1 < key.rank b.1)

mutual

def unmarshalWith (s : Strictness) : (t : Ty) → Decoder t.Val
  | .prim p => unmarshalPrim s p
  | .publicKey => decodeEd25519PublicKey
  | .bytes => decodeBytes s
  | .pointer t => do
    let isNil ← readPointerMarker
    if isNil then return none
    else
      let v ← unmarshalWith s t
      return some v
  | .array n t => do
    let vs ← many (unmarshalWith s t) n
    return Vector.ofFn fun i => vs.getD i t.zero
  | .slice t => do
    let l ← decodeLength s
    many (unmarshalWith s t) l
  | .map key t => do
    let length ← (decodeLength s).mapError .decodingMapLength
    let entries ← many (readEntry s key (unmarshalWith s t)) length
    require (!s.increasingKeys || increasing key entries) .notCanonical
    return GoMap.assign ∅ entries
  | .enum variants => do
    let b ← readOctet
    decodeEnum s variants b
  | .struct fields => decodeStruct s fields

def decodeEnum (s : Strictness) : (variants : Variants) → UInt8 → Decoder variants.Val
  | .nil unknown, _ => fail unknown
  | .bare index rest, b =>
    if b = index then return .inl ()
    else do
      let v ← decodeEnum s rest b
      return .inr v
  | .holding index t rest, b =>
    if b = index then do
      let v ← unmarshalWith s t
      return .inl v
    else do
      let v ← decodeEnum s rest b
      return .inr v

def decodeStruct (s : Strictness) : (fields : Fields) → Decoder fields.Val
  | .nil => return ()
  | .field name t rest => do
    let v ← (unmarshalWith s t).mapError (.decodingStructField name)
    let vs ← decodeStruct s rest
    return (v, vs)
  | .tagged name length t rest => do
    let v ← (decodeFixedWidthWith s length t).mapError (.encodingStructField name)
    let vs ← decodeStruct s rest
    return (v, vs)
  | .skipped _ t rest => do
    let vs ← decodeStruct s rest
    return (t.zero, vs)

end

def unmarshal (t : Ty) : Decoder t.Val := unmarshalWith .code t

def unmarshalInto (s : Strictness) : (t : Ty) → Decoder t.Val
  | .pointer t => do
    let v ← unmarshalInto s t
    return some v
  | t => unmarshalWith s t

def unmarshalBytes (s : Strictness) (t : Ty) : Decoder t.Val := fun data =>
  if data = [] then .ok (t.zero, []) else unmarshalInto s t data

theorem unmarshalBytes_eq {t : Ty} (ht : t.isPointer = false) (s : Strictness) {data : List UInt8}
    (hdata : data ≠ []) : unmarshalBytes s t data = unmarshalWith s t data := by
  rw [unmarshalBytes, if_neg hdata]
  cases t with
  | pointer u => cases ht
  | prim _ | publicKey | bytes | array _ _ | slice _ | map _ _ | enum _ | struct _ => rfl

end Strawberry.Jam
