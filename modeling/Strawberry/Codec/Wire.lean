import Mathlib.Logic.Equiv.List
import Mathlib.Logic.Equiv.Option
import Strawberry.Codec.Canonical

/-!
# Go types on the wire

A `Wire α` says what the codec sees of `α`, a `Record` what it sees of a struct's fields.
-/

namespace Strawberry.Jam

open Strawberry.Decoder Vector

structure Wire (α : Type) where
  ty : Ty
  equiv : α ≃ ty.Val

structure Record (α : Type) where
  fields : Fields
  equiv : α ≃ fields.Val

variable {α β : Type}

namespace Wire

def bool : Wire Bool := ⟨.prim .bool, Equiv.refl _⟩

def uint8 : Wire UInt8 := ⟨.prim (.fixed .w8), Equiv.refl _⟩

def uint16 : Wire UInt16 := ⟨.prim (.fixed .w16), Equiv.refl _⟩

def uint32 : Wire UInt32 := ⟨.prim (.fixed .w32), Equiv.refl _⟩

def uint64 : Wire UInt64 := ⟨.prim (.fixed .w64), Equiv.refl _⟩

def int : Wire Int64 := ⟨.prim .int, Equiv.refl _⟩

def bytes : Wire (List UInt8) := ⟨.bytes, Equiv.refl _⟩

def publicKey : Wire Ed25519Key := ⟨.publicKey, Equiv.refl _⟩

def byteArray (n : Nat) : Wire (Vector UInt8 n) := ⟨.array n (.prim (.fixed .w8)), Equiv.refl _⟩

def byteArrayMap (n k : Nat) : Wire (GoMap (Vector UInt8 n) (Vector UInt8 k)) :=
  ⟨.map (.byteArray n) (.array k (.prim (.fixed .w8))), Equiv.refl _⟩

def uint32Map : Wire (GoMap UInt32 UInt64) :=
  ⟨.map (.prim (.fixed .w32)) (.prim (.fixed .w64)), Equiv.refl _⟩

def byteArraySet (n : Nat) : Wire (Finset (Vector UInt8 n)) :=
  ⟨.map (.byteArray n) (.struct .nil), GoMap.setEquiv⟩

def pointer (w : Wire α) : Wire (Option α) := ⟨.pointer w.ty, w.equiv.optionCongr⟩

def slice (w : Wire α) : Wire (List α) := ⟨.slice w.ty, w.equiv.listEquivOfEquiv⟩

def array (n : Nat) (w : Wire α) : Wire (Vector α n) where
  ty := .array n w.ty
  equiv :=
    { toFun := Vector.map w.equiv
      invFun := Vector.map w.equiv.symm
      left_inv := by
        intro v
        rw [map_map, w.equiv.symm_comp_self, map_id]
      right_inv := by
        intro v
        rw [map_map, w.equiv.self_comp_symm, map_id] }

def via (w : Wire β) (e : α ≃ β) : Wire α := ⟨w.ty, e.trans w.equiv⟩

end Wire

namespace Record

def nil : Record Unit := ⟨.nil, Equiv.refl _⟩

def field (name : String) (w : Wire α) (rest : Record β) : Record (α × β) :=
  ⟨.field name w.ty rest.fields, w.equiv.prodCongr rest.equiv⟩

def struct (r : Record β) (e : α ≃ β) : Wire α := ⟨.struct r.fields, e.trans r.equiv⟩

end Record

def Wire.marshal (w : Wire α) (a : α) : Call JamError (List UInt8) := Jam.marshal w.ty (w.equiv a)

def Record.marshal (r : Record α) (a : α) : Call JamError (List UInt8) :=
  encodeStruct r.fields (r.equiv a)

variable {w : Wire α}

@[simp] theorem marshal_uint8 (x : UInt8) : Wire.uint8.marshal x = .ok [x] := by
  change Call.ok [UInt8.ofNat x.toNat] = Call.ok [x]
  rw [UInt8.ofNat_toNat]

@[simp] theorem marshal_uint16 (x : UInt16) : Wire.uint16.marshal x = .ok (toLE 2 x.toNat) := rfl

@[simp] theorem marshal_uint32 (x : UInt32) : Wire.uint32.marshal x = .ok (toLE 4 x.toNat) := rfl

@[simp] theorem marshal_publicKey (key : Ed25519Key) :
    Wire.publicKey.marshal key = .ok key.toList := rfl

variable {encode : α → List UInt8} {xs : List α} {n : Nat}

theorem mapM_marshal (h : ∀ x ∈ xs, w.marshal x = .ok (encode x)) :
    (xs.map w.equiv).mapM (Jam.marshal w.ty) = Call.ok (xs.map encode) := by
  rw [Call.mapM_eq_ok, List.forall₂_map_left_iff, List.forall₂_map_right_iff, List.forall₂_same]
  exact h

@[simp] theorem marshal_byteArray (v : Vector UInt8 n) :
    (Wire.byteArray n).marshal v = .ok v.toList := by
  have h : (v.toList.map id).mapM (Jam.marshal Wire.uint8.ty) =
      Call.ok (v.toList.map fun x => [x]) := mapM_marshal fun x _ => marshal_uint8 x
  rw [List.map_id] at h
  change List.flatten <$> v.toList.mapM (Jam.marshal Wire.uint8.ty) = _
  rw [h]
  change Call.ok (v.toList.map fun x => [x]).flatten = _
  rw [← List.flatMap_def]
  exact congrArg Call.ok (List.flatMap_singleton' v.toList)

theorem marshal_slice (h : ∀ x ∈ xs, w.marshal x = .ok (encode x)) :
    w.slice.marshal xs = .ok (encodeSlice encode xs) := by
  change (do
    let parts ← (xs.map w.equiv).mapM (Jam.marshal w.ty)
    return encodeLength (xs.map w.equiv).length ++ parts.flatten) = _
  rw [mapM_marshal h, List.length_map]
  change Call.ok (encodeLength xs.length ++ (xs.map encode).flatten) = _
  rw [← List.flatMap_def]
  rfl

theorem marshal_array {v : Vector α n} (h : ∀ x ∈ v.toList, w.marshal x = .ok (encode x)) :
    (w.array n).marshal v = .ok (v.toList.flatMap encode) := by
  change List.flatten <$> (v.map w.equiv).toList.mapM (Jam.marshal w.ty) = _
  rw [toList_map, mapM_marshal h, List.flatMap_def]
  rfl

theorem marshal_pointer (hw : w.ty.isEnum = false) {p : Option α}
    (h : ∀ x, p = some x → w.marshal x = .ok (encode x)) :
    w.pointer.marshal p = .ok (p.elim [0] fun x => 1 :: encode x) := by
  cases p with
  | none =>
    change (if w.ty.isEnum then Call.crash .nilDereference else Call.ok [0]) = _
    rw [hw]
    rfl
  | some x =>
    change (if w.ty.isEnum then Jam.marshal w.ty (w.equiv x)
      else (1 :: ·) <$> w.marshal x) = _
    rw [hw, h x rfl]
    rfl

@[simp] theorem marshal_nil : Record.nil.marshal () = .ok [] := rfl

theorem marshal_field {name : String} {rest : Record β} {a : α} {b : β} {head tail : List UInt8}
    (ha : w.marshal a = .ok head) (hb : rest.marshal b = .ok tail) :
    (Record.field name w rest).marshal (a, b) = .ok (head ++ tail) := by
  change (do
    let head ← inField (.encodingStructField name) (w.marshal a)
    let tail ← rest.marshal b
    return head ++ tail) = _
  rw [ha, hb]
  rfl

def Wire.Fits (w : Wire α) (a : α) : Prop := w.ty.Fits (w.equiv a)

def Record.Fits (r : Record α) (a : α) : Prop := r.fields.Fits (r.equiv a)

@[simp] theorem fits_uint8 (x : UInt8) : Wire.uint8.Fits x := trivial
@[simp] theorem fits_uint16 (x : UInt16) : Wire.uint16.Fits x := trivial
@[simp] theorem fits_uint32 (x : UInt32) : Wire.uint32.Fits x := trivial
@[simp] theorem fits_uint64 (x : UInt64) : Wire.uint64.Fits x := trivial
@[simp] theorem fits_bool (b : Bool) : Wire.bool.Fits b := trivial
@[simp] theorem fits_publicKey (key : Ed25519Key) : Wire.publicKey.Fits key := trivial
@[simp] theorem fits_nil (u : Unit) : Record.nil.Fits u := trivial

variable {e : α ≃ β} {a : α}

@[simp] theorem fits_byteArray (v : Vector UInt8 n) : (Wire.byteArray n).Fits v :=
  fun _ _ => trivial

@[simp] theorem fits_bytes {v : List UInt8} : Wire.bytes.Fits v ↔ v.length ≤ maxUint32 := Iff.rfl

@[simp] theorem fits_byteArrayMap {k : Nat} {m : GoMap (Vector UInt8 n) (Vector UInt8 k)} :
    (Wire.byteArrayMap n k).Fits m ↔ m.len < 2 ^ 64 := by
  change m.len < 2 ^ 64 ∧ _ ↔ _
  exact and_iff_left fun _ _ _ _ _ => trivial

@[simp] theorem fits_uint32Map {m : GoMap UInt32 UInt64} :
    Wire.uint32Map.Fits m ↔ m.len < 2 ^ 64 := by
  change m.len < 2 ^ 64 ∧ _ ↔ _
  exact and_iff_left fun _ _ _ => trivial

@[simp] theorem fits_byteArraySet {s : Finset (Vector UInt8 n)} :
    (Wire.byteArraySet n).Fits s ↔ s.card < 2 ^ 64 := by
  have hkeys : (GoMap.ofSet s).keys = s := GoMap.setEquiv.left_inv s
  change (GoMap.ofSet s).keys.card < 2 ^ 64 ∧ _ ↔ _
  rw [hkeys]
  exact and_iff_left fun _ _ _ => trivial

@[simp] theorem fits_via {w : Wire β} : (w.via e).Fits a ↔ w.Fits (e a) :=
  Iff.rfl

@[simp] theorem fits_pointer {p : Option α} :
    w.pointer.Fits p ↔ w.ty.isEnum = false ∧ ∀ x, p = some x → w.Fits x := by
  refine and_congr_right fun _ => ?_
  cases p with
  | none => exact iff_of_true nofun nofun
  | some a =>
    change (∀ x, some (w.equiv a) = some x → w.ty.Fits x) ↔ _
    simp only [Option.some.injEq, forall_eq']
    rfl

@[simp] theorem fits_slice :
    w.slice.Fits xs ↔ xs.length < 2 ^ 64 ∧ ∀ x ∈ xs, w.Fits x := by
  change (xs.map w.equiv).length < 2 ^ 64 ∧ (∀ x ∈ xs.map w.equiv, w.ty.Fits x) ↔ _
  rw [List.length_map, List.forall_mem_map]
  rfl

@[simp] theorem fits_array {v : Vector α n} : (w.array n).Fits v ↔ ∀ x ∈ v.toList, w.Fits x := by
  change (∀ x ∈ (v.map w.equiv).toList, w.ty.Fits x) ↔ _
  rw [toList_map, List.forall_mem_map]
  rfl

@[simp] theorem fits_field {name : String} {rest : Record β} {p : α × β} :
    (Record.field name w rest).Fits p ↔ w.Fits p.1 ∧ rest.Fits p.2 := Iff.rfl

@[simp] theorem isEnum_struct {r : Record β} : (r.struct e).ty.isEnum = false := rfl
@[simp] theorem isEnum_array : (w.array n).ty.isEnum = false := rfl

@[simp] theorem fits_struct {r : Record β} : (r.struct e).Fits a ↔ r.Fits (e a) := Iff.rfl

def Wire.Supported (w : Wire α) : Prop := w.ty.Supported

def Record.Supported (r : Record α) : Prop := r.fields.Supported

@[simp] theorem supported_uint8 : Wire.uint8.Supported := trivial
@[simp] theorem supported_uint16 : Wire.uint16.Supported := trivial
@[simp] theorem supported_uint32 : Wire.uint32.Supported := trivial
@[simp] theorem supported_uint64 : Wire.uint64.Supported := trivial
@[simp] theorem supported_bool : Wire.bool.Supported := trivial
@[simp] theorem supported_publicKey : Wire.publicKey.Supported := trivial
@[simp] theorem supported_bytes : Wire.bytes.Supported := trivial
variable {r : Record β}

@[simp] theorem supported_byteArray : (Wire.byteArray n).Supported := trivial
@[simp] theorem supported_byteArrayMap {k : Nat} : (Wire.byteArrayMap n k).Supported := trivial
@[simp] theorem supported_nil : Record.nil.Supported := trivial


@[simp] theorem supported_pointer :
    w.pointer.Supported ↔ w.ty.isEnum = false ∧ w.Supported := Iff.rfl

@[simp] theorem supported_slice : w.slice.Supported ↔ w.Supported := Iff.rfl

@[simp] theorem supported_array : (w.array n).Supported ↔ w.Supported := Iff.rfl

@[simp] theorem supported_field {name : String} {rest : Record β} :
    (Record.field name w rest).Supported ↔ w.Supported ∧ rest.Supported := Iff.rfl

@[simp] theorem supported_struct : (r.struct e).Supported ↔ r.Supported := Iff.rfl

section

variable (octets count : Nat → Prop)

def Wire.Ends (w : Wire α) (a : α) : Prop := w.ty.Ends octets count (w.equiv a)

def Record.Ends (r : Record α) (a : α) : Prop := r.fields.Ends octets count (r.equiv a)

end

variable {octets count : Nat → Prop} {name : String}

def Wire.decode (w : Wire α) (s : Strictness) : Decoder α := do
  let v ← unmarshalWith s w.ty
  return w.equiv.symm v

def Wire.read (w : Wire α) (s : Strictness) : Decoder α := do
  let v ← unmarshalBytes s w.ty
  return w.equiv.symm v

def Wire.unmarshal (w : Wire α) (data : List UInt8) : Except JamError α :=
  (w.read .code data).map Prod.fst

variable {data : List UInt8}

theorem read_cons (hw : w.ty.isPointer = false) (s : Strictness)
    (hdata : data ≠ []) : w.read s data = w.decode s data := by
  have hbytes := unmarshalBytes_eq hw s hdata
  change Except.bind (unmarshalBytes s w.ty data) _ = Except.bind (unmarshalWith s w.ty data) _
  rw [hbytes]

theorem Wire.written (ha : w.Fits a) : ∃ bytes, w.marshal a = .ok bytes ∧
      Decodes Strictness.code w.decode (w.Ends (· = 1) (· < 2 ^ 14) a)
        (w.Ends (2 ≤ ·) (fun _ => True) a) bytes a := by
  obtain ⟨bytes, hbytes, hdecodes⟩ := w.ty.written (w.equiv a) ha
  refine ⟨bytes, hbytes, ?_⟩
  have h := hdecodes.bind_pure w.equiv.symm
  rw [w.equiv.symm_apply_apply] at h
  exact h

theorem Wire.unmarshal_eq_ok (hw : w.ty.isPointer = false) (hdata : data ≠ []) :
    w.unmarshal data = .ok a ↔ ∃ rest, w.decode .code data = .ok (a, rest) := by
  rw [Wire.unmarshal, read_cons hw _ hdata]
  cases hrun : w.decode .code data with
  | error e => exact iff_of_false nofun (by rintro ⟨rest, h⟩; cases h)
  | ok x =>
    constructor
    · intro h
      cases h
      exact ⟨x.2, rfl⟩
    · rintro ⟨rest, h⟩
      cases h
      rfl

theorem Wire.decode_eq_ok {s : Strictness} {r r' : Reader} :
    w.decode s r = .ok (a, r') ↔ unmarshalWith s w.ty r = .ok (w.equiv a, r') := by
  constructor
  · intro h
    obtain ⟨v, r₁, hv, hpure⟩ := Decoder.bind_eq_ok.mp h
    obtain ⟨rfl, rfl⟩ := Decoder.pure_eq_ok.mp hpure
    rw [hv, w.equiv.apply_symm_apply]
  · intro h
    refine Decoder.bind_eq_ok.mpr ⟨w.equiv a, r', h, ?_⟩
    rw [w.equiv.symm_apply_apply]
    rfl

theorem Wire.recovers (hw : w.Supported) :
    Recovers (w.decode .canonical) fun a bytes => w.marshal a = .ok bytes := by
  intro r a r' hrun
  exact w.ty.recovers hw r (w.equiv a) r' (Wire.decode_eq_ok.mp hrun)

theorem Wire.marshal_eq_iff (hw : w.Supported) {rest : List UInt8}
    (h : w.decode .code data = .ok (a, rest)) :
    w.marshal a = .ok data ↔ rest = [] ∧ w.decode .canonical data = .ok (a, []) := by
  rw [Wire.decode_eq_ok] at h ⊢
  exact marshal_eq_iff_canonical hw h

end Strawberry.Jam
