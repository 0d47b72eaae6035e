import Strawberry.Codec.Scalars

/-!
# Round trips

What the encoder writes for a value that `Fits`, the decoder reads back. `Ends` describes the last
read the decoder makes of it, on which it depends what becomes of an encoding that is cut.
-/

namespace Strawberry.Jam

open Strawberry.Decoder

theorem shrinks_unmarshalPrim (s : Strictness) (p : Prim) : Shrinks (unmarshalPrim s p) := by
  cases p with
  | bool => exact shrinks_readFlag _ _ _
  | fixed w => exact shrinks_decodeWidth s w _
  | uint => exact shrinks_decodeUintWith s
  | int => exact (shrinks_decodeUintWith s).bind fun _ => shrinks_pure _

theorem shrinks_unmarshalKey (s : Strictness) (key : KeyTy) : Shrinks (unmarshalKey s key) := by
  cases key with
  | prim p => exact shrinks_unmarshalPrim s p
  | byteArray n => exact ((shrinks_decodeWidth s _ _).many n).bind fun _ => shrinks_pure _

theorem shrinks_decodeKind (s : Strictness) (length : Nat) (t : Ty) :
    Shrinks (decodeKind s length t) := by
  unfold decodeKind
  split
  · exact shrinks_decodeWidth s _ _
  · exact (shrinks_readWith s _).mapError.bind fun _ => shrinks_fail _

theorem shrinks_pointee {α : Type} {d : Decoder α} (h : Shrinks d) (isNil : Bool) :
    Shrinks (if isNil then pure none else do return some (← d) : Decoder (Option α)) := by
  split
  · exact shrinks_pure _
  · exact h.bind fun _ => shrinks_pure _

theorem shrinks_decodeFixedWidthWith (s : Strictness) (length : Nat) (t : Ty) :
    Shrinks (decodeFixedWidthWith s length t) := by
  unfold decodeFixedWidthWith
  split
  · next t => exact (shrinks_readFlag _ _ _).bind (shrinks_pointee (shrinks_decodeKind s length t))
  · exact shrinks_decodeKind s length _

theorem shrinks_readEntry {α : Type} {decode : Decoder α} (s : Strictness) (key : KeyTy)
    (h : Shrinks decode) : Shrinks (readEntry s key decode) :=
  (shrinks_unmarshalKey s key).mapError.bind fun _ =>
    h.mapError.bind fun _ => shrinks_pure _

mutual

theorem shrinks_unmarshalWith (s : Strictness) : (t : Ty) → Shrinks (unmarshalWith s t)
  | .prim p => shrinks_unmarshalPrim s p
  | .publicKey => shrinks_decodeEd25519PublicKey
  | .bytes => shrinks_decodeBytes s
  | .pointer t => (shrinks_readFlag _ _ _).bind (shrinks_pointee (shrinks_unmarshalWith s t))
  | .array n t => ((shrinks_unmarshalWith s t).many n).bind fun _ => shrinks_pure _
  | .slice t => (shrinks_decodeLength s).bind (shrinks_unmarshalWith s t).many
  | .map key t =>
    (shrinks_decodeLength s).mapError.bind fun n =>
      ((shrinks_readEntry s key (shrinks_unmarshalWith s t)).many n).bind fun _ =>
        (shrinks_require _ _).bind fun _ => shrinks_pure _
  | .enum variants => shrinks_readOctet.bind (shrinks_decodeEnum s variants)
  | .struct fields => shrinks_decodeStruct s fields

theorem shrinks_decodeEnum (s : Strictness) : (variants : Variants) → (b : UInt8) →
    Shrinks (decodeEnum s variants b)
  | .nil unknown, _ => shrinks_fail unknown
  | .bare index rest, b => by
    rw [decodeEnum]
    split
    · exact shrinks_pure _
    · exact (shrinks_decodeEnum s rest b).bind fun _ => shrinks_pure _
  | .holding index t rest, b => by
    rw [decodeEnum]
    split
    · exact (shrinks_unmarshalWith s t).bind fun _ => shrinks_pure _
    · exact (shrinks_decodeEnum s rest b).bind fun _ => shrinks_pure _

theorem shrinks_decodeStruct (s : Strictness) : (fields : Fields) → Shrinks (decodeStruct s fields)
  | .nil => shrinks_pure _
  | .field _ t rest =>
    (shrinks_unmarshalWith s t).mapError.bind fun _ =>
      (shrinks_decodeStruct s rest).bind fun _ => shrinks_pure _
  | .tagged _ length t rest =>
    (shrinks_decodeFixedWidthWith s length t).mapError.bind fun _ =>
      (shrinks_decodeStruct s rest).bind fun _ => shrinks_pure _
  | .skipped _ _ rest => (shrinks_decodeStruct s rest).bind fun _ => shrinks_pure _

end

/-- Of the kinds that `encodeWidth` writes, `decodeFixedWidth` reads unsigned integers of a fixed
width alone. -/
def WidthFits (length : Nat) : (t : Ty) → t.Val → Prop
  | .prim (.fixed w), x => w.toNat x < 256 ^ length
  | _, _ => False

def TagFits (length : Nat) : (t : Ty) → t.Val → Prop
  | .pointer t, v => ∀ x, v = some x → WidthFits length t x
  | t, v => WidthFits length t v

mutual

/-- No pointer of the type points to an enumeration. -/
def Ty.Supported : Ty → Prop
  | .prim _ => True
  | .publicKey => True
  | .bytes => True
  | .pointer t => t.isEnum = false ∧ t.Supported
  | .array _ t => t.Supported
  | .slice t => t.Supported
  | .map _ t => t.Supported
  | .enum variants => variants.Supported
  | .struct fields => fields.Supported

def Variants.Supported : Variants → Prop
  | .nil _ => True
  | .bare _ rest => rest.Supported
  | .holding _ t rest => t.Supported ∧ rest.Supported

def Fields.Supported : Fields → Prop
  | .nil => True
  | .field _ t rest => t.Supported ∧ rest.Supported
  | .tagged _ _ _ rest => rest.Supported
  | .skipped _ _ rest => rest.Supported

end

def Variants.indexOf : (variants : Variants) → variants.Val → Option UInt8
  | .nil _, _ => none
  | .bare index _, .inl _ => some index
  | .bare _ rest, .inr v => rest.indexOf v
  | .holding index _ _, .inl _ => some index
  | .holding _ _ rest, .inr v => rest.indexOf v

mutual

/-- The values the encoder writes as the decoder reads them. -/
def Ty.Fits : (t : Ty) → t.Val → Prop
  | .prim _, _ => True
  | .publicKey, _ => True
  | .bytes, v => v.length ≤ maxUint32
  | .pointer t, v => t.isEnum = false ∧ ∀ x, v = some x → t.Fits x
  | .array _ t, v => ∀ x ∈ v.toList, t.Fits x
  | .slice t, v => v.length < 2 ^ 64 ∧ ∀ x ∈ v, t.Fits x
  | .map _ t, v => v.len < 2 ^ 64 ∧ ∀ k x, v.lookup k = some x → t.Fits x
  | .enum variants, v => variants.Fits v
  | .struct fields, v => fields.Fits v

def Variants.Fits : (variants : Variants) → variants.Val → Prop
  | .nil _, _ => False
  | .bare _ _, .inl _ => True
  | .bare index rest, .inr v => rest.indexOf v ≠ some index ∧ rest.Fits v
  | .holding _ t _, .inl v => t.Fits v
  | .holding index _ rest, .inr v => rest.indexOf v ≠ some index ∧ rest.Fits v

def Fields.Fits : (fields : Fields) → fields.Val → Prop
  | .nil, _ => True
  | .field _ t rest, v => t.Fits v.1 ∧ rest.Fits v.2
  | .tagged _ length t rest, v => TagFits length t v.1 ∧ rest.Fits v.2
  | .skipped _ t rest, v => v.1 = t.zero ∧ rest.Fits v.2

end

def Prim.lastRead : (p : Prim) → p.Val → Nat
  | .bool, _ => 1
  | .fixed w, _ => w.octets
  | .uint, x => max 1 (uint64Length x)
  | .int, x => max 1 (uint64Length (Int64.toUInt64 x))

def Fields.isNil : Fields → Bool
  | .nil => true
  | _ => false

section

variable (octets count : Nat → Prop)

def TagEnds (length : Nat) : (t : Ty) → t.Val → Prop
  | .pointer _, none => octets 1
  | _, _ => octets length

mutual

/-- The last read of the decoder asks for a number of `octets`, and the slices and maps it is in
have a `count` of entries. A public key is read in full, as a single octet is. -/
def Ty.Ends : (t : Ty) → t.Val → Prop
  | .prim p, v => octets (p.lastRead v)
  | .publicKey, _ => octets 1
  | .bytes, v => octets (max 1 v.length)
  | .pointer _, none => octets 1
  | .pointer t, some x => t.Ends x
  | .array _ t, v => ∃ x, v.toList.getLast? = some x ∧ t.Ends x
  | .slice t, v => count v.length ∧ (v = [] ∧ octets 1 ∨ ∃ x, v.getLast? = some x ∧ t.Ends x)
  | .map key t, v => count v.len ∧ (sortedEntries key v = [] ∧ octets 1 ∨
      ∃ e, (sortedEntries key v).getLast? = some e ∧ t.Ends e.2)
  | .enum variants, v => variants.Ends v
  | .struct fields, v => fields.Ends v

def Variants.Ends : (variants : Variants) → variants.Val → Prop
  | .nil _, _ => False
  | .bare _ _, .inl _ => octets 1
  | .bare _ rest, .inr v => rest.Ends v
  | .holding _ t _, .inl v => t.Ends v
  | .holding _ _ rest, .inr v => rest.Ends v

def Fields.Ends : (fields : Fields) → fields.Val → Prop
  | .nil, _ => False
  | .field _ t rest, v => rest.Ends v.2 ∨ (rest.isNil = true ∧ t.Ends v.1)
  | .tagged _ length t rest, v =>
    rest.Ends v.2 ∨ (rest.isNil = true ∧ TagEnds octets length t v.1)
  | .skipped _ _ rest, v => rest.Ends v.2

end

end

section

variable (t : Ty) (v : t.Val)

/-- The last read asks for one octet, and no length on the way to it takes more than two. -/
def Ty.Closed : Prop := t.Ends (· = 1) (· < 2 ^ 14) v

/-- The last read asks for several octets, and is answered when one of them is missing. -/
def Ty.Open : Prop := t.Ends (2 ≤ ·) (fun _ => True) v

def Ty.Short : Prop := t.Ends (1 ≤ ·) (· < 2 ^ 14) v

def Written : Prop :=
  ∃ bytes, marshal t v = .ok bytes ∧
    Decodes Strictness.code (fun s => unmarshalWith s t) (t.Closed v) (t.Open v) bytes v

end

theorem unmarshalPrim_decodes (p : Prim) (v : p.Val) :
    Decodes Strictness.code (fun s => unmarshalPrim s p) (p.lastRead v = 1) (2 ≤ p.lastRead v)
      (marshalPrim p v) v := by
  cases p with
  | bool =>
    cases v with
    | false => exact (readFlag_zero false true _).imp (fun _ => trivial) (by nofun)
    | true => exact (readFlag_one false true _).imp (fun _ => trivial) (by nofun)
  | fixed w => exact decodeWidth_decodes w (w.toNat_lt v)
  | uint => exact decodeUintWith_decodes v
  | int =>
    have h := (decodeUintWith_decodes (Int64.toUInt64 v)).bind_pure UInt64.toInt64
    exact h

theorem unmarshalKey_decodes (key : KeyTy) (k : key.Val) :
    Decodes Strictness.code (fun s => unmarshalKey s key) False False (marshalKey key k) k := by
  cases key with
  | prim p => exact (unmarshalPrim_decodes p k).imp False.elim False.elim
  | byteArray n =>
    have hparts : List.Forall₂ (fun x part =>
        Decodes Strictness.code (fun s => decodeWidth s .w8 1) True False part x) k.toList
        (k.toList.map fun x => [x]) := by
      rw [List.forall₂_map_right_iff, List.forall₂_same]
      intro x _
      have h : Decodes _ (fun s => decodeWidth s .w8 1) _ _ _ x :=
        decodeWidth_decodes .w8 (Width.w8.toNat_lt x)
      have hb : toLE 1 (Width.w8.toNat x) = [x] := by
        change [UInt8.ofNat x.toNat] = [x]
        rw [UInt8.ofNat_toNat]
      rw [hb] at h
      exact h.imp (fun _ => rfl) False.elim
    have h := (Decodes.many hparts (shrinks_decodeWidth _ _ _)).bind_pure (toArray n)
    have hb : (k.toList.map fun x => [x]).flatten = k.toList := by
      exact List.flatMap_singleton' k.toList
    rw [toArray_toList, hb, Vector.length_toList] at h
    exact h.imp False.elim False.elim

theorem written_many {t : Ty} {xs : List t.Val} (h : ∀ x ∈ xs, Written t x) :
    ∃ parts, xs.mapM (marshal t) = Call.ok parts ∧
      Decodes Strictness.code (fun s => many (unmarshalWith s t) xs.length)
        (∃ x, xs.getLast? = some x ∧ t.Closed x) (∃ x, xs.getLast? = some x ∧ t.Open x)
        parts.flatten xs := by
  obtain ⟨parts, hparts⟩ := exists_forall₂ h
  exact ⟨parts, Call.mapM_eq_ok.mpr (hparts.imp fun _ _ hx => hx.1),
    .many (hparts.imp fun _ _ hx => hx.2) (shrinks_unmarshalWith _ t)⟩

theorem written_pointer {t : Ty} (ht : t.isEnum = false) {v : Option t.Val}
    (h : ∀ x, v = some x → Written t x) : Written (.pointer t) v := by
  have hshrinks := shrinks_pointee (shrinks_unmarshalWith .code t)
  cases v with
  | none =>
    refine ⟨[0], ?_, ?_⟩
    · rw [marshal, ht]
      rfl
    · exact ((readFlag_zero true false _).finish (fun _ _ => rfl) hshrinks False.elim).imp
        (fun _ => trivial) (by nofun)
  | some x =>
    obtain ⟨bytes, hb, hdec⟩ := h x rfl
    refine ⟨[1] ++ bytes, ?_, ?_⟩
    · rw [marshal, ht, hb]
      rfl
    · exact (readFlag_one true false _).bind (hdec.bind_pure some) hshrinks
        (fun hclosed => ⟨trivial, .inl hclosed⟩) id

theorem written_array {n : Nat} {t : Ty} {v : Vector t.Val n} (h : ∀ x ∈ v.toList, Written t x) :
    Written (.array n t) v := by
  obtain ⟨parts, hparts, hdec⟩ := written_many h
  refine ⟨parts.flatten, ?_, ?_⟩
  · rw [marshal, hparts]
    rfl
  · have hvector : (Vector.ofFn fun i : Fin n => v.toList.getD i t.zero) = v := by
      simp
    have hread := hdec.bind_pure fun vs => (Vector.ofFn fun i : Fin n => vs.getD i t.zero)
    rw [hvector, Vector.length_toList] at hread
    exact hread

theorem written_slice {t : Ty} {v : List t.Val} (hlength : v.length < 2 ^ 64)
    (h : ∀ x ∈ v, Written t x) : Written (.slice t) v := by
  obtain ⟨parts, hparts, hdec⟩ := written_many h
  have hlen := decodeLength_decodes hlength
  refine ⟨encodeLength v.length ++ parts.flatten, ?_, ?_⟩
  · rw [marshal, hparts]
    rfl
  · refine hlen.bind hdec (shrinks_unmarshalWith _ t).many ?_ ?_
    · rintro ⟨hshort, ⟨rfl, -⟩ | hlast⟩
      · rw [← Call.pure_eq_ok.mp hparts]
        exact ⟨hshort, .inr rfl⟩
      · exact ⟨hshort, .inl hlast⟩
    · rintro ⟨-, ⟨-, htwo⟩ | hlast⟩
      · omega
      · exact hlast

section

variable {key : KeyTy} {α : Type} (m : GoMap key.Val α)

theorem length_sortedEntries : (sortedEntries key m).length = m.len :=
  GoMap.length_entriesAt _

theorem assign_sortedEntries : GoMap.assign ∅ (sortedEntries key m) = m :=
  GoMap.assign_entriesAt _

theorem lookup_of_mem_sortedEntries {e : key.Val × α} (he : e ∈ sortedEntries key m) :
    m.lookup e.1 = some e.2 := (GoMap.mem_entriesAt.mp he).2

theorem increasing_sortedEntries : increasing key (sortedEntries key m) = true := by
  have hkeys := GoMap.Traversal.sorted_increasing key.unrank_rank m.keys
  unfold increasing
  rw [decide_eq_true_eq, ← List.pairwise_map (f := Prod.fst)
    (R := fun a b => key.rank a < key.rank b), sortedEntries,
    GoMap.map_fst_entriesAt (GoMap.Traversal.mem _)]
  exact hkeys

end

theorem written_map {key : KeyTy} {t : Ty} {v : GoMap key.Val t.Val} (hlen : v.len < 2 ^ 64)
    (h : ∀ k x, v.lookup k = some x → Written t x) : Written (.map key t) v := by
  have hentry : ∀ e ∈ sortedEntries key v, ∃ part,
      ((marshalKey key e.1 ++ ·) <$> marshal t e.2 = Call.ok part) ∧
        Decodes Strictness.code (fun s => readEntry s key (unmarshalWith s t)) (t.Closed e.2)
          (t.Open e.2) part e := by
    intro e he
    obtain ⟨bytes, hb, hdec⟩ := h e.1 e.2 (lookup_of_mem_sortedEntries v he)
    refine ⟨marshalKey key e.1 ++ bytes, ?_, ?_⟩
    · rw [hb]
      rfl
    · exact (unmarshalKey_decodes key e.1).mapError.pair hdec.mapError
        (shrinks_unmarshalWith _ t).mapError Prod.mk
  obtain ⟨parts, hparts⟩ := exists_forall₂ hentry
  have henc := Call.mapM_eq_ok.mpr (hparts.imp fun _ _ he => he.1)
  have hmany : Decodes Strictness.code
      (fun s => many (readEntry s key (unmarshalWith s t)) (sortedEntries key v).length)
      (∃ e, (sortedEntries key v).getLast? = some e ∧ t.Closed e.2)
      (∃ e, (sortedEntries key v).getLast? = some e ∧ t.Open e.2) parts.flatten
      (sortedEntries key v) :=
    .many (hparts.imp fun _ _ he => he.2) (shrinks_readEntry _ key (shrinks_unmarshalWith _ t))
  rw [length_sortedEntries] at hmany
  have hlength := decodeLength_decodes hlen
  refine ⟨encodeLength v.len ++ parts.flatten, ?_, ?_⟩
  · rw [marshal, henc]
    rfl
  · have hentries := hmany.finish (k := fun s entries => do
        require (!s.increasingKeys || increasing key entries) JamError.notCanonical
        return GoMap.assign ∅ entries) (b := v) ?_ ?_ fun _ _ => ⟨_, rfl⟩
    · refine hlength.mapError.bind hentries ?_ ?_ ?_
      · intro n
        exact ((shrinks_readEntry _ key (shrinks_unmarshalWith _ t)).many n).bind fun _ =>
          (shrinks_require _ _).bind fun _ => shrinks_pure _
      · rintro ⟨hshort, ⟨hnil, -⟩ | hlast⟩
        · rw [hnil] at hparts
          cases hparts
          exact ⟨hshort, .inr rfl⟩
        · exact ⟨hshort, .inl hlast⟩
      · rintro ⟨-, ⟨-, htwo⟩ | hlast⟩
        · omega
        · exact hlast
    · intro s rest
      simp only [increasing_sortedEntries, assign_sortedEntries, Bool.or_true]
      rfl
    · intro entries
      exact (shrinks_require _ _).bind fun _ => shrinks_pure _

theorem written_width {length : Nat} {t : Ty} {v : t.Val} (hv : WidthFits length t v) :
    ∃ bytes, encodeWidth length t v = .ok bytes ∧
      Decodes Strictness.code (fun s => decodeKind s length t) (length = 1) (2 ≤ length) bytes
        v := by
  match t, v, hv with
  | .prim (.fixed w), v, hv => exact ⟨_, rfl, decodeWidth_decodes w hv⟩

theorem written_tagged {length : Nat} {t : Ty} {v : t.Val} (hv : TagFits length t v) :
    ∃ bytes, encodeFixedWidth length t v = .ok bytes ∧
      Decodes Strictness.code (fun s => decodeFixedWidthWith s length t)
        (TagEnds (· = 1) length t v) (TagEnds (2 ≤ ·) length t v) bytes v := by
  cases t with
  | pointer t =>
    have hshrinks := shrinks_pointee (shrinks_decodeKind .code length t)
    cases v with
    | none =>
      exact ⟨[0], rfl, ((readFlag_zero true false _).finish (fun _ _ => rfl) hshrinks
        False.elim).imp (fun _ => trivial) (by nofun)⟩
    | some x =>
      obtain ⟨bytes, hb, hdec⟩ := written_width (hv x rfl)
      refine ⟨[1] ++ bytes, ?_, ?_⟩
      · rw [encodeFixedWidth, hb]
        rfl
      · exact (readFlag_one true false _).bind (hdec.bind_pure some) hshrinks
          (fun hclosed => ⟨trivial, .inl hclosed⟩) id
  | prim _ | publicKey | bytes | array _ _ | slice _ | map _ _ | enum _ | struct _ =>
    refine written_width (v := v) ?_
    exact hv

theorem written_cons {α : Type} {rest : Fields} {d : Strictness → Decoder α} {x : α}
    {vs : rest.Val} {P P' : Prop} {wrap : JamError → JamError} {bytes bytes' : List UInt8}
    (h : Decodes Strictness.code d P P' bytes x)
    (h' : Decodes Strictness.code (fun s => decodeStruct s rest)
      (rest.Ends (· = 1) (· < 2 ^ 14) vs) (rest.Ends (2 ≤ ·) (fun _ => True) vs) bytes' vs)
    (hb : encodeStruct rest vs = .ok bytes') :
    Decodes Strictness.code (fun s => do
        let v ← (d s).mapError wrap
        let vs ← decodeStruct s rest
        return (v, vs))
      (rest.Ends (· = 1) (· < 2 ^ 14) vs ∨ (rest.isNil = true ∧ P))
      (rest.Ends (2 ≤ ·) (fun _ => True) vs ∨ (rest.isNil = true ∧ P')) (bytes ++ bytes')
      (x, vs) := by
  cases rest with
  | nil =>
    cases hb
    rw [List.append_nil]
    refine (h.mapError.finish (fun _ _ => rfl) (fun _ => shrinks_pure _) fun _ _ => ⟨_, rfl⟩).imp
      ?_ ?_
    · rintro (hfalse | ⟨-, hclosed⟩)
      · exact hfalse.elim
      · exact hclosed
    · rintro (hfalse | ⟨-, hopen⟩)
      · exact hfalse.elim
      · exact hopen
  | field _ _ _ | tagged _ _ _ _ | skipped _ _ _ =>
    refine (h.mapError.pair h' (shrinks_decodeStruct _ _) Prod.mk).imp ?_ ?_
    · rintro (hclosed | ⟨hnil, -⟩)
      · exact hclosed
      · cases hnil
    · rintro (hopen | ⟨hnil, -⟩)
      · exact hopen
      · cases hnil

mutual

theorem Ty.written : (t : Ty) → (v : t.Val) → t.Fits v → Written t v
  | .prim p, v, _ => ⟨_, rfl, unmarshalPrim_decodes p v⟩
  | .publicKey, v, _ =>
    ⟨_, rfl, (decodeEd25519PublicKey_decodes v).imp (fun _ => trivial) (by nofun)⟩
  | .bytes, v, hv => ⟨_, rfl, decodeBytes_decodes hv⟩
  | .pointer t, _, hv => written_pointer hv.1 fun x hx => t.written x (hv.2 x hx)
  | .array _ t, _, hv => written_array fun x hx => t.written x (hv x hx)
  | .slice t, _, hv => written_slice hv.1 fun x hx => t.written x (hv.2 x hx)
  | .map _ t, _, hv => written_map hv.1 fun k x hx => t.written x (hv.2 k x hx)
  | .enum variants, v, hv => by
    obtain ⟨index, payload, -, henc, hdec⟩ := variants.written v hv
    refine ⟨[index] ++ payload, henc, ?_⟩
    refine (readOctet_decodes index).bind hdec (shrinks_decodeEnum _ variants) ?_ id
    intro hclosed
    refine ⟨trivial, ?_⟩
    by_cases hnil : payload = []
    · exact .inr hnil
    · exact .inl ⟨hnil, hclosed⟩
  | .struct fields, v, hv => fields.written v hv

theorem Variants.written : (variants : Variants) → (v : variants.Val) →
    variants.Fits v → ∃ index payload, variants.indexOf v = some index ∧
      encodeEnumType variants v = .ok (index :: payload) ∧
      Decodes Strictness.code (fun s => decodeEnum s variants index)
        (payload ≠ [] ∧ variants.Ends (· = 1) (· < 2 ^ 14) v)
        (variants.Ends (2 ≤ ·) (fun _ => True) v) payload v
  | .nil _, _, hv => hv.elim
  | .bare index rest, .inl (), _ => by
    refine ⟨index, [], rfl, rfl, ?_⟩
    simp only [decodeEnum, if_true]
    exact (Decodes.of_pure _).imp (fun h => h.1 rfl) (by nofun)
  | .bare index rest, .inr v, hv => by
    obtain ⟨i, payload, hindex, henc, hdec⟩ := rest.written v hv.2
    refine ⟨i, payload, hindex, henc, ?_⟩
    have hne : i ≠ index := fun heq => hv.1 (by rw [hindex, heq])
    simp only [decodeEnum, if_neg hne]
    exact hdec.bind_pure Sum.inr
  | .holding index t rest, .inl v, hv => by
    obtain ⟨payload, henc, hdec⟩ := t.written v hv
    refine ⟨index, payload, rfl, ?_, ?_⟩
    · rw [encodeEnumType, henc]
      rfl
    · simp only [decodeEnum, if_true]
      exact (hdec.bind_pure Sum.inl).imp And.right id
  | .holding index t rest, .inr v, hv => by
    obtain ⟨i, payload, hindex, henc, hdec⟩ := rest.written v hv.2
    refine ⟨i, payload, hindex, henc, ?_⟩
    have hne : i ≠ index := fun heq => hv.1 (by rw [hindex, heq])
    simp only [decodeEnum, if_neg hne]
    exact hdec.bind_pure Sum.inr

theorem Fields.written : (fields : Fields) → (v : fields.Val) →
    fields.Fits v → ∃ bytes, encodeStruct fields v = .ok bytes ∧
      Decodes Strictness.code (fun s => decodeStruct s fields)
        (fields.Ends (· = 1) (· < 2 ^ 14) v) (fields.Ends (2 ≤ ·) (fun _ => True) v) bytes v
  | .nil, _, _ => ⟨[], rfl, .of_pure _⟩
  | .field name t rest, v, hv => by
    obtain ⟨bytes, henc, hdec⟩ := t.written v.1 hv.1
    obtain ⟨bytes', henc', hdec'⟩ := rest.written v.2 hv.2
    refine ⟨bytes ++ bytes', ?_, written_cons hdec hdec' henc'⟩
    rw [encodeStruct, henc, henc']
    rfl
  | .tagged name length t rest, v, hv => by
    obtain ⟨bytes, henc, hdec⟩ := written_tagged hv.1
    obtain ⟨bytes', henc', hdec'⟩ := rest.written v.2 hv.2
    refine ⟨bytes ++ bytes', ?_, written_cons hdec hdec' henc'⟩
    rw [encodeStruct, henc, henc']
    rfl
  | .skipped _ t rest, (x, vs), hv => by
    obtain ⟨rfl, hvs⟩ := hv
    obtain ⟨bytes, henc, hdec⟩ := rest.written vs hvs
    exact ⟨bytes, henc, hdec.bind_pure (Prod.mk t.zero)⟩

end

theorem tagEnds_or {length : Nat} {t : Ty} {v : t.Val} (h : TagEnds (1 ≤ ·) length t v) :
    TagEnds (· = 1) length t v ∨ TagEnds (2 ≤ ·) length t v := by
  unfold TagEnds at *
  split at h
  · exact .inl rfl
  · exact (Nat.eq_or_lt_of_le h).imp_left Eq.symm

mutual

theorem Ty.closed_or_open : (t : Ty) → (v : t.Val) → t.Short v → t.Closed v ∨ t.Open v
  | .prim _, _, h => (Nat.eq_or_lt_of_le h).imp_left Eq.symm
  | .publicKey, _, _ => .inl rfl
  | .bytes, _, h => (Nat.eq_or_lt_of_le h).imp_left Eq.symm
  | .pointer _, none, _ => .inl rfl
  | .pointer t, some x, h => t.closed_or_open x h
  | .array _ t, _, ⟨x, hx, h⟩ =>
    (t.closed_or_open x h).imp (fun h => ⟨x, hx, h⟩) fun h => ⟨x, hx, h⟩
  | .slice _, _, ⟨hshort, .inl ⟨hnil, _⟩⟩ => .inl ⟨hshort, .inl ⟨hnil, rfl⟩⟩
  | .slice t, _, ⟨hshort, .inr ⟨x, hx, h⟩⟩ =>
    (t.closed_or_open x h).imp (fun h => ⟨hshort, .inr ⟨x, hx, h⟩⟩)
      fun h => ⟨trivial, .inr ⟨x, hx, h⟩⟩
  | .map _ _, _, ⟨hshort, .inl ⟨hnil, _⟩⟩ => .inl ⟨hshort, .inl ⟨hnil, rfl⟩⟩
  | .map _ t, _, ⟨hshort, .inr ⟨e, he, h⟩⟩ =>
    (t.closed_or_open e.2 h).imp (fun h => ⟨hshort, .inr ⟨e, he, h⟩⟩)
      fun h => ⟨trivial, .inr ⟨e, he, h⟩⟩
  | .enum variants, v, h => variants.closed_or_open v h
  | .struct fields, v, h => fields.closed_or_open v h

theorem Variants.closed_or_open : (variants : Variants) → (v : variants.Val) →
    variants.Ends (1 ≤ ·) (· < 2 ^ 14) v →
    variants.Ends (· = 1) (· < 2 ^ 14) v ∨ variants.Ends (2 ≤ ·) (fun _ => True) v
  | .bare _ _, .inl _, _ => .inl rfl
  | .bare _ rest, .inr v, h => rest.closed_or_open v h
  | .holding _ t _, .inl v, h => t.closed_or_open v h
  | .holding _ _ rest, .inr v, h => rest.closed_or_open v h

theorem Fields.closed_or_open : (fields : Fields) → (v : fields.Val) →
    fields.Ends (1 ≤ ·) (· < 2 ^ 14) v →
    fields.Ends (· = 1) (· < 2 ^ 14) v ∨ fields.Ends (2 ≤ ·) (fun _ => True) v
  | .field _ _ rest, v, .inl h => (rest.closed_or_open v.2 h).imp .inl .inl
  | .field _ t _, v, .inr ⟨hnil, h⟩ =>
    (t.closed_or_open v.1 h).imp (fun h => .inr ⟨hnil, h⟩) fun h => .inr ⟨hnil, h⟩
  | .tagged _ _ _ rest, v, .inl h => (rest.closed_or_open v.2 h).imp .inl .inl
  | .tagged _ _ _ _, _, .inr ⟨hnil, h⟩ =>
    (tagEnds_or h).imp (fun h => .inr ⟨hnil, h⟩) fun h => .inr ⟨hnil, h⟩
  | .skipped _ _ rest, v, h => rest.closed_or_open v.2 h

end

end Strawberry.Jam
