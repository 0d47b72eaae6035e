import Strawberry.Codec.RoundTrip

/-!
# Canonical decoding

A decoder that makes all the checks accepts only what the encoder writes.
-/

namespace Strawberry.Jam

open Strawberry.Decoder List

theorem readOctet_recovers : Recovers readOctet fun b bytes => bytes = [b] := by
  intro r b r' h
  cases r with
  | nil => cases h
  | cons c r =>
    cases h
    exact ⟨[b], rfl, rfl⟩

variable {n : Nat} {t : Ty}

theorem read_of_le {r : Reader} (h : n ≤ r.length) :
    read n r = .ok (r.take n, r.drop n) := by
  have hread := read_append (r.take n) (r.drop n)
  rwa [length_take, Nat.min_eq_left h, take_append_drop] at hread

theorem le_of_readWith {s : Strictness} {r r' : Reader} {buf : List UInt8}
    (hs : s.fullReads = true) (h : readWith s n r = .ok (buf, r')) : n ≤ r.length := by
  obtain ⟨hread, hfull⟩ := readWith_eq_ok.mp h
  rcases hfull hs with rfl | hle
  · by_cases hn : n = 0
    · exact Nat.le_of_eq hn
    · rw [read_nil hn] at hread
      cases hread
  · exact hle

theorem readWith_recovers {s : Strictness} (hs : s.fullReads = true) (n : Nat) :
    Recovers (readWith s n) fun buf bytes => bytes = buf ∧ buf.length = n := by
  intro r buf r' h
  have hle := le_of_readWith hs h
  have hread := (readWith_eq_ok.mp h).1
  rw [read_of_le hle] at hread
  cases hread
  exact ⟨r.take n, ⟨rfl, length_take_of_le hle⟩, (take_append_drop n r).symm⟩

theorem decodeUintWith_recovers :
    Recovers (decodeUintWith .canonical) fun x bytes => bytes = serializeUint64 x := by
  intro r x r' h
  exact ⟨serializeUint64 x, rfl, (decodeUintWith_eq_ok.mp h).2.2 rfl⟩

theorem decodeLength_recovers :
    Recovers (decodeLength .canonical) fun n bytes => bytes = encodeLength n := by
  refine decodeUintWith_recovers.mapError.map ?_
  rintro x _ rfl
  rw [encodeLength, UInt64.ofNat_toNat]

theorem decodeWidth_recovers (w : Width) (length : Nat) :
    Recovers (decodeWidth .canonical w length) fun x bytes => bytes = toLE length (w.toNat x) := by
  refine (readWith_recovers rfl length).mapError.bind ?_
  rintro _ buf ⟨rfl, hlength⟩
  refine recovers_require fun hfits => recovers_pure ?_
  have hfits : leNat buf < 256 ^ w.octets := by simpa [Strictness.canonical] using hfits
  rw [append_nil, w.toNat_wrap hfits, ← hlength, toLE_leNat]

theorem decodeBytes_recovers :
    Recovers (decodeBytes .canonical) fun v bytes => bytes = encodeBytes v := by
  refine decodeLength_recovers.bind ?_
  rintro n _ rfl
  refine recovers_require fun _ => (readWith_recovers rfl n).imp ?_
  rintro v _ ⟨rfl, rfl⟩
  rfl

theorem decodeEd25519PublicKey_recovers :
    Recovers decodeEd25519PublicKey fun key bytes => bytes = key.toList := by
  refine (readWith_recovers rfl 32).map ?_
  rintro bytes _ ⟨rfl, hlength⟩
  exact (toList_toArray hlength).symm

theorem readFlag_recovers (zero one : Bool) (e : JamError) :
    Recovers (readFlag zero one e) fun b bytes =>
      (b = zero ∧ bytes = [0]) ∨ (b = one ∧ bytes = [1]) := by
  refine readOctet_recovers.bind ?_
  rintro c _ rfl
  by_cases hzero : c = 0
  · rw [if_pos hzero, hzero]
    exact recovers_pure (.inl ⟨rfl, rfl⟩)
  · rw [if_neg hzero]
    by_cases hone : c = 1
    · rw [if_pos hone, hone]
      exact recovers_pure (.inr ⟨rfl, rfl⟩)
    · rw [if_neg hone]
      exact recovers_fail e

theorem unmarshalPrim_recovers (p : Prim) :
    Recovers (unmarshalPrim .canonical p) fun v bytes => bytes = marshalPrim p v := by
  cases p with
  | bool =>
    refine (readFlag_recovers false true _).imp ?_
    rintro b _ (⟨rfl, rfl⟩ | ⟨rfl, rfl⟩)
    · rfl
    · rfl
  | fixed w => exact decodeWidth_recovers w _
  | uint => exact decodeUintWith_recovers
  | int =>
    refine decodeUintWith_recovers.map ?_
    rintro x _ rfl
    change _ = serializeUint64 x.toInt64.toUInt64
    rw [UInt64.toUInt64_toInt64]

theorem flatten_of_octets {octets : List UInt8} {parts : List (List UInt8)}
    (h : List.Forall₂ (fun x bytes => bytes = toLE 1 (UInt8.toNat x)) octets parts) :
    parts.flatten = octets := by
  induction h with
  | nil => rfl
  | @cons x part xs parts hx _ ih =>
    have hoctet : toLE 1 x.toNat = [x] := by
      change [UInt8.ofNat x.toNat] = [x]
      rw [UInt8.ofNat_toNat]
    rw [flatten_cons, ih, hx, hoctet, singleton_append]

theorem unmarshalKey_recovers (key : KeyTy) :
    Recovers (unmarshalKey .canonical key) fun k bytes => bytes = marshalKey key k := by
  cases key with
  | prim p => exact unmarshalPrim_recovers p
  | byteArray n =>
    refine ((decodeWidth_recovers .w8 1).many n).map ?_
    rintro octets _ ⟨hlength, parts, hparts, rfl⟩
    rw [flatten_of_octets hparts]
    exact (toList_toArray hlength).symm

/-- What the canonical decoder accepts is what the encoder writes. -/
abbrev Ty.Canonical (t : Ty) : Prop :=
  Recovers (unmarshalWith .canonical t) fun v bytes => marshal t v = .ok bytes

theorem marshal_many_recovers (h : t.Canonical) (n : Nat) :
    Recovers (many (unmarshalWith .canonical t) n) fun vs bytes => vs.length = n ∧
      ∃ parts, vs.mapM (marshal t) = Call.ok parts ∧ bytes = parts.flatten := by
  refine (h.many n).imp ?_
  rintro vs _ ⟨hlength, parts, hparts, rfl⟩
  exact ⟨hlength, parts, Call.mapM_eq_ok.mpr hparts, rfl⟩

theorem pointee_recovers {α : Type} {d : Decoder α} {enc : α → List UInt8 → Prop}
    (h : Recovers d enc) :
    Recovers (do
      let isNil ← readPointerMarker
      if isNil then return none
      else return some (← d) : Decoder (Option α)) fun v bytes =>
        (v = none ∧ bytes = [0]) ∨ ∃ x tail, v = some x ∧ enc x tail ∧ bytes = 1 :: tail := by
  refine (readFlag_recovers true false _).bind ?_
  rintro isNil _ (⟨rfl, rfl⟩ | ⟨rfl, rfl⟩)
  · exact recovers_pure (.inl ⟨rfl, rfl⟩)
  · exact h.map fun x tail htail => .inr ⟨x, tail, rfl, htail, rfl⟩

theorem pointer_recovers (ht : t.isEnum = false) (h : t.Canonical) : (Ty.pointer t).Canonical := by
  refine (pointee_recovers h).imp ?_
  rintro v _ (⟨rfl, rfl⟩ | ⟨x, tail, rfl, htail, rfl⟩)
  · rw [marshal, ht]
    rfl
  · rw [marshal, ht, htail]
    rfl

theorem array_recovers (h : t.Canonical) : (Ty.array n t).Canonical := by
  refine (marshal_many_recovers h n).map ?_
  rintro vs _ ⟨rfl, parts, hparts, rfl⟩
  have hlist : (Vector.ofFn fun i : Fin vs.length => vs.getD i t.zero).toList = vs := by
    apply ext_getElem
    · rw [Vector.length_toList]
    · simp
  rw [marshal, hlist, hparts]
  rfl

theorem slice_recovers (h : t.Canonical) : (Ty.slice t).Canonical := by
  refine decodeLength_recovers.bind ?_
  rintro n _ rfl
  refine (marshal_many_recovers h n).imp ?_
  rintro vs _ ⟨rfl, parts, hparts, rfl⟩
  rw [marshal, hparts]
  rfl

theorem sortedEntries_assign {α : Type} {key : KeyTy} {entries : List (key.Val × α)}
    (h : increasing key entries = true) :
    sortedEntries key (GoMap.assign ∅ entries) = entries := by
  have hincreasing : (entries.map Prod.fst).Pairwise fun a b => key.rank a < key.rank b :=
    pairwise_map.mpr (of_decide_eq_true h)
  have hnodup : (entries.map Prod.fst).Nodup := by
    refine hincreasing.imp ?_
    intro a b hlt heq
    rw [heq] at hlt
    exact Nat.lt_irrefl _ hlt
  rw [sortedEntries, GoMap.keys_assign_empty,
    GoMap.Traversal.sorted_toFinset key.unrank_rank hincreasing, GoMap.entriesAt_assign hnodup]

theorem readEntry_recovers (key : KeyTy) (h : t.Canonical) :
    Recovers (readEntry .canonical key (unmarshalWith .canonical t)) fun e bytes =>
      (marshalKey key e.1 ++ ·) <$> marshal t e.2 = Call.ok bytes := by
  refine (unmarshalKey_recovers key).mapError.bind ?_
  rintro k _ rfl
  refine h.mapError.map fun v bytes hbytes => ?_
  rw [hbytes]
  rfl

theorem map_recovers (key : KeyTy) (h : t.Canonical) : (Ty.map key t).Canonical := by
  refine decodeLength_recovers.mapError.bind ?_
  rintro n _ rfl
  refine ((readEntry_recovers key h).many n).bind ?_
  rintro entries _ ⟨rfl, parts, hparts, rfl⟩
  refine recovers_require fun hincreasing => recovers_pure ?_
  have hsorted : sortedEntries key (GoMap.assign ∅ entries) = entries :=
    sortedEntries_assign hincreasing
  have hlen : (GoMap.assign ∅ entries : GoMap key.Val t.Val).len = entries.length := by
    rw [← length_sortedEntries, hsorted]
  rw [append_nil, marshal, hsorted, hlen, Call.mapM_eq_ok.mpr hparts]
  rfl

theorem decodeKind_recovers (length : Nat) (t : Ty) :
    Recovers (decodeKind .canonical length t) fun v bytes => encodeWidth length t v = .ok bytes := by
  unfold decodeKind
  split
  · next w => exact (decodeWidth_recovers w length).imp fun v _ hbytes => by rw [hbytes]; rfl
  · exact (readWith_recovers rfl length).mapError.bind fun _ _ _ => recovers_fail _

theorem tagged_recovers (length : Nat) (t : Ty) :
    Recovers (decodeFixedWidthWith .canonical length t) fun v bytes =>
      encodeFixedWidth length t v = .ok bytes := by
  cases t with
  | pointer t =>
    refine (pointee_recovers (decodeKind_recovers length t)).imp ?_
    rintro v _ (⟨rfl, rfl⟩ | ⟨x, tail, rfl, htail, rfl⟩)
    · rfl
    · change (1 :: ·) <$> encodeWidth length t x = _
      rw [htail]
      rfl
  | prim _ | publicKey | bytes | array _ _ | slice _ | map _ _ | enum _ | struct _ =>
    exact decodeKind_recovers length _

mutual

theorem Ty.recovers : (t : Ty) → t.Supported → t.Canonical
  | .prim p, _ => (unmarshalPrim_recovers p).imp fun _ _ hbytes => congrArg Call.ok hbytes.symm
  | .publicKey, _ => decodeEd25519PublicKey_recovers.imp fun _ _ hbytes => congrArg Call.ok hbytes.symm
  | .bytes, _ => decodeBytes_recovers.imp fun _ _ hbytes => congrArg Call.ok hbytes.symm
  | .pointer t, ht => pointer_recovers ht.1 (t.recovers ht.2)
  | .array _ t, ht => array_recovers (t.recovers ht)
  | .slice t, ht => slice_recovers (t.recovers ht)
  | .map key t, ht => map_recovers key (t.recovers ht)
  | .enum variants, ht => by
    refine readOctet_recovers.bind ?_
    rintro b _ rfl
    exact variants.recovers ht b
  | .struct fields, ht => fields.recovers ht

theorem Variants.recovers : (variants : Variants) → variants.Supported → (b : UInt8) →
    Recovers (decodeEnum .canonical variants b) fun v bytes =>
      encodeEnumType variants v = .ok (b :: bytes)
  | .nil unknown, _, _ => recovers_fail unknown
  | .bare index rest, ht, b => by
    rw [decodeEnum]
    by_cases hb : b = index
    · rw [if_pos hb, hb]
      exact recovers_pure rfl
    · rw [if_neg hb]
      exact (rest.recovers ht b).map fun _ _ => id
  | .holding index t rest, ht, b => by
    rw [decodeEnum]
    by_cases hb : b = index
    · rw [if_pos hb, hb]
      refine (t.recovers ht.1).map fun v bytes hbytes => ?_
      rw [encodeEnumType, hbytes]
      rfl
    · rw [if_neg hb]
      exact (rest.recovers ht.2 b).map fun _ _ => id

theorem Fields.recovers : (fields : Fields) → fields.Supported →
    Recovers (decodeStruct .canonical fields) fun v bytes => encodeStruct fields v = .ok bytes
  | .nil, _ => recovers_pure rfl
  | .field name t rest, ht =>
    (t.recovers ht.1).mapError.bind fun _ _ hhead => (rest.recovers ht.2).map fun _ _ htail => by
      rw [encodeStruct, hhead, htail]
      rfl
  | .tagged name length t rest, ht =>
    (tagged_recovers length t).mapError.bind fun _ _ hhead =>
      (rest.recovers ht).map fun _ _ htail => by
        rw [encodeStruct, hhead, htail]
        rfl
  | .skipped _ _ rest, ht => (rest.recovers ht).map fun _ _ => id

end

theorem decodeLength_yields (s : Strictness) : Yields (decodeLength s) (· < 2 ^ 64) := by
  have hany : Yields (decodeUintWith s) fun _ => True := fun _ _ _ _ => trivial
  exact hany.mapError.bind fun x _ => yields_pure (UInt64.toNat_lt x)

theorem decodeBytes_yields (s : Strictness) : Yields (decodeBytes s) (·.length ≤ maxUint32) := by
  intro r v r' hrun
  obtain ⟨n, r₁, -, hrun⟩ := Decoder.bind_eq_ok.mp hrun
  obtain ⟨_, r₂, hcheck, hread⟩ := Decoder.bind_eq_ok.mp hrun
  have hn : n ≤ maxUint32 := of_decide_eq_true (require_eq_ok.mp hcheck).1
  exact Nat.le_trans (Nat.le_of_eq (read_length (readWith_eq_ok.mp hread).1)) hn

theorem decodeWidth_yields (s : Strictness) (w : Width) (length : Nat) :
    Yields (decodeWidth s w length) fun x => w.toNat x < 256 ^ length := by
  intro r x r' hrun
  obtain ⟨buf, r₁, hbuf, hrun⟩ := Decoder.bind_eq_ok.mp hrun
  obtain ⟨_, r₂, -, hpure⟩ := Decoder.bind_eq_ok.mp hrun
  obtain ⟨rfl, -⟩ := Decoder.pure_eq_ok.mp hpure
  have hlength := read_length (readWith_eq_ok.mp (mapError_eq_ok.mp hbuf)).1
  have hlt := leNat_lt buf
  rw [hlength] at hlt
  exact Nat.lt_of_le_of_lt (w.toNat_wrap_le _) hlt

theorem widthFits_of_decoded (s : Strictness) (length : Nat) (t : Ty) :
    Yields (decodeKind s length t) (WidthFits length t) := by
  unfold decodeKind
  split
  · exact decodeWidth_yields s _ length
  · have hany : Yields (readWith s length) fun _ => True := fun _ _ _ _ => trivial
    exact hany.mapError.bind fun _ _ => yields_fail _

theorem pointee_of_decoded {α : Type} {d : Decoder α} {P : α → Prop} (h : Yields d P)
    (marker : Decoder Bool) : Yields (do
      if ← marker then return none
      else return some (← d)) fun v => ∀ x, v = some x → P x := by
  intro r v r' hrun
  obtain ⟨isNil, r₁, -, hpointee⟩ := Decoder.bind_eq_ok.mp hrun
  cases isNil with
  | true =>
    obtain ⟨rfl, -⟩ := Decoder.pure_eq_ok.mp hpointee
    exact nofun
  | false =>
    obtain ⟨y, r₂, hy, hpure⟩ := Decoder.bind_eq_ok.mp hpointee
    obtain ⟨rfl, -⟩ := Decoder.pure_eq_ok.mp hpure
    rintro _ ⟨⟩
    exact h r₁ y r₂ hy

theorem tagFits_of_decoded (s : Strictness) (length : Nat) (t : Ty) :
    Yields (decodeFixedWidthWith s length t) (TagFits length t) := by
  cases t with
  | pointer t => exact pointee_of_decoded (widthFits_of_decoded s length t) _
  | prim _ | publicKey | bytes | array _ _ | slice _ | map _ _ | enum _ | struct _ =>
    exact widthFits_of_decoded s length _

mutual

theorem Ty.fits_of_decoded (s : Strictness) : (t : Ty) → t.Supported →
    Yields (unmarshalWith s t) t.Fits
  | .prim _, _ => fun _ _ _ _ => trivial
  | .publicKey, _ => fun _ _ _ _ => trivial
  | .bytes, _ => decodeBytes_yields s
  | .pointer t, ht => fun r v r' hrun =>
    ⟨ht.1, pointee_of_decoded (t.fits_of_decoded s ht.2) _ r v r' hrun⟩
  | .array n t, ht => by
    refine ((t.fits_of_decoded s ht).many n).bind fun vs hvs => yields_pure ?_
    intro x hx
    obtain ⟨i, rfl⟩ := mem_ofFn.mp (by rwa [Vector.toList_ofFn] at hx)
    have hi : i.val < vs.length := by rw [hvs.1]; exact i.isLt
    rw [getD_eq_getElem?_getD, List.getElem?_eq_getElem hi, Option.getD_some]
    exact hvs.2 _ (getElem_mem hi)
  | .slice t, ht => by
    refine (decodeLength_yields s).bind fun n hn => ?_
    intro r vs r' hrun
    obtain ⟨rfl, hvs⟩ := (t.fits_of_decoded s ht).many n r vs r' hrun
    exact ⟨hn, hvs⟩
  | .map key t, ht => by
    refine (decodeLength_yields s).mapError.bind fun n hn => ?_
    have hentry : Yields (readEntry s key (unmarshalWith s t)) fun e => t.Fits e.2 := by
      have hany : Yields (unmarshalKey s key) fun _ => True := fun _ _ _ _ => trivial
      exact hany.mapError.bind fun k _ =>
        (t.fits_of_decoded s ht).mapError.bind fun v hv => yields_pure hv
    refine (hentry.many n).bind fun entries hentries => ?_
    have hany : Yields (require (!s.increasingKeys || increasing key entries)
        JamError.notCanonical : Decoder Unit) fun _ => True := fun _ _ _ _ => trivial
    refine hany.bind fun _ _ => yields_pure ⟨?_, ?_⟩
    · have hlen : (GoMap.assign ∅ entries : GoMap key.Val t.Val).len ≤ entries.length :=
        GoMap.len_assign_empty_le
      rw [hentries.1] at hlen
      exact Nat.lt_of_le_of_lt hlen hn
    · intro k x hx
      rcases GoMap.lookup_foldl_insert hx with hx | ⟨e, he, -, rfl⟩
      · cases hx
      · exact hentries.2 e he
  | .enum variants, ht => by
    intro r v r' hrun
    obtain ⟨b, r₁, -, hrun⟩ := Decoder.bind_eq_ok.mp hrun
    exact (variants.fits_of_decoded s ht b r₁ v r' hrun).2
  | .struct fields, ht => fields.fits_of_decoded s ht

theorem Variants.fits_of_decoded (s : Strictness) : (variants : Variants) → variants.Supported →
    (b : UInt8) → Yields (decodeEnum s variants b) fun v => variants.indexOf v = some b ∧ variants.Fits v
  | .nil unknown, _, _ => yields_fail unknown
  | .bare index rest, ht, b => by
    rw [decodeEnum]
    by_cases hb : b = index
    · rw [if_pos hb]
      exact yields_pure ⟨by rw [hb]; rfl, trivial⟩
    · rw [if_neg hb]
      refine (rest.fits_of_decoded s ht b).bind fun v hv => yields_pure ⟨hv.1, ?_, hv.2⟩
      rw [hv.1]
      exact fun heq => hb (Option.some.inj heq)
  | .holding index t rest, ht, b => by
    rw [decodeEnum]
    by_cases hb : b = index
    · rw [if_pos hb]
      exact (t.fits_of_decoded s ht.1).bind fun v hv => yields_pure ⟨by rw [hb]; rfl, hv⟩
    · rw [if_neg hb]
      refine (rest.fits_of_decoded s ht.2 b).bind fun v hv => yields_pure ⟨hv.1, ?_, hv.2⟩
      rw [hv.1]
      exact fun heq => hb (Option.some.inj heq)

theorem Fields.fits_of_decoded (s : Strictness) : (fields : Fields) → fields.Supported →
    Yields (decodeStruct s fields) fields.Fits
  | .nil, _ => fun _ _ _ _ => trivial
  | .field _ t rest, ht =>
    (t.fits_of_decoded s ht.1).mapError.bind fun _ hv =>
      (rest.fits_of_decoded s ht.2).bind fun _ hvs => yields_pure ⟨hv, hvs⟩
  | .tagged _ length t rest, ht =>
    (tagFits_of_decoded s length t).mapError.bind fun _ hv =>
      (rest.fits_of_decoded s ht).bind fun _ hvs => yields_pure ⟨hv, hvs⟩
  | .skipped _ _ rest, ht =>
    (rest.fits_of_decoded s ht).bind fun _ hvs => yields_pure ⟨rfl, hvs⟩

end

theorem marshal_eq_iff_canonical (ht : t.Supported) {data rest : List UInt8} {v : t.Val}
    (h : unmarshal t data = .ok (v, rest)) :
    marshal t v = .ok data ↔ rest = [] ∧ unmarshalWith .canonical t data = .ok (v, []) := by
  constructor
  · intro hencode
    obtain ⟨bytes, hbytes, hdecodes⟩ := t.written v (t.fits_of_decoded .code ht data v rest h)
    rw [hencode] at hbytes
    cases hbytes
    have hcode := hdecodes.reads .code []
    have hcanonical := hdecodes.reads .canonical []
    rw [append_nil] at hcode hcanonical
    have hrest := h.symm.trans hcode
    cases hrest
    exact ⟨rfl, hcanonical⟩
  · rintro ⟨-, hcanonical⟩
    obtain ⟨bytes, hbytes, hdata⟩ := t.recovers ht data v [] hcanonical
    rw [hdata, append_nil]
    exact hbytes

end Strawberry.Jam
