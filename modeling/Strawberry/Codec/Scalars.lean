import Strawberry.Codec.Marshal

/-!
# Scalars on the wire

What the decoders of single values do with an encoding and with its parts.
-/

namespace Strawberry.Jam

open Strawberry.Decoder List

theorem prefix_singleton {b : UInt8} {p : List UInt8} (hp : p <+: [b]) (hne : p ≠ [b]) :
    p = [] := by
  have hlt : p.length < [b].length :=
    Nat.lt_of_le_of_ne hp.length_le fun h => hne (hp.eq_of_length h)
  exact eq_nil_of_length_eq_zero (Nat.lt_one_iff.mp hlt)

theorem readOctet_decodes (b : UInt8) :
    Decodes Strictness.code (fun _ => readOctet) True False [b] b where
  reads _ _ := rfl
  accepts := False.elim
  drains := by
    intro p hp hne a r' hrun
    rw [prefix_singleton hp hne] at hrun
    cases hrun
  refuses _ := by
    refine ⟨cons_ne_nil _ _, ?_⟩
    intro p hp hne x hrun
    rw [prefix_singleton hp hne] at hrun
    cases hrun

theorem shrinks_readOctet : Shrinks readOctet := by
  intro r b r' h
  cases r with
  | nil => cases h
  | cons c r =>
    cases h
    exact suffix_cons _ _

variable {n : Nat} {r r' : Reader} {buf : List UInt8} {s : Strictness} {lead : UInt8} {x : UInt64}

theorem read_nil (h : n ≠ 0) : read n [] = .error .eof := by
  rw [read, if_neg h, if_pos rfl]

theorem read_short (hn : n ≠ 0) (hr : r ≠ []) (hle : r.length ≤ n) :
    ∃ buf, read n r = .ok (buf, []) := by
  refine ⟨r ++ List.replicate (n - r.length) 0, ?_⟩
  rw [read, if_neg hn, if_neg hr]
  simp [hle]

theorem read_rest (h : read n r = .ok (buf, r')) : r' = r.drop n := by
  unfold read at h
  split at h
  · next hn =>
    cases h
    rw [hn, drop_zero]
  · split at h
    · cases h
    · cases h
      rfl

theorem readWith_eq_ok : readWith s n r = .ok (buf, r') ↔
      read n r = .ok (buf, r') ∧ (s.fullReads = true → r = [] ∨ n ≤ r.length) := by
  unfold readWith
  by_cases hshort : s.fullReads && !r.isEmpty && r.length < n
  · rw [if_pos hshort]
    simp only [Bool.and_eq_true, Bool.not_eq_true', isEmpty_eq_false_iff,
      decide_eq_true_eq] at hshort
    obtain ⟨⟨hfull, hne⟩, hlt⟩ := hshort
    refine iff_of_false nofun ?_
    rintro ⟨-, h⟩
    rcases h hfull with hnil | hle
    · exact hne hnil
    · omega
  · rw [if_neg hshort]
    simp only [Bool.and_eq_true, Bool.not_eq_true', isEmpty_eq_false_iff,
      decide_eq_true_eq, not_and, Nat.not_lt] at hshort
    refine (and_iff_left ?_).symm
    intro hfull
    by_cases hnil : r = []
    · exact .inl hnil
    · exact .inr (hshort ⟨hfull, hnil⟩)

theorem shrinks_readWith (s : Strictness) (n : Nat) : Shrinks (readWith s n) := by
  intro r buf r' h
  rw [read_rest (readWith_eq_ok.mp h).1]
  exact drop_suffix n r

theorem readWith_reads (s : Strictness) (bytes : List UInt8) :
    Reads (readWith s bytes.length) bytes bytes := by
  intro rest
  rw [readWith_eq_ok]
  refine ⟨read_append bytes rest, fun _ => .inr ?_⟩
  rw [length_append]
  exact Nat.le_add_right _ _

theorem readWith_decodes (bytes : List UInt8) :
    Decodes Strictness.code (fun s => readWith s bytes.length) (bytes.length = 1)
      (2 ≤ bytes.length) bytes bytes where
  reads s := readWith_reads s bytes
  drains := by
    intro p hp hne buf r' hrun
    rw [read_rest (readWith_eq_ok.mp hrun).1]
    exact drop_eq_nil_of_le hp.length_le
  refuses hone := by
    refine ⟨ne_nil_of_length_pos (by omega), ?_⟩
    intro p hp hne x hrun
    have hlt : p.length < bytes.length :=
      Nat.lt_of_le_of_ne hp.length_le fun h => hne (hp.eq_of_length h)
    have hnil : p = [] := eq_nil_of_length_eq_zero (by omega)
    rw [hnil, hone] at hrun
    cases hrun
  accepts htwo := by
    have hlength : bytes.dropLast.length = bytes.length - 1 := length_dropLast
    obtain ⟨buf, hbuf⟩ := read_short (show bytes.length ≠ 0 by omega)
      (ne_nil_of_length_pos (show 0 < bytes.dropLast.length by omega)) (by omega)
    exact ⟨htwo, buf, readWith_eq_ok.mpr ⟨hbuf, nofun⟩⟩

theorem shortUint_append {bytes rest : List UInt8}
    (h : bytes.length = octetsAfter lead) : shortUint (lead :: (bytes ++ rest)) = false := by
  change (!(bytes ++ rest).isEmpty && decide ((bytes ++ rest).length < octetsAfter lead)) = false
  rw [← h]
  simp

theorem decodeUint_rest
    (h : decodeUint (lead :: r) = .ok (x, r')) : r' = r.drop (octetsAfter lead) := by
  have hlead : read 1 (lead :: r) = .ok ([lead], r) := read_append [lead] r
  have hlen : 8 - len8 (~~~lead) = octetsAfter lead := rfl
  simp only [decodeUint, hlead, headD_cons, hlen] at h
  cases hread : read (octetsAfter lead) r with
  | error e =>
    rw [hread] at h
    cases h
  | ok result =>
    rw [hread] at h
    simp only at h
    rw [← read_rest (show read (octetsAfter lead) r = .ok (result.1, result.2) from hread)]
    split at h
    · cases h
      rfl
    · cases h
      rfl

theorem decodeUint_short (hr : r ≠ []) (hlead : r.length ≤ octetsAfter lead) :
    ∃ x, decodeUint (lead :: r) = .ok (x, []) := by
  have hread : read 1 (lead :: r) = .ok ([lead], r) := read_append [lead] r
  have hlen : 8 - len8 (~~~lead) = octetsAfter lead := rfl
  have hpos := length_pos_of_ne_nil hr
  obtain ⟨buf, hbuf⟩ := read_short (show octetsAfter lead ≠ 0 by omega) hr hlead
  simp only [decodeUint, hread, headD_cons, hlen, hbuf]
  split
  · exact ⟨_, rfl⟩
  · exact ⟨_, rfl⟩

theorem decodeUint_lead (h : octetsAfter lead ≠ 0) (x : UInt64 × Reader) :
    decodeUint [lead] ≠ .ok x := by
  have hlead : read 1 [lead] = .ok ([lead], []) := rfl
  have hlen : 8 - len8 (~~~lead) = octetsAfter lead := rfl
  have hread := read_nil h
  intro hrun
  simp only [decodeUint, hlead, headD_cons, hlen, hread] at hrun
  cases hrun

theorem decodeUintWith_eq_ok : decodeUintWith s r = .ok (x, r') ↔ decodeUint r = .ok (x, r') ∧
      (s.fullReads = true → shortUint r = false) ∧
      (s.shortestNaturals = true → r = serializeUint64 x ++ r') := by
  unfold decodeUintWith
  by_cases hshort : s.fullReads && shortUint r
  · rw [if_pos hshort]
    rw [Bool.and_eq_true] at hshort
    refine iff_of_false nofun ?_
    rintro ⟨-, h, -⟩
    rw [h hshort.1] at hshort
    cases hshort.2
  · rw [if_neg hshort]
    rw [Bool.and_eq_true, not_and, Bool.not_eq_true] at hshort
    cases hrun : decodeUint r with
    | error e => exact iff_of_false nofun nofun
    | ok result =>
      obtain ⟨y, r₁⟩ := result
      simp only
      by_cases hlong : s.shortestNaturals && r ≠ serializeUint64 y ++ r₁
      · rw [if_pos hlong]
        rw [Bool.and_eq_true, decide_eq_true_eq] at hlong
        refine iff_of_false nofun ?_
        rintro ⟨h, -, hshortest⟩
        cases h
        exact hlong.2 (hshortest hlong.1)
      · rw [if_neg hlong]
        rw [Bool.and_eq_true, decide_eq_true_eq, not_and, not_not] at hlong
        constructor
        · intro h
          cases h
          exact ⟨rfl, hshort, hlong⟩
        · exact And.left

theorem shrinks_decodeUintWith (s : Strictness) : Shrinks (decodeUintWith s) := by
  intro r x r' h
  obtain ⟨hrun, -, -⟩ := decodeUintWith_eq_ok.mp h
  cases r with
  | nil => cases hrun
  | cons lead r =>
    rw [decodeUint_rest hrun]
    exact (drop_suffix _ _).trans (suffix_cons lead r)

theorem decodeUintWith_reads (s : Strictness) (x : UInt64) :
    Reads (decodeUintWith s) (serializeUint64 x) x := by
  intro rest
  rw [decodeUintWith_eq_ok]
  refine ⟨decodeUint_serializeUint64 x rest, fun _ => ?_, fun _ => rfl⟩
  obtain ⟨lead, hx, hlead⟩ := serializeUint64_eq x
  rw [hx, cons_append]
  exact shortUint_append (by rw [length_toLE, hlead])

theorem decodeUintWith_decodes (x : UInt64) :
    Decodes Strictness.code decodeUintWith (max 1 (uint64Length x) = 1)
      (2 ≤ max 1 (uint64Length x)) (serializeUint64 x) x := by
  obtain ⟨lead, hx, hlead⟩ := serializeUint64_eq x
  have hcut : ∀ p, p <+: serializeUint64 x → p ≠ serializeUint64 x → p = [] ∨
      ∃ q, p = lead :: q ∧ q.length < octetsAfter lead := by
    intro p hp hne
    rw [hx] at hp hne
    cases p with
    | nil => exact .inl rfl
    | cons c q =>
      obtain ⟨rfl, hq⟩ := cons_prefix_cons.mp hp
      refine .inr ⟨q, rfl, ?_⟩
      rw [hlead, ← length_toLE (uint64Length x) x.toNat]
      exact Nat.lt_of_le_of_ne hq.length_le fun h => hne (by rw [hq.eq_of_length h])
  refine ⟨fun s => decodeUintWith_reads s x, ?_, ?_, ?_⟩
  · intro p hp hne y r' hrun
    have hrun := (decodeUintWith_eq_ok.mp hrun).1
    rcases hcut p hp hne with rfl | ⟨q, rfl, hq⟩
    · cases hrun
    · rw [decodeUint_rest hrun]
      exact drop_eq_nil_of_le (Nat.le_of_lt hq)
  · intro hone
    refine ⟨by rw [hx]; exact cons_ne_nil _ _, ?_⟩
    intro p hp hne y hrun
    have hrun := (decodeUintWith_eq_ok.mp
      (show decodeUintWith .code p = .ok (y.1, y.2) from hrun)).1
    rcases hcut p hp hne with rfl | ⟨q, rfl, hq⟩
    · cases hrun
    · have hnil : q = [] := eq_nil_of_length_eq_zero (by omega)
      subst hnil
      exact decodeUint_lead (by omega) _ hrun
  · intro htwo
    have hlength : (toLE (uint64Length x) x.toNat).length = uint64Length x := length_toLE _ _
    have hne : toLE (uint64Length x) x.toNat ≠ [] := ne_nil_of_length_pos (by omega)
    have hcut : (toLE (uint64Length x) x.toNat).dropLast.length = uint64Length x - 1 := by
      rw [length_dropLast, hlength]
    obtain ⟨y, hy⟩ := decodeUint_short (r := (toLE (uint64Length x) x.toNat).dropLast)
      (ne_nil_of_length_pos (by omega)) (show _ ≤ octetsAfter lead by omega)
    refine ⟨by rw [hx, length_cons]; omega, y, ?_⟩
    rw [hx, dropLast_cons_of_ne_nil hne]
    exact decodeUintWith_eq_ok.mpr ⟨hy, nofun, nofun⟩

theorem decodeLength_decodes (hn : n < 2 ^ 64) :
    Decodes Strictness.code decodeLength (n < 2 ^ 14) False (encodeLength n) n := by
  have h : Decodes Strictness.code decodeLength (max 1 (uint64Length (.ofNat n)) = 1) _
      (encodeLength n) (UInt64.ofNat n).toNat :=
    (decodeUintWith_decodes (UInt64.ofNat n)).mapError.bind_pure UInt64.toNat
  have hn : (UInt64.ofNat n).toNat = n := UInt64.toNat_ofNat_of_lt' hn
  rw [hn] at h
  refine h.imp (fun hshort => ?_) False.elim
  have hone := uint64Length_le_of_lt (x := UInt64.ofNat n) (show 1 < 8 by decide)
    (by rw [hn]; exact hshort)
  omega

theorem shrinks_decodeLength (s : Strictness) : Shrinks (decodeLength s) :=
  (shrinks_decodeUintWith s).mapError.bind fun _ => shrinks_pure _

theorem decodeWidth_decodes (w : Width) {length : Nat} {x : w.Val} (hx : w.toNat x < 256 ^ length) :
    Decodes Strictness.code (fun s => decodeWidth s w length) (length = 1) (2 ≤ length)
      (toLE length (w.toNat x)) x := by
  have hfits : leNat (toLE length (w.toNat x)) = w.toNat x := by
    rw [leNat_toLE, Nat.mod_eq_of_lt hx]
  have hread := readWith_decodes (toLE length (w.toNat x))
  rw [length_toLE] at hread
  refine hread.mapError.finish ?_ ?_ fun _ _ => ⟨_, rfl⟩
  · intro s rest
    have hcheck : (!s.shortestNaturals || decide (w.toNat x < 256 ^ w.octets)) = true := by
      simp [w.toNat_lt x]
    simp only [hfits, hcheck, w.wrap_toNat]
    rfl
  · intro buf
    exact (shrinks_require _ _).bind fun _ => shrinks_pure _

theorem shrinks_decodeWidth (s : Strictness) (w : Width) (length : Nat) :
    Shrinks (decodeWidth s w length) :=
  (shrinks_readWith s length).mapError.bind fun _ =>
    (shrinks_require _ _).bind fun _ => shrinks_pure _

theorem decodeBytes_decodes {v : List UInt8} (hv : v.length ≤ maxUint32) :
    Decodes Strictness.code decodeBytes (max 1 v.length = 1) (2 ≤ max 1 v.length)
      (encodeBytes v) v := by
  have hlength := decodeLength_decodes (n := v.length) (by unfold maxUint32 at hv; omega)
  refine hlength.bind ((readWith_decodes v).require fun _ => decide_eq_true hv) ?_ ?_
    fun hopen => by omega
  · intro length
    exact (shrinks_require _ _).bind fun _ => shrinks_readWith _ _
  · intro hclosed
    refine ⟨by omega, ?_⟩
    by_cases hone : v.length = 1
    · exact .inl hone
    · exact .inr (eq_nil_of_length_eq_zero (by omega))

theorem shrinks_decodeBytes (s : Strictness) : Shrinks (decodeBytes s) :=
  (shrinks_decodeLength s).bind fun _ =>
    (shrinks_require _ _).bind fun _ => shrinks_readWith _ _

theorem readFull_refuses (bytes : List UInt8) : Refuses (readWith .full bytes.length) bytes := by
  intro p hp hne x hrun
  have hlt : p.length < bytes.length :=
    Nat.lt_of_le_of_ne hp.length_le fun h => hne (hp.eq_of_length h)
  obtain ⟨hread, hfull⟩ :=
    readWith_eq_ok.mp (show readWith .full bytes.length p = .ok (x.1, x.2) from hrun)
  rcases hfull rfl with rfl | hle
  · rw [read_nil (Nat.ne_of_gt hlt)] at hread
    cases hread
  · omega

theorem decodeEd25519PublicKey_decodes (key : Ed25519Key) :
    Decodes Strictness.code (fun _ => decodeEd25519PublicKey) True False key.toList key := by
  have hlength : key.toList.length = 32 := Vector.length_toList
  have hreads := readWith_reads .full key.toList
  have hrefuses := readFull_refuses key.toList
  rw [hlength] at hreads hrefuses
  have hkey : toArray 32 key.toList = key := toArray_toList key
  have hdecode := hreads.bind_pure (toArray 32)
  rw [hkey] at hdecode
  exact ⟨fun _ => hdecode, hrefuses.drains.bind_pure _,
    fun _ => ⟨ne_nil_of_length_pos (by omega), hrefuses.bind_pure _⟩, False.elim⟩

theorem shrinks_decodeEd25519PublicKey : Shrinks decodeEd25519PublicKey :=
  (shrinks_readWith _ _).bind fun _ => shrinks_pure _

section

variable (zero one : Bool) (e : JamError)

theorem shrinks_flag (b : UInt8) :
    Shrinks (if b = 0 then pure zero else if b = 1 then pure one else fail e : Decoder Bool) := by
  split
  · exact shrinks_pure _
  · split
    · exact shrinks_pure _
    · exact shrinks_fail _

theorem shrinks_readFlag : Shrinks (readFlag zero one e) :=
  shrinks_readOctet.bind (shrinks_flag zero one e)

theorem readFlag_zero :
    Decodes Strictness.code (fun _ => readFlag zero one e) True False [0] zero :=
  (readOctet_decodes 0).finish (fun _ _ => rfl) (shrinks_flag zero one e) False.elim

theorem readFlag_one :
    Decodes Strictness.code (fun _ => readFlag zero one e) True False [1] one :=
  (readOctet_decodes 1).finish (fun _ _ => rfl) (shrinks_flag zero one e) False.elim

end

end Strawberry.Jam
