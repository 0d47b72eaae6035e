import Strawberry.Codec

/-!
# Naturals on the wire

The number of octets that follow a lead octet is the number of its leading ones.
-/

namespace Strawberry.Jam

open List

theorem leNat_lt (bytes : List UInt8) : leNat bytes < 256 ^ bytes.length := by
  induction bytes with
  | nil => simp [leNat]
  | cons b bytes ih =>
    have hb := b.toNat_lt
    rw [leNat, length_cons, Nat.pow_succ]
    omega

theorem toLE_leNat (bytes : List UInt8) : toLE bytes.length (leNat bytes) = bytes := by
  induction bytes with
  | nil => rfl
  | cons b bytes ih =>
    have hb := b.toNat_lt
    have hdiv : (b.toNat + 256 * leNat bytes) / 256 = leNat bytes := by omega
    have hhead : UInt8.ofNat (b.toNat + 256 * leNat bytes) = b := by
      apply UInt8.toNat_inj.mp
      rw [UInt8.toNat_ofNat']
      omega
    rw [length_cons, leNat, toLE, hdiv, hhead, ih]

def octetsAfter (lead : UInt8) : Nat := 8 - len8 (~~~lead)

theorem read_append (bytes rest : List UInt8) :
    read bytes.length (bytes ++ rest) = .ok (bytes, rest) := by
  cases bytes with
  | nil => rfl
  | cons b bytes => simp [read]

def uintOf (lead : UInt8) (bytes : List UInt8) : Nat :=
  if octetsAfter lead = 8 then leNat bytes
  else leNat bytes + 2 ^ (8 * octetsAfter lead) * (lead.toNat % 2 ^ (8 - octetsAfter lead))

theorem or_high {a high l : Nat} (hl : l < 8) (ha : a < 2 ^ (8 * l)) (hhigh : high < 2 ^ (8 - l)) :
    UInt64.ofNat a ||| UInt64.ofNat high <<< UInt64.ofNat (8 * l) =
      UInt64.ofNat (a + 2 ^ (8 * l) * high) := by
  have hpow : 2 ^ (8 * l) * 2 ^ (8 - l) ≤ 2 ^ 64 := by
    rw [← Nat.pow_add]
    exact Nat.pow_le_pow_right (by decide) (by omega)
  have hprod : 2 ^ (8 * l) * high < 2 ^ 64 :=
    Nat.lt_of_lt_of_le ((Nat.mul_lt_mul_left (Nat.two_pow_pos _)).mpr hhigh) hpow
  have hsmall : high < 2 ^ 64 := Nat.lt_of_lt_of_le hhigh (Nat.pow_le_pow_right (by decide) (by omega))
  have halt : a < 2 ^ 64 := Nat.lt_of_lt_of_le ha (Nat.pow_le_pow_right (by decide) (by omega))
  apply UInt64.toNat_inj.mp
  rw [UInt64.toNat_or, UInt64.toNat_shiftLeft, UInt64.toNat_ofNat', UInt64.toNat_ofNat',
    UInt64.toNat_ofNat', UInt64.toNat_ofNat', Nat.mod_eq_of_lt halt, Nat.mod_eq_of_lt hsmall,
    Nat.mod_eq_of_lt (show 8 * l < 2 ^ 64 by omega), Nat.mod_eq_of_lt (show 8 * l < 64 by omega),
    Nat.shiftLeft_eq, Nat.mul_comm high, Nat.mod_eq_of_lt hprod, Nat.or_comm,
    ← Nat.two_pow_add_eq_or_of_lt ha, Nat.add_comm]
  have hsum : a + 2 ^ (8 * l) * high < 2 ^ 64 := by
    calc a + 2 ^ (8 * l) * high < 2 ^ (8 * l) + 2 ^ (8 * l) * high := by omega
      _ = 2 ^ (8 * l) * (high + 1) := by rw [Nat.mul_add, Nat.mul_one, Nat.add_comm]
      _ ≤ 2 ^ (8 * l) * 2 ^ (8 - l) := Nat.mul_le_mul_left _ hhigh
      _ ≤ 2 ^ 64 := hpow
  rw [Nat.mod_eq_of_lt hsum]

theorem decodeUint_cons (lead : UInt8) (bytes rest : List UInt8)
    (h : bytes.length = octetsAfter lead) :
    decodeUint (lead :: (bytes ++ rest)) = .ok (UInt64.ofNat (uintOf lead bytes), rest) := by
  have hread : read (octetsAfter lead) (bytes ++ rest) = .ok (bytes, rest) := by
    rw [← h, read_append]
  have hlead : read 1 (lead :: (bytes ++ rest)) = .ok ([lead], bytes ++ rest) :=
    read_append [lead] (bytes ++ rest)
  have hlen : 8 - len8 (~~~lead) = octetsAfter lead := rfl
  simp only [decodeUint, hlead, headD_cons, hlen, hread]
  unfold uintOf
  by_cases hl : octetsAfter lead = 8
  · rw [if_pos hl, if_pos hl, leUInt64]
  · have hlt : octetsAfter lead < 8 := by
      unfold octetsAfter at *
      omega
    have hbytes : leNat bytes < 2 ^ (8 * octetsAfter lead) := by
      rw [Nat.pow_mul, ← h]
      exact leNat_lt bytes
    rw [if_neg hl, if_neg hl, leUInt64, or_high hlt hbytes (Nat.mod_lt _ (Nat.two_pow_pos _))]

theorem uint64Length_le (x : UInt64) : uint64Length x ≤ 8 := by
  unfold uint64Length
  cases h : (List.range 8).find? fun l => decide (x.toNat < 2 ^ (7 * (l + 1))) with
  | none => exact Nat.le_refl 8
  | some l =>
    have hmem := mem_of_find?_eq_some h
    rw [mem_range] at hmem
    exact Nat.le_of_lt hmem

theorem lt_of_uint64Length {x : UInt64} (h : uint64Length x < 8) :
    x.toNat < 2 ^ (7 * (uint64Length x + 1)) := by
  unfold uint64Length at *
  cases hfind : (List.range 8).find? fun l => decide (x.toNat < 2 ^ (7 * (l + 1))) with
  | none =>
    rw [hfind] at h
    exact absurd h (by decide)
  | some l => simpa using List.find?_some hfind

theorem uint64Length_eq_eight {x : UInt64} (h : ¬ uint64Length x < 8) : uint64Length x = 8 := by
  have hle := uint64Length_le x
  omega

theorem lead_spec {l high : Nat} (hl : l < 8) (hhigh : high < 2 ^ (7 - l)) :
    octetsAfter (UInt8.ofNat (256 - 2 ^ (8 - l) + high % 256)) = l ∧
      (UInt8.ofNat (256 - 2 ^ (8 - l) + high % 256)).toNat % 2 ^ (8 - l) = high := by
  have hcases : ∀ (l : Fin 8) (high : Fin (2 ^ (7 - l.val))),
      octetsAfter (UInt8.ofNat (256 - 2 ^ (8 - l.val) + high.val % 256)) = l.val ∧
        (UInt8.ofNat (256 - 2 ^ (8 - l.val) + high.val % 256)).toNat % 2 ^ (8 - l.val) =
          high.val := by
    decide +kernel
  exact hcases ⟨l, hl⟩ ⟨high, hhigh⟩

theorem high_lt {x : UInt64} (h : uint64Length x < 8) :
    x.toNat / 2 ^ (8 * uint64Length x) < 2 ^ (7 - uint64Length x) := by
  have hlt := lt_of_uint64Length h
  rw [Nat.div_lt_iff_lt_mul (Nat.two_pow_pos _), ← Nat.pow_add]
  rwa [show 7 - uint64Length x + 8 * uint64Length x = 7 * (uint64Length x + 1) by omega]

theorem uint64Length_le_of_lt {x : UInt64} {l : Nat} (hl : l < 8)
    (h : x.toNat < 2 ^ (7 * (l + 1))) : uint64Length x ≤ l := by
  unfold uint64Length
  cases hfind : (List.range 8).find? fun l => decide (x.toNat < 2 ^ (7 * (l + 1))) with
  | none =>
    rw [List.find?_eq_none] at hfind
    exact absurd (decide_eq_true h) (hfind l (mem_range.mpr hl))
  | some l' =>
    rw [List.find?_range_eq_some] at hfind
    refine Nat.not_lt.mp fun hlt => ?_
    have hbefore := hfind.2.2 l hlt
    simp [h] at hbefore

theorem serializeUint64_eq (x : UInt64) :
    ∃ lead, serializeUint64 x = lead :: toLE (uint64Length x) x.toNat ∧
      octetsAfter lead = uint64Length x := by
  by_cases hl : uint64Length x < 8
  · refine ⟨_, rfl, ?_⟩
    simp only [if_pos hl]
    exact (lead_spec hl (high_lt hl)).1
  · refine ⟨_, rfl, ?_⟩
    simp only [if_neg hl]
    rw [uint64Length_eq_eight hl]
    decide

theorem decodeUint_serializeUint64 (x : UInt64) (rest : List UInt8) :
    decodeUint (serializeUint64 x ++ rest) = .ok (x, rest) := by
  have hmod := leNat_toLE (uint64Length x) x.toNat
  rw [serializeUint64, cons_append]
  by_cases hl : uint64Length x < 8
  · obtain ⟨hafter, hhigh⟩ := lead_spec hl (high_lt hl)
    simp only [if_pos hl]
    rw [decodeUint_cons _ _ _ (by rw [length_toLE, hafter]), uintOf, hafter,
      if_neg (Nat.ne_of_lt hl), hhigh, hmod, show 256 = 2 ^ 8 from rfl, ← Nat.pow_mul,
      Nat.mod_add_div, UInt64.ofNat_toNat]
  · have hafter : octetsAfter 255 = 8 := by decide
    have height := uint64Length_eq_eight hl
    have hx : x.toNat < 256 ^ 8 := x.toNat_lt
    simp only [if_neg hl]
    rw [decodeUint_cons _ _ _ (by rw [length_toLE, hafter, height]), uintOf, if_pos hafter, hmod,
      height, Nat.mod_eq_of_lt hx, UInt64.ofNat_toNat]

theorem length_serializeUint64 (x : UInt64) :
    (serializeUint64 x).length = uint64Length x + 1 := by
  rw [serializeUint64, length_cons, length_toLE]

theorem lead_mod_lt (lead : UInt8) (h : octetsAfter lead < 8) :
    lead.toNat % 2 ^ (8 - octetsAfter lead) < 2 ^ (7 - octetsAfter lead) := by
  have hcases : ∀ n : Fin 256, octetsAfter (UInt8.ofNat n.val) < 8 →
      n.val % 2 ^ (8 - octetsAfter (UInt8.ofNat n.val)) <
        2 ^ (7 - octetsAfter (UInt8.ofNat n.val)) := by
    decide +kernel
  have hlead := hcases ⟨lead.toNat, lead.toNat_lt⟩
  rw [UInt8.ofNat_toNat] at hlead
  exact hlead h

theorem uintOf_lt {lead : UInt8} {bytes : List UInt8} (hlength : bytes.length = octetsAfter lead)
    (h : octetsAfter lead < 8) : uintOf lead bytes < 2 ^ (7 * (octetsAfter lead + 1)) := by
  have hlow : leNat bytes < 2 ^ (8 * octetsAfter lead) := by
    rw [Nat.pow_mul, ← hlength]
    exact leNat_lt bytes
  have hhigh := lead_mod_lt lead h
  rw [uintOf, if_neg (Nat.ne_of_lt h),
    show 7 * (octetsAfter lead + 1) = 8 * octetsAfter lead + (7 - octetsAfter lead) by omega,
    Nat.pow_add]
  generalize lead.toNat % 2 ^ (8 - octetsAfter lead) = high at hhigh
  calc leNat bytes + 2 ^ (8 * octetsAfter lead) * high
      < 2 ^ (8 * octetsAfter lead) * (high + 1) := by rw [Nat.mul_succ]; omega
    _ ≤ _ := Nat.mul_le_mul_left _ hhigh

theorem uint64Length_le_octetsAfter {x : UInt64} {lead : UInt8} {bytes rest rest' : List UInt8}
    (hlength : bytes.length = octetsAfter lead)
    (h : decodeUint (lead :: (bytes ++ rest)) = .ok (x, rest')) :
    uint64Length x ≤ octetsAfter lead := by
  rw [decodeUint_cons lead bytes rest hlength] at h
  cases h
  by_cases hl : octetsAfter lead < 8
  · refine uint64Length_le_of_lt hl (Nat.lt_of_le_of_lt ?_ (uintOf_lt hlength hl))
    rw [UInt64.toNat_ofNat']
    exact Nat.mod_le _ _
  · have hle := uint64Length_le (UInt64.ofNat (uintOf lead bytes))
    omega

theorem eq_of_serializeUint64_begins {x y : UInt64} (h : serializeUint64 x <+: serializeUint64 y) :
    x = y := by
  obtain ⟨rest, hrest⟩ := h
  have hx := decodeUint_serializeUint64 x rest
  have hy := decodeUint_serializeUint64 y []
  rw [hrest] at hx
  rw [append_nil, hx] at hy
  cases hy
  rfl

/-- Naturals are read back, and take the fewest octets. -/
theorem variable_length_naturals (x : UInt64) :
    (∀ rest, decodeUint (serializeUint64 x ++ rest) = .ok (x, rest)) ∧
    ((∃ l < 8, x.toNat < 2 ^ (7 * (l + 1)) ∧ (∀ l' < l, ¬ x.toNat < 2 ^ (7 * (l' + 1))) ∧
        (serializeUint64 x).length = l + 1) ∨
      (∀ l < 8, ¬ x.toNat < 2 ^ (7 * (l + 1))) ∧ (serializeUint64 x).length = 9) ∧
    (∀ y, serializeUint64 x <+: serializeUint64 y → serializeUint64 x = serializeUint64 y) ∧
    ∀ lead bytes rest rest', bytes.length = octetsAfter lead →
      decodeUint (lead :: (bytes ++ rest)) = .ok (x, rest') →
      (serializeUint64 x).length ≤ (lead :: bytes).length := by
  refine ⟨decodeUint_serializeUint64 x, ?_, ?_, ?_⟩
  · rw [length_serializeUint64]
    by_cases hl : uint64Length x < 8
    · refine .inl ⟨uint64Length x, hl, lt_of_uint64Length hl, ?_, rfl⟩
      intro l' hl' hlt
      have hle := uint64Length_le_of_lt (by omega) hlt
      omega
    · have height := uint64Length_eq_eight hl
      refine .inr ⟨?_, by rw [height]⟩
      intro l hlt hx
      have hle := uint64Length_le_of_lt hlt hx
      omega
  · intro y h
    rw [eq_of_serializeUint64_begins h]
  · intro lead bytes rest rest' hlength h
    have hle := uint64Length_le_octetsAfter hlength h
    rw [length_serializeUint64, length_cons, hlength]
    omega

end Strawberry.Jam
