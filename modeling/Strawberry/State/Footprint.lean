import Mathlib.Algebra.Order.BigOperators.Group.Finset
import Strawberry.Lib.Words
import Strawberry.State.Serialization

/-!
# Two footprints

The threshold balance counts the preimages of an account, the record of the account its requests.
-/

namespace Strawberry.State

open Service

def requestedItems (a : ServiceAccount) : Nat := 2 * a.preimageMeta.len + a.storage.len

def requestedOctets (a : ServiceAccount) : Nat :=
  ∑ key ∈ a.preimageMeta.keys, (81 + key.length.toNat) +
    a.storage.sumBy fun value => 32 + value.length

structure FootprintAgrees (a : ServiceAccount) : Prop where
  items : a.totalItems.toNat = requestedItems a
  recordItems : (Int64.ofNat (2 * a.preimageMeta.len + a.storage.len)).toInt = requestedItems a
  octets : a.totalStorageSize.toNat = requestedOctets a
  recordOctets : (calculateFootprintSize a.storage a.preimageMeta).toNat = requestedOctets a

structure FootprintFits (a : ServiceAccount) : Prop where
  items : 2 * a.preimageLookup.len + a.storage.len < 2 ^ 32
  octets : a.preimageLookup.sumBy (fun z => 81 + z.length) +
    a.storage.sumBy (fun x => 32 + x.length) < 2 ^ 64

section

variable {a : ServiceAccount}

theorem FootprintFits.toNat_totalItems (h : FootprintFits a) :
    a.totalItems.toNat = 2 * a.preimageLookup.len + a.storage.len :=
  UInt32.toNat_ofNat_of_lt' h.items

theorem FootprintFits.toNat_totalStorageSize (h : FootprintFits a) :
    a.totalStorageSize.toNat = a.preimageLookup.sumBy (fun z => 81 + z.length) +
      a.storage.sumBy (fun x => 32 + x.length) :=
  toNat_ofNat_of_lt h.octets

theorem toNat_recorded_le (key : PreImageMetaKey) :
    (81 + key.length).toNat ≤ 81 + key.length.toNat := by
  rw [UInt32.toNat_add]
  exact Nat.mod_le _ _

theorem toNat_recorded_eq_iff (key : PreImageMetaKey) :
    (81 + key.length).toNat = 81 + key.length.toNat ↔ 81 + key.length.toNat < 2 ^ 32 := by
  have heighty : (81 : UInt32).toNat = 81 := rfl
  rw [UInt32.toNat_add, heighty]
  omega

theorem recordOctets_iff (h : requestedOctets a < 2 ^ 64) :
    (calculateFootprintSize a.storage a.preimageMeta).toNat = requestedOctets a ↔
      ∀ key ∈ a.preimageMeta, 81 + key.length.toNat < 2 ^ 32 := by
  have hle := Finset.sum_le_sum fun key (_ : key ∈ a.preimageMeta.keys) => toNat_recorded_le key
  unfold requestedOctets at h ⊢
  unfold calculateFootprintSize
  rw [toNat_ofNat_of_lt (by omega), Nat.add_right_cancel_iff,
    Finset.sum_eq_sum_iff_of_le fun key _ => toNat_recorded_le key]
  simp only [toNat_recorded_eq_iff, Finmap.mem_keys]

end

/-- When the two computations of the footprint agree. -/
theorem footprint_agrees_iff (a : ServiceAccount) (h : FootprintFits a) :
    FootprintAgrees a ↔ a.preimageLookup.len = a.preimageMeta.len ∧
      a.preimageLookup.sumBy (fun z => 81 + z.length) =
        ∑ key ∈ a.preimageMeta.keys, (81 + key.length.toNat) ∧
      ∀ key ∈ a.preimageMeta, 81 + key.length.toNat < 2 ^ 32 := by
  have hitems := h.items
  have hoctets := h.octets
  constructor
  · intro hagrees
    have htotal := hagrees.items
    have hsize := hagrees.octets
    rw [h.toNat_totalItems] at htotal
    rw [h.toNat_totalStorageSize] at hsize
    have hlengths := (recordOctets_iff (by omega)).mp hagrees.recordOctets
    unfold requestedItems at htotal
    unfold requestedOctets at hsize
    exact ⟨by omega, by omega, hlengths⟩
  · rintro ⟨hlen, hsum, hlengths⟩
    have hreq : requestedItems a < 2 ^ 32 := by
      unfold requestedItems
      omega
    have hsize : requestedOctets a = a.preimageLookup.sumBy (fun z => 81 + z.length) +
        a.storage.sumBy (fun x => 32 + x.length) := by
      rw [hsum]
      rfl
    exact {
      items := by
        rw [h.toNat_totalItems, hlen]
        rfl
      recordItems := Int64.toInt_ofNat_of_lt (by
        unfold requestedItems at hreq
        omega)
      octets := by rw [h.toNat_totalStorageSize, hsize]
      recordOctets := (recordOctets_iff (by omega)).mpr hlengths }

def providedAccount : ServiceAccount :=
  { ServiceAccount.zero with
    preimageLookup := Finmap.singleton (.replicate 32 0) [7]
    preimageMeta := Finmap.singleton ⟨.replicate 32 0, 1⟩ [] }

theorem footprint_agrees_provided : FootprintAgrees providedAccount :=
  (footprint_agrees_iff providedAccount ⟨by decide, by decide⟩).mpr
    ⟨by decide, by decide, by decide⟩

theorem pending_request_uncounted :
    ({ providedAccount with preimageLookup := ∅ }).totalItems = 0 ∧
      requestedItems { providedAccount with preimageLookup := ∅ } = 2 ∧
      ¬ FootprintAgrees { providedAccount with preimageLookup := ∅ } := by
  refine ⟨rfl, rfl, ?_⟩
  intro hagrees
  exact absurd hagrees.items (by decide)

end Strawberry.State
