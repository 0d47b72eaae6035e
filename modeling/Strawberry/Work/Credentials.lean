import Strawberry.Block
import Strawberry.Lib.Entries
import Strawberry.Lib.Ranked

/-!
# Merging credentials

The credentials are collected in a map by the index of the validator, and the map is written out and
sorted.
-/

namespace Strawberry.Results

open Block List

def collected (credentials : List CredentialSignature) : List (UInt16 × CredentialSignature) :=
  credentials.map fun cred => (cred.validatorIndex, cred)

def credentialMap (existing received : List CredentialSignature) :
    GoMap UInt16 CredentialSignature :=
  GoMap.assign (GoMap.assign ∅ (collected existing)) (collected received)

def mergeAndSortCredentials (existing received : List CredentialSignature)
    (order : GoMap.Traversal (credentialMap existing received).keys) : List CredentialSignature :=
  (((credentialMap existing received).entriesAt order.keys).map Prod.snd).insertionSort
    fun a b => ¬ b.validatorIndex < a.validatorIndex

instance uint16_lt_total : IsStrictTotalOrder UInt16 (· < ·) where
  irrefl := UInt16.lt_irrefl
  trans _ _ _ := UInt16.lt_trans
  trichotomous _ _ hab hba := UInt16.le_antisymm (UInt16.not_lt.mp hba) (UInt16.not_lt.mp hab)

def lastOf (credentials : List CredentialSignature) (index : UInt16) :
    Option CredentialSignature :=
  credentials.reverse.find? fun cred => index == cred.validatorIndex

section

variable {existing received credentials : List CredentialSignature} {index : UInt16}
  {cred : CredentialSignature}

theorem lookup_collected : (collected credentials).reverse.lookup index = lastOf credentials index := by
  rw [collected, ← map_reverse, lastOf]
  induction credentials.reverse with
  | nil => rfl
  | cons cred credentials ih =>
    rw [map_cons, lookup_cons, List.find?_cons, ih]

theorem lookup_credentialMap : (credentialMap existing received).lookup index =
    (lastOf received index).or (lastOf existing index) := by
  rw [credentialMap, GoMap.lookup_assign, GoMap.lookup_assign, lookup_collected, lookup_collected,
    Finmap.lookup_empty, Option.or_none]

theorem validatorIndex_of_lastOf (h : lastOf credentials index = some cred) :
    cred.validatorIndex = index := by
  have hfound := List.find?_some h
  exact (beq_iff_eq.mp hfound).symm

theorem lastOf_isSome : (lastOf credentials index).isSome ↔
    index ∈ credentials.map (·.validatorIndex) := by
  rw [lastOf, List.find?_isSome, mem_map]
  constructor
  · rintro ⟨cred, hmem, hindex⟩
    exact ⟨cred, mem_reverse.mp hmem, (beq_iff_eq.mp hindex).symm⟩
  · rintro ⟨cred, hmem, rfl⟩
    exact ⟨cred, mem_reverse.mpr hmem, beq_self_eq_true _⟩

theorem lastOf_of_increasing (h : Ranked (· < ·) CredentialSignature.validatorIndex credentials)
    (hcred : cred ∈ credentials) : lastOf credentials cred.validatorIndex = some cred := by
  have hsome : (lastOf credentials cred.validatorIndex).isSome :=
    lastOf_isSome.mpr (mem_map_of_mem hcred)
  obtain ⟨other, hother⟩ := Option.isSome_iff_exists.mp hsome
  have hmem : other ∈ credentials := mem_reverse.mp (mem_of_find?_eq_some hother)
  rw [hother, inj_on_of_nodup_map h.nodup_keys hmem hcred (validatorIndex_of_lastOf hother)]

variable {order : GoMap.Traversal (credentialMap existing received).keys}

theorem validatorIndex_of_lookup (h : (credentialMap existing received).lookup index = some cred) :
    cred.validatorIndex = index := by
  rw [lookup_credentialMap, Option.or_eq_some_iff] at h
  rcases h with h | ⟨-, h⟩
  · exact validatorIndex_of_lastOf h
  · exact validatorIndex_of_lastOf h

theorem mem_merged : cred ∈ mergeAndSortCredentials existing received order ↔
    (lastOf received cred.validatorIndex).or (lastOf existing cred.validatorIndex) = some cred := by
  rw [mergeAndSortCredentials, mem_insertionSort, mem_map, ← lookup_credentialMap]
  constructor
  · rintro ⟨⟨index, cred⟩, hmem, rfl⟩
    obtain ⟨-, hget⟩ := GoMap.mem_entriesAt.mp hmem
    rwa [validatorIndex_of_lookup hget]
  · intro h
    refine ⟨(cred.validatorIndex, cred), GoMap.mem_entriesAt.mpr ⟨?_, h⟩, rfl⟩
    rw [order.mem_iff, Finmap.mem_keys]
    exact Finmap.mem_of_lookup_eq_some h

theorem merged_increasing : Ranked (· < ·) CredentialSignature.validatorIndex
    (mergeAndSortCredentials existing received order) := by
  apply ranked_insertionSort
  have hkeys : (((credentialMap existing received).entriesAt order.keys).map Prod.snd).map
      CredentialSignature.validatorIndex =
        ((credentialMap existing received).entriesAt order.keys).map Prod.fst := by
    rw [map_map]
    refine map_congr_left fun entry hentry => ?_
    exact validatorIndex_of_lookup (GoMap.mem_entriesAt.mp hentry).2
  rw [hkeys]
  exact GoMap.nodup_entriesAt order

theorem lastOf_merged : lastOf (mergeAndSortCredentials existing received order) index =
    (lastOf received index).or (lastOf existing index) := by
  apply Option.ext
  intro cred
  constructor
  · intro h
    obtain rfl := validatorIndex_of_lastOf h
    exact mem_merged.mp (mem_reverse.mp (mem_of_find?_eq_some h))
  · intro h
    obtain rfl := validatorIndex_of_lookup (lookup_credentialMap.trans h)
    exact lastOf_of_increasing merged_increasing (mem_merged.mpr h)

end

structure Merges (existing received merged : List CredentialSignature) : Prop where
  increasing : merged.Pairwise fun a b => a.validatorIndex < b.validatorIndex
  indices : ∀ index, index ∈ merged.map (·.validatorIndex) ↔
    index ∈ existing.map (·.validatorIndex) ∨ index ∈ received.map (·.validatorIndex)
  carried : ∀ cred ∈ merged,
    (lastOf received cred.validatorIndex).or (lastOf existing cred.validatorIndex) = some cred

/-- One credential for each validator, in order. -/
theorem credential_merging (existing received : List CredentialSignature)
    (order : GoMap.Traversal (credentialMap existing received).keys) :
    Merges existing received (mergeAndSortCredentials existing received order) ∧
    (∀ order', mergeAndSortCredentials existing received order' =
      mergeAndSortCredentials existing received order) ∧
    ∀ order', mergeAndSortCredentials (mergeAndSortCredentials existing received order) received
      order' = mergeAndSortCredentials existing received order := by
  refine ⟨⟨merged_increasing, ?_, fun cred => mem_merged.mp⟩, ?_, ?_⟩
  · intro index
    rw [← lastOf_isSome, lastOf_merged, Option.isSome_or, Bool.or_eq_true, lastOf_isSome,
      lastOf_isSome, or_comm]
  · intro order'
    refine merged_increasing.eq_of_mem_iff merged_increasing fun cred => ?_
    rw [mem_merged, mem_merged]
  · intro order'
    refine merged_increasing.eq_of_mem_iff merged_increasing fun cred => ?_
    rw [mem_merged, mem_merged, lastOf_merged, ← Option.or_assoc, Option.or_self]

end Strawberry.Results
