import Strawberry.ErasureCoding.Recovery
import Strawberry.Merkle.PageProofs
import Strawberry.Work.Computation

/-!
# Work reports

What a report is made of (`evaluateWorkPackage_eq_ok`), and when there is one.
-/

namespace Strawberry.Results

open Block Work State Merkle ErasureCoding Constants List

namespace Computation

variable {c : Computation} {wp : Package} {coreIndex : UInt16} {report : WorkReport}
  {audBlob : List UInt8} {auth : Option (List UInt8)} {segments : List Segment}

def reportOf (c : Computation) (wp : Package) (coreIndex : UInt16)
    (authOutput : Option (List UInt8)) (progress : Progress)
    (availSpec : WorkPackageSpecification) : WorkReport where
  workPackageSpecification := availSpec
  refinementContext := wp.context
  coreIndex := coreIndex
  authorizerHash := c.hashData (authOutput.getD [])
  output := authOutput.getD []
  segmentRootLookup := c.segmentRoots
  workResults := progress.results

structure Accepts (c : Computation) (order : GoMap.Traversal c.segmentRoots.keys) (wp : Package) :
    Prop where
  entries : wp.validateNumberOfEntries = .ok ()
  size : wp.validateSize = .ok ()
  gas : wp.validateGas = .ok ()
  roots : c.validateSegmentRootLookup order = .ok ()

theorem evaluateWorkPackage_eq_ok {order : GoMap.Traversal c.segmentRoots.keys} :
    c.evaluateWorkPackage order wp coreIndex = .ok report ↔
      c.Accepts order wp ∧ ∃ audBlob auth progress availSpec,
        c.buildAuditableWorkPackage wp = .ok audBlob ∧
        c.auth wp coreIndex = .ok auth ∧
        c.refineItems wp auth = .ok progress ∧
        c.computeAvailabilitySpecifier (c.hashData wp.encode) audBlob progress.exported =
          .ok availSpec ∧
        c.reportOf wp coreIndex auth progress availSpec = report := by
  unfold evaluateWorkPackage
  simp only [Call.bind_eq_ok, Call.lift_except_eq_ok, Call.mapError_eq_ok,
    Strawberry.mapError_eq_ok, Call.pure_eq_ok]
  constructor
  · rintro ⟨⟨⟩, hentries, ⟨⟩, hsize, ⟨⟩, hgas, ⟨⟩, hroots, audBlob, haud, auth, hauth,
      progress, hprogress, availSpec, hspec, rfl⟩
    exact ⟨⟨hentries, hsize, hgas, hroots⟩, audBlob, auth, progress, availSpec, haud, hauth,
      hprogress, hspec, rfl⟩
  · rintro ⟨⟨hentries, hsize, hgas, hroots⟩, audBlob, auth, progress, availSpec, haud, hauth,
      hprogress, hspec, rfl⟩
    exact ⟨(), hentries, (), hsize, (), hgas, (), hroots, audBlob, haud, auth, hauth,
      progress, hprogress, availSpec, hspec, rfl⟩

theorem length_finalExported (expected : Nat) (exported : List Segment) :
    (finalExported expected exported).length = expected := by
  unfold finalExported
  split
  · rw [length_append, length_replicate]
    omega
  · split
    · rw [length_take]
      omega
    · omega

theorem imports_of_auditable (h : c.buildAuditableWorkPackage wp = .ok audBlob) {item : Work.Item}
    (hitem : item ∈ wp.workItems) : ∃ imported, c.buildImportedSegments item = .ok imported := by
  obtain ⟨parts, hparts, -⟩ := Call.bind_eq_ok.mp h
  obtain ⟨part, -, hpart⟩ := exists_of_mem_left (Call.mapM_eq_ok.mp hparts) hitem
  obtain ⟨xW, -, hpart⟩ := Call.bind_eq_ok.mp hpart
  obtain ⟨imported, himported, -⟩ := Call.bind_eq_ok.mp hpart
  exact ⟨imported, himported⟩

def exportCount (items : List Work.Item) : Nat := (items.map (·.exportedSegments.toNat)).sum

theorem exportCount_concat (items : List Work.Item) (item : Work.Item) :
    exportCount (items ++ [item]) = exportCount items + item.exportedSegments.toNat := by
  simp [exportCount]

theorem exportCount_take_add_le {items : List Work.Item} {item : Work.Item} {j : Nat}
    (h : items[j]? = some item) :
    exportCount (items.take j) + item.exportedSegments.toNat ≤ exportCount items := by
  have htake : items.take (j + 1) = items.take j ++ [item] := by
    rw [take_add_one, h]
    rfl
  have hall : exportCount items =
      exportCount (items.take (j + 1)) + exportCount (items.drop (j + 1)) := by
    unfold exportCount
    rw [← sum_append, ← map_append, take_append_drop]
  rw [hall, htake, exportCount_concat]
  omega

def settled (expected : Nat) :
    Except String (List UInt8 × List Segment) → WorkResultOutputOrError × List Segment
  | .error _ => (.error .unexpectedTermination, .replicate expected zeroSegment)
  | .ok (refineOut, exported) => (.output refineOut, finalExported expected exported)

theorem length_settled (expected : Nat) (run : Except String (List UInt8 × List Segment)) :
    (settled expected run).2.length = expected := by
  cases run with
  | error e => exact length_replicate
  | ok out => exact length_finalExported _ _

def ItemAt (c : Computation) (wp : Package) (authOutput : Option (List UInt8))
    (items : List Work.Item) (results : List WorkResult) (exported : List Segment) (j : Nat)
    (item : Work.Item) : Prop :=
  ∃ imported run, c.buildImportedSegments item = .ok imported ∧
    c.refine (UInt32.ofNat j) wp authOutput imported.1
      (UInt64.ofNat (exportCount (items.take j))) = Outcome.ret run ∧
    results[j]? = some (item.toWorkResult c.hashData (settled item.exportedSegments.toNat run).1) ∧
    (exported.drop (exportCount (items.take j))).take item.exportedSegments.toNat =
      (settled item.exportedSegments.toNat run).2

structure Refined (c : Computation) (wp : Package) (authOutput : Option (List UInt8))
    (items : List Work.Item) (progress : Progress) : Prop where
  results : progress.results.length = items.length
  exported : progress.exported.length = exportCount items
  offset : progress.exportOffset = UInt64.ofNat (exportCount items)
  item : ∀ j item, items[j]? = some item →
    c.ItemAt wp authOutput items progress.results progress.exported j item

section

variable {items : List Work.Item} {progress : Progress}
  (hrefine : ∀ i o segs offset, ∃ result, c.refine i wp o segs offset = Outcome.ret result)

include hrefine

theorem Refined.step (h : c.Refined wp auth items progress) {item : Work.Item}
    (himports : ∃ imported, c.buildImportedSegments item = .ok imported) :
    ∃ progress', c.refineItem wp auth progress item items.length = .ok progress' ∧
      c.Refined wp auth (items ++ [item]) progress' := by
  obtain ⟨imported, himported⟩ := himports
  obtain ⟨run, hrun⟩ := hrefine (UInt32.ofNat items.length) auth imported.1 progress.exportOffset
  refine ⟨⟨progress.results ++ [item.toWorkResult c.hashData
        (settled item.exportedSegments.toNat run).1],
      progress.exported ++ (settled item.exportedSegments.toNat run).2,
      progress.exportOffset + item.exportedSegments.toUInt64⟩, ?_, ?_, ?_, ?_, ?_⟩
  · unfold refineItem
    simp only [Call.bind_eq_ok, Call.mapError_eq_ok, Call.attempt_eq_ok, Call.pure_eq_ok]
    refine ⟨imported, himported, run, hrun, ?_⟩
    cases run <;> rfl
  · simp [h.results]
  · rw [length_append, h.exported, length_settled, exportCount_concat]
  · have hword : item.exportedSegments.toUInt64 = UInt64.ofNat item.exportedSegments.toNat := by
      simp
    rw [h.offset, hword, exportCount_concat, UInt64.ofNat_add]
  · intro j item' hj
    rcases Nat.lt_trichotomy j items.length with hlt | heq | hgt
    · rw [List.getElem?_append_left hlt] at hj
      have hroom := exportCount_take_add_le hj
      obtain ⟨imported', run', himported', hrun', hresult, hslice⟩ := h.item j item' hj
      refine ⟨imported', run', himported', ?_, ?_, ?_⟩
      · rwa [take_append_of_le_length hlt.le]
      · rw [List.getElem?_append_left (h.results ▸ hlt), hresult]
      · rw [take_append_of_le_length hlt.le, ← hslice,
          drop_append_of_le_length (by rw [h.exported]; omega),
          take_append_of_le_length (by rw [length_drop, h.exported]; omega)]
    · subst heq
      rw [List.getElem?_concat_length, Option.some.injEq] at hj
      subst hj
      refine ⟨imported, run, himported, ?_, ?_, ?_⟩
      · rw [take_left, ← h.offset, hrun]
      · rw [← h.results, List.getElem?_concat_length]
      · rw [take_left, ← h.exported, drop_left, take_of_length_le]
        exact (length_settled _ _).le
    · rw [List.getElem?_eq_none (by simpa [Nat.succ_le_iff] using hgt)] at hj
      cases hj

theorem Refined.run {rest : List Work.Item} (h : c.Refined wp auth items progress)
    (himports : ∀ item ∈ rest, ∃ imported, c.buildImportedSegments item = .ok imported) :
    ∃ progress', (rest.zipIdx items.length).foldlM
        (fun progress item => c.refineItem wp auth progress item.1 item.2) progress =
          .ok progress' ∧ c.Refined wp auth (items ++ rest) progress' := by
  induction rest generalizing items progress with
  | nil => exact ⟨progress, rfl, (append_nil items).symm ▸ h⟩
  | cons item rest ih =>
    rw [forall_mem_cons] at himports
    obtain ⟨next, hnext, hrefined⟩ := h.step hrefine himports.1
    obtain ⟨last, hlast, hrefined'⟩ := ih hrefined himports.2
    rw [length_append, length_singleton] at hlast
    rw [append_assoc] at hrefined'
    refine ⟨last, ?_, hrefined'⟩
    exact Call.bind_eq_ok.mpr ⟨next, hnext, hlast⟩

theorem refineItems_returns
    (himports : ∀ item ∈ wp.workItems, ∃ imported, c.buildImportedSegments item = .ok imported) :
    ∃ progress, c.refineItems wp auth = .ok progress ∧ c.Refined wp auth wp.workItems progress := by
  have hnone : c.Refined wp auth [] ⟨[], [], 0⟩ := ⟨rfl, rfl, rfl, by simp⟩
  exact hnone.run hrefine himports

end

theorem length_segmentsToByteSlices : (segmentsToByteSlices segments).length = segments.length := by
  simp [segmentsToByteSlices]

theorem length_flattenBlobs : (flattenBlobs (segmentsToByteSlices segments)).length =
    segments.length * sizeOfSegment := by
  induction segments with
  | nil => simp [flattenBlobs, segmentsToByteSlices]
  | cons segment segments ih =>
    have hcons : flattenBlobs (segmentsToByteSlices (segment :: segments)) =
        segment.toList ++ flattenBlobs (segmentsToByteSlices segments) := rfl
    rw [hcons, length_append, ih, Vector.length_toList, length_cons, Nat.succ_mul]
    omega

theorem computePagedProofs_returns (hne : segments ≠ [])
    (hexact : Exact c.log2 segments.length) (hmax : segments.length ≤ 2 ^ 62) :
    ∃ proofs, c.computePagedProofs segments = .ok proofs ∧
      proofs.length = (segments.length + 63) / 64 := by
  have hlen : (segmentsToByteSlices segments).length = segments.length :=
    length_segmentsToByteSlices
  rw [← hlen] at hexact hmax
  have hpages : ∀ pageIndex ∈ List.range ((segments.length + 63) / 64), ∃ page : Segment, (do
        let leafHashes ← getLeafPage c.hashData (segmentsToByteSlices segments) pageIndex 6
        let proof ← generatePageProof c.log2 c.hashData (segmentsToByteSlices segments) pageIndex 6
        let combined := Jam.encodeSlice (·.toList) leafHashes ++ Jam.encodeSlice (·.toList) proof
        return toArray sizeOfSegment (zeroPadding combined sizeOfSegment) :
          Call ComputationError Segment) = .ok page := by
    intro pageIndex hpage
    have hinside : 2 ^ 6 * pageIndex < (segmentsToByteSlices segments).length := by
      rw [mem_range] at hpage
      omega
    rw [getLeafPage_eq hinside hmax (by decide), generatePageProof_eq hinside hmax hexact]
    exact ⟨_, rfl⟩
  obtain ⟨proofs, hproofs⟩ := exists_forall₂ hpages
  refine ⟨proofs, ?_, ?_⟩
  · refine Call.bind_of_check (by simpa using hne) ?_
    exact Call.mapM_eq_ok.mpr hproofs
  · rw [← hproofs.length_eq, length_range]

theorem length_le_zeroPadding (blob : List UInt8) (n : Nat) :
    blob.length ≤ (zeroPadding blob n).length := by
  unfold zeroPadding
  split
  · exact Nat.le_refl _
  · rw [length_append]
    omega

theorem computeAvailabilitySpecifier_returns (hencodes : c.simd.Encodes) (packageHash : Hash)
    (hblob : audBlob ≠ [])
    (hbundle : (zeroPadding audBlob erasureCodingChunkSize).length ≤ maxWorkPackageSize)
    (hne : segments ≠ []) (hexact : Exact c.log2 segments.length)
    (hroom : (segments.length + (segments.length + 63) / 64) * sizeOfSegment ≤ maxWorkPackageSize) :
    ∃ spec, c.computeAvailabilitySpecifier packageHash audBlob segments = .ok spec ∧
      computeConstantDepthRoot c.log2 c.hashData (segmentsToByteSlices segments) =
        .ret spec.segmentRoot ∧
      spec.segmentCount = UInt16.ofNat segments.length := by
  have hpos : 0 < segments.length := length_pos_iff.mpr hne
  have hbound := length_le_zeroPadding audBlob erasureCodingChunkSize
  have hlimit : maxWorkPackageSize = 12582912 := rfl
  have hsize : sizeOfSegment = 4104 := rfl
  have hmax : segments.length ≤ 2 ^ 62 := by
    rw [hsize, hlimit] at hroom
    omega
  have hblobs : segmentsToByteSlices segments ≠ [] := by
    simpa [segmentsToByteSlices] using hne
  have hroot : computeConstantDepthRoot c.log2 c.hashData (segmentsToByteSlices segments) = _ :=
    computeConstantDepthRoot_eq hblobs (by rw [length_segmentsToByteSlices, hexact.ceil])
      (by rwa [length_segmentsToByteSlices])
  obtain ⟨shards, hshards, hn⟩ := hencodes.encode
    (ne_nil_of_length_pos (Nat.lt_of_lt_of_le (length_pos_iff.mpr hblob) hbound)) hbundle
  obtain ⟨proofs, hproofs, hnumber⟩ := computePagedProofs_returns hne hexact hmax
  have hcombined : (flattenBlobs (segmentsToByteSlices segments ++
      segmentsToByteSlices proofs)).length =
        (segments.length + (segments.length + 63) / 64) * sizeOfSegment := by
    rw [segmentsToByteSlices, segmentsToByteSlices, ← map_append]
    change (flattenBlobs (segmentsToByteSlices (segments ++ proofs))).length = _
    rw [length_flattenBlobs, length_append, hnumber]
  obtain ⟨shards', hshards', hn'⟩ := hencodes.encode
    (ne_nil_of_length_pos (by rw [hcombined, hsize]; omega)) (hcombined ▸ hroom)
  have hfirst : ¬ shards.length = 0 := by omega
  have hsecond : ¬ shards'.length = 0 := by omega
  have hlarge : Call.check (audBlob.length ≤ 2 ^ 32 - 1) ComputationError.auditableBlobTooLarge =
      .ok () := Call.check_eq_ok.mpr (decide_eq_true (by omega))
  unfold computeAvailabilitySpecifier
  rw [Call.bind_of_ok hlarge, Call.bind_of_ok (Call.lift_outcome_eq_ok.mpr hroot),
    Call.bind_of_ok (Call.mapError_eq_ok.mpr hshards), if_neg hfirst,
    Call.bind_of_ok (Call.mapError_eq_ok.mpr hproofs),
    Call.bind_of_ok (Call.mapError_eq_ok.mpr hshards'), if_neg hsecond]
  exact ⟨_, rfl, hroot, rfl⟩

theorem encode_ne_nil (wp : Package) : wp.encode ≠ [] := by
  apply ne_nil_of_length_pos
  simp only [Package.encode, length_append, encodeUint32, Jam.length_toLE]
  omega

theorem auditable_ne_nil (h : c.buildAuditableWorkPackage wp = .ok audBlob) : audBlob ≠ [] := by
  obtain ⟨parts, -, hblob⟩ := Call.bind_eq_ok.mp h
  rw [← Call.pure_eq_ok.mp hblob]
  exact append_ne_nil_of_left_ne_nil (encode_ne_nil wp) _

structure Describes (c : Computation) (wp : Package) (authOutput : Option (List UInt8))
    (report : WorkReport) (exported : List Segment) : Prop where
  results : report.workResults.length = wp.workItems.length
  item : ∀ j item, wp.workItems[j]? = some item →
    c.ItemAt wp authOutput wp.workItems report.workResults exported j item
  total : exported.length = exportCount wp.workItems
  count : report.workPackageSpecification.segmentCount.toNat = exportCount wp.workItems
  root : computeConstantDepthRoot c.log2 c.hashData (segmentsToByteSlices exported) =
    .ret report.workPackageSpecification.segmentRoot

theorem evaluateWorkPackage_returns {order : GoMap.Traversal c.segmentRoots.keys}
    (hencodes : c.simd.Encodes) (haccepts : c.Accepts order wp)
    (haud : c.buildAuditableWorkPackage wp = .ok audBlob)
    (hbundle : (zeroPadding audBlob erasureCodingChunkSize).length ≤ maxWorkPackageSize)
    (hauth : c.auth wp coreIndex = .ok auth)
    (hrefine : ∀ i o segs offset, ∃ result, c.refine i wp o segs offset = Outcome.ret result)
    (hexports : 0 < exportCount wp.workItems) (hexact : Exact c.log2 (exportCount wp.workItems))
    (hroom : (exportCount wp.workItems + (exportCount wp.workItems + 63) / 64) * sizeOfSegment ≤
      maxWorkPackageSize) :
    ∃ report exported, c.evaluateWorkPackage order wp coreIndex = .ok report ∧
      c.Describes wp auth report exported := by
  obtain ⟨progress, hprogress, hrefined⟩ :=
    refineItems_returns hrefine fun item hitem => imports_of_auditable haud hitem
  have hn : (UInt16.ofNat (exportCount wp.workItems)).toNat = exportCount wp.workItems := by
    refine UInt16.toNat_ofNat_of_lt' ?_
    have hlimit : maxWorkPackageSize = 12582912 := rfl
    have hsize : sizeOfSegment = 4104 := rfl
    have hvalues : UInt16.size = 65536 := rfl
    rw [hlimit, hsize] at hroom
    omega
  rw [← hrefined.exported] at hexports hexact hroom hn
  obtain ⟨availSpec, hspec, hroot, hnumber⟩ :=
    computeAvailabilitySpecifier_returns hencodes (c.hashData wp.encode) (auditable_ne_nil haud)
      hbundle (length_pos_iff.mp hexports) hexact hroom
  refine ⟨c.reportOf wp coreIndex auth progress availSpec, progress.exported, ?_,
    hrefined.results, hrefined.item, hrefined.exported, ?_, hroot⟩
  · exact evaluateWorkPackage_eq_ok.mpr
      ⟨haccepts, audBlob, auth, progress, availSpec, haud, hauth, hprogress, hspec, rfl⟩
  · rw [reportOf, hnumber, hn, hrefined.exported]

end Computation

end Strawberry.Results
