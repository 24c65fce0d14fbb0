/-
# Storage.ClusterFields -- the 32-bit fields of a cluster file

A file keeps the sizes, counts and offsets of its clusters in 32 bits, and the writer
casts them without a check.  `FieldsExact` says what each of these fields stands for, in
natural numbers and at its place in the bytes of the file.  A cluster's fields are exact
if and only if its two code regions together and its address table stay below `2 ^ 32`
bytes and every address below `2 ^ 32` pages (`fields_exact_iff`).
-/
import VecFetch.Storage.ClusterImage
import VecFetch.Storage.ClusterSizes

namespace VecFetch.Storage

open VecFetch.Theory VecFetch.Rabitq VecFetch.Simd VecFetch.Query ClusterStoreWriter

set_option autoImplicit false

/-! ## Clusters with their addresses -/

/-- The addresses of a column: those a table is made of, or those a packed column decodes
to. -/
inductive Addresses (build : Build) : AddressPayload → UInt32 → List AddressEntry → Prop
  | table (pageSize : UInt32) (entries : List AddressEntry) :
      Addresses build (encodeRawTableV2 entries pageSize) pageSize entries
  | packed {column : EncodedAddressColumn} {entries : List AddressEntry}
      (decodes : decodeColumn build column = .ok entries) :
      Addresses build (.v1Packed column) column.layout.pageSize entries

theorem Addresses.rawTable {build : Build} {column : AddressPayload} {pageSize : UInt32}
    {entries : List AddressEntry} (addresses : Addresses build column pageSize entries) :
    ClusterStoreWriter.rawTable build column = .ok (pageSize, entries.map (rawEntry pageSize)) := by
  cases addresses with
  | table => rfl
  | packed decodes => rw [ClusterStoreWriter.rawTable, decodes]; rfl

/-- A cluster's input with the addresses its column holds. -/
structure ClusterInput (build : Build) extends ClusterJob where
  pageSize : UInt32
  addresses : List AddressEntry
  holds : Addresses build column pageSize addresses

/-! ## Exact fields -/

section Exact

variable {build : Build} (env : Option ℤ) (config : StoreConfig) (dim : UInt32)
variable (bytes : List UInt8)

/-- The extra codes in a file of this configuration are a variable region, or batch blocks of
one size. -/
def HasVariableRegion : Prop :=
  config.stage2PayloadBits ≠ 0 ∧ 11 ≤ effectiveWriterFileVersion env config ∧
    config.usesOfficial1PlusN = true ∧
    usesVariableOfficialExDataLayout config.effectiveExdataLayout = true

def HasFixedBatches : Prop :=
  config.stage2PayloadBits ≠ 0 ∧ 11 ≤ effectiveWriterFileVersion env config ∧
    ¬ (config.usesOfficial1PlusN = true ∧
      usesVariableOfficialExDataLayout config.effectiveExdataLayout = true)

/-- The bytes of a cluster's extra codes. -/
abbrev extraBytes (codes : List RaBitQCode) : ℕ :=
  exDataBytes config dim (effectiveWriterFileVersion env config) codes

/-- The bytes of a batch block, of the layouts that have one size for all. -/
abbrev batchBytes : ℕ :=
  fixedBatchSize config ((dim.toNat + 63) / 64)
    (decide (12 ≤ effectiveWriterFileVersion env config))

/-- The fields of a lookup entry. -/
structure EntryExact (entryAt : ℕ) (input : ClusterInput build) : Prop where
  numRecords : word32 bytes (entryAt + 4) = input.numRecords.toNat
  numFastscanBlocks : word32 bytes (entryAt + (28 + dim.toNat * 4)) = (input.codes.length + 31) / 32
  exrabitqRegionOffset :
    word32 bytes (entryAt + (32 + dim.toNat * 4)) = fastScanBytes dim input.codes.length

/-- The fields among the extra codes, `region` being where these start. -/
structure ExtraExact (region : ℕ) (codes : List RaBitQCode) : Prop where
  numBatchBlocks : HasVariableRegion env config →
    word32 bytes (region + 4) = (codes.length + 7) / 8
  batchOffsets : HasVariableRegion env config → ∀ bb, bb ≤ (codes.length + 7) / 8 →
    word32 bytes (region + (8 + bb * 4)) = variableOffset config dim codes bb
  validCounts : HasVariableRegion env config → ∀ bb, bb < (codes.length + 7) / 8 →
    word32 bytes (region + variableOffset config dim codes bb) = min 8 (codes.length - 8 * bb)
  fixedValidCounts : HasFixedBatches env config → ∀ bb, bb < (codes.length + 7) / 8 →
    word32 bytes (region + bb * batchBytes env config dim) = min 8 (codes.length - 8 * bb)

/-- The fields of an address table at `table`. -/
def TableExact (table : ℕ) (pageSize : UInt32) (addresses : List AddressEntry) : Prop :=
  ∀ i entry, addresses[i]? = some entry →
    word32 bytes (table + (i * 8)) = entry.offset.toNat / pageSize.toNat ∧
      word32 bytes (table + (i * 8 + 4)) = entry.size.toNat / pageSize.toNat

/-- The fields of a trailer at `trailer`, `payload` bytes behind the block's start being the
address table of `count` addresses. -/
structure TrailerExact (trailer payload count : ℕ) (pageSize : UInt32) : Prop where
  pageSize : word32 bytes (trailer + 4) = pageSize.toNat
  entrySize : word32 bytes (trailer + 8) = 8
  numEntries : word32 bytes (trailer + 12) = count
  payloadOffset : word32 bytes (trailer + 16) = payload
  payloadBytes : word32 bytes (trailer + 20) = count * 8
  trailerSize : word32 bytes (trailer + 24) = 32

/-- The fields of a cluster whose block starts at `start`. -/
structure ClusterExact (entryAt start : ℕ) (input : ClusterInput build) : Prop where
  entry : EntryExact dim bytes entryAt input
  extra : ExtraExact env config dim bytes (start + fastScanBytes dim input.codes.length) input.codes
  table : TableExact bytes
    (start + (fastScanBytes dim input.codes.length + extraBytes env config dim input.codes))
    input.pageSize input.addresses
  trailer : TrailerExact bytes
    (start + (fastScanBytes dim input.codes.length + extraBytes env config dim input.codes +
      input.addresses.length * 8))
    (fastScanBytes dim input.codes.length + extraBytes env config dim input.codes)
    input.addresses.length input.pageSize

/-- What a cluster has to be for its fields to be exact. -/
structure Fits (input : ClusterInput build) : Prop where
  regions : fastScanBytes dim input.codes.length + extraBytes env config dim input.codes < 2 ^ 32
  table : input.addresses.length * 8 < 2 ^ 32
  pages : ∀ entry ∈ input.addresses, entry.offset.toNat / input.pageSize.toNat < 2 ^ 32

/-- A 32-bit word is below `2 ^ 32`. -/
theorem ClusterExact.fits {entryAt start : ℕ} {input : ClusterInput build}
    (fields : ClusterExact env config dim bytes entryAt start input) : Fits env config dim input where
  regions := by
    rw [← fields.trailer.payloadOffset]
    exact word32_lt _ _
  table := by
    rw [← fields.trailer.payloadBytes]
    exact word32_lt _ _
  pages := by
    intro entry mem
    obtain ⟨i, found⟩ := List.mem_iff_getElem?.1 mem
    rw [← (fields.table i entry found).1]
    exact word32_lt _ _

end Exact

/-! ## Fitting clusters -/

section Fitting

variable {build : Build} {env : Option ℤ} {config : StoreConfig} {dim : UInt32}
variable {bytes : List UInt8} {entryAt start : ℕ} {input : ClusterInput build}
variable {entry : LookupEntry} {block : Block}

/-- The parts of a block that fits have their sizes. -/
theorem Fits.sizes (fits : Fits env config dim input)
    (of : BlockOf env build config dim start input.toClusterJob entry block) :
    (block.fastScan.length = fastScanBytes dim input.codes.length ∧
      unitSteps (fastScanUnits dim input.codes) = fastScanBytes dim input.codes.length) ∧
    block.extra.length = extraBytes env config dim input.codes ∧
      unitSteps (exDataUnits config dim (effectiveWriterFileVersion env config) input.codes) =
        extraBytes env config dim input.codes := by
  have region : fastScanBytes dim input.codes.length < 2 ^ 32 :=
    Nat.lt_of_le_of_lt (Nat.le_add_right _ _) fits.regions
  rw [of.fastScan, of.extra]
  exact ⟨fastScan_counted region of.fastScanClean, exData_counted fits.regions of.extraClean⟩

theorem BlockOf.addresses (of : BlockOf env build config dim start input.toClusterJob entry block) :
    block.trailer.pageSize = input.pageSize ∧
      block.table = input.addresses.map (rawEntry input.pageSize) := by
  have same := of.table.symm.trans input.holds.rawTable
  simpa using same

/-! ### The lookup entry -/

theorem entry_exact (fits : Fits env config dim input)
    (of : BlockOf env build config dim start input.toClusterJob entry block)
    (holds : Holds bytes entryAt entry block) : EntryExact dim bytes entryAt input := by
  obtain ⟨⟨-, steps⟩, -⟩ := fits.sizes of
  have region : fastScanBytes dim input.codes.length < 2 ^ 32 :=
    Nat.lt_of_le_of_lt (Nat.le_add_right _ _) fits.regions
  have length : entry.bytes.length = lookupEntrySize dim := by
    rw [of.entry]
    exact LookupEntry.bytes_length of.centroid
  have floats : (entry.centroid.flatMap fun x => leBytes 4 x.toNat).length = dim.toNat * 4 := by
    rw [List.length_flatMap]
    simp only [leBytes_length, List.map_const', List.sum_replicate, smul_eq_mul]
    rw [of.entry]
    exact congrArg (· * 4) of.centroid
  rw [lookupEntrySize] at length
  constructor
  · rw [word32_part holds.entryHere (by omega)]
    have word := word32_append (leBytes 4 entry.clusterId.toNat)
      (leBytes 4 entry.epsilon.toNat ++ (entry.centroid.flatMap (fun x => leBytes 4 x.toNat) ++
        (leBytes 8 entry.blockOffset ++ (leBytes 8 entry.blockSize ++
          (leBytes 4 entry.numFastscanBlocks.toNat ++
            leBytes 4 entry.exrabitqRegionOffset.toNat)))))
      (leBytes_length 4 _) entry.numRecords.toNat_lt
    simp only [LookupEntry.bytes, List.append_assoc]
    rw [word, of.entry]
  · rw [word32_part holds.entryHere (by omega)]
    have word := word32_append (leBytes 4 entry.clusterId.toNat ++
        leBytes 4 entry.numRecords.toNat ++ leBytes 4 entry.epsilon.toNat ++
        entry.centroid.flatMap (fun x => leBytes 4 x.toNat) ++ leBytes 8 entry.blockOffset ++
        leBytes 8 entry.blockSize) (leBytes 4 entry.exrabitqRegionOffset.toNat)
      (show _ = 28 + dim.toNat * 4 by simp only [List.length_append, leBytes_length, floats]; omega)
      entry.numFastscanBlocks.toNat_lt
    rw [← List.append_assoc] at word
    refine word.trans ?_
    rw [of.entry, numBlocks_counted region]
  · rw [word32_part holds.entryHere (by omega)]
    have word := word32_append (leBytes 4 entry.clusterId.toNat ++
        leBytes 4 entry.numRecords.toNat ++ leBytes 4 entry.epsilon.toNat ++
        entry.centroid.flatMap (fun x => leBytes 4 x.toNat) ++ leBytes 8 entry.blockOffset ++
        leBytes 8 entry.blockSize ++ leBytes 4 entry.numFastscanBlocks.toNat) []
      (show _ = 32 + dim.toNat * 4 by simp only [List.length_append, leBytes_length, floats]; omega)
      entry.exrabitqRegionOffset.toNat_lt
    rw [List.append_nil] at word
    refine word.trans ?_
    rw [of.entry, steps, UInt32.toNat_ofNat', Nat.mod_eq_of_lt region]

/-! ### The extra codes -/

/-- The first word of a batch block is its number of codes. -/
theorem validCount_word {n : UInt32} {bb : ℕ} (parts : List Emission)
    (clean : (Emission.all (.u32 (UInt32.ofNat (validCount n bb)) :: parts)).error = none)
    (back : List UInt8) :
    word32 ((Emission.all (.u32 (UInt32.ofNat (validCount n bb)) :: parts)).bytes ++ back) 0 =
      validCount n bb := by
  have few := validCount_le n bb
  rw [Emission.all_bytes clean, List.flatMap_cons, List.append_assoc]
  have word := word32_append [] (parts.flatMap Emission.bytes ++ back) rfl
    (UInt32.ofNat (validCount n bb)).toNat_lt
  refine word.trans ?_
  rw [UInt32.toNat_ofNat']
  omega

theorem variableOffset_succ (codes : List RaBitQCode) (bb : ℕ) :
    variableOffset config dim codes (bb + 1) = variableOffset config dim codes bb +
      (variableBatch config dim codes (UInt32.ofNat codes.length) bb).bytes.length := by
  simp only [variableOffset, List.range_succ, List.map_append, List.sum_append, List.map_cons,
    List.map_nil, List.sum_cons, List.sum_nil, Nat.add_assoc, Nat.add_zero]

theorem variableOffset_mono (codes : List RaBitQCode) : Monotone (variableOffset config dim codes) :=
  monotone_nat_of_le_succ fun bb => by
    rw [variableOffset_succ]
    exact Nat.le_add_right _ _

/-- The bytes of a batch block start with its number of codes. -/
theorem variableBatch_length {codes : List RaBitQCode} {n : UInt32} {bb : ℕ}
    (clean : (variableBatch config dim codes n bb).error = none) :
    4 ≤ (variableBatch config dim codes n bb).bytes.length := by
  rw [variableBatch, Emission.all_bytes clean, List.flatMap_cons, List.length_append]
  exact Nat.le_add_right 4 _

/-- The words of a variable region. -/
theorem variable_exact {codes : List RaBitQCode} (region : fastScanBytes dim codes.length < 2 ^ 32)
    (small : variableOffset config dim codes ((codes.length + 7) / 8) < 2 ^ 32)
    (clean : (variableRegion config dim codes).error = none) :
    word32 (variableRegion config dim codes).bytes 4 = (codes.length + 7) / 8 ∧
      (∀ bb, bb ≤ (codes.length + 7) / 8 →
        word32 (variableRegion config dim codes).bytes (8 + bb * 4) =
          variableOffset config dim codes bb) ∧
      ∀ bb, bb < (codes.length + 7) / 8 →
        variableOffset config dim codes bb + 4 ≤ (variableRegion config dim codes).bytes.length ∧
          word32 (variableRegion config dim codes).bytes (variableOffset config dim codes bb) =
            min 8 (codes.length - 8 * bb) := by
  obtain ⟨batchesClean, bytes⟩ := variableRegion_bytes clean
  have blocks := numBatchBlocks_counted region
  have few := count_small region
  have header : (8 + (numBatchBlocks (UInt32.ofNat codes.length) + 1) * 4).toNat =
      8 + ((codes.length + 7) / 8 + 1) * 4 := by
    rw [UInt32.toNat_add, UInt32.toNat_mul, UInt32.toNat_add, blocks]
    simp only [UInt32.reduceToNat]
    omega
  refine ⟨?_, fun bb upTo => ?_, fun bb below => ?_⟩
  · rw [bytes, List.append_assoc, List.append_assoc,
      word32_append _ _ (leBytes_length 4 _) (UInt32.toNat_lt _), blocks]
  · have below := Nat.lt_of_le_of_lt (variableOffset_mono codes upTo) small
    have entry : (batchOffsets (UInt32.ofNat codes.length)
        (variableBatches config dim codes))[bb]? =
          some (UInt32.ofNat (variableOffset config dim codes bb)) := by
      rw [batchOffsets, List.getElem?_map, List.getElem?_range (by omega), Option.map_some, header,
        variableBatches, ← List.map_take, List.take_range, List.map_map, blocks,
        Nat.min_eq_left upTo]
      rfl
    rw [bytes, List.append_assoc]
    refine word32_of_slice ?_ below
    rw [slice_append_right_add (by simp), slice_flatMap (fun _ => leBytes_length 4 _) entry,
      UInt32.toNat_ofNat', Nat.mod_eq_of_lt below]
  · have batchClean : (variableBatch config dim codes (UInt32.ofNat codes.length) bb).error = none :=
      Emission.all_clean.1 batchesClean _ (List.mem_map_of_mem (List.mem_range.2 (by omega)))
    have least := variableBatch_length batchClean
    have length := variableRegion_length region clean
    have last : variableOffset config dim codes (bb + 1) ≤
        variableOffset config dim codes ((codes.length + 7) / 8) := variableOffset_mono codes below
    rw [variableOffset_succ] at last
    refine ⟨by omega, ?_⟩
    obtain ⟨head, headLength, whole⟩ : ∃ head : List UInt8,
        head.length = 8 + ((codes.length + 7) / 8 + 1) * 4 ∧
          (variableRegion config dim codes).bytes =
            head ++ (variableBatches config dim codes).flatMap Emission.bytes := by
      refine ⟨_, ?_, bytes⟩
      rw [List.length_append, List.length_append, batchOffsets_length, blocks, leBytes_length,
        leBytes_length]
    obtain ⟨after, split⟩ := @flatMap_range_split _ (fun k =>
      (variableBatch config dim codes (UInt32.ofNat codes.length) k).bytes) _ _ below
    rw [variableBatches, List.flatMap_map, blocks, split, ← List.append_assoc] at whole
    have border : (head ++ (List.range bb).flatMap fun k =>
        (variableBatch config dim codes (UInt32.ofNat codes.length) k).bytes).length =
          variableOffset config dim codes bb := by
      rw [List.length_append, headLength, List.length_flatMap, variableOffset]
    have word := word32_append_right border
      ((variableBatch config dim codes (UInt32.ofNat codes.length) bb).bytes ++ after) 0
    rw [whole]
    refine word.trans ((validCount_word _ batchClean after).trans ?_)
    rw [validCount, ofNat_count region]

/-- The words of batch blocks of one size. -/
theorem fixed_exact {packs : Bool} {codes : List RaBitQCode}
    (region : fastScanBytes dim codes.length < 2 ^ 32) {width : ℕ}
    (widths : ∀ bb, bb < (codes.length + 7) / 8 →
      (fixedBatch config dim packs codes (UInt32.ofNat codes.length) bb).bytes.length = width)
    (clean : ∀ bb, bb < (codes.length + 7) / 8 →
      (fixedBatch config dim packs codes (UInt32.ofNat codes.length) bb).error = none)
    {bb : ℕ} (below : bb < (codes.length + 7) / 8) :
    word32 ((List.range ((codes.length + 7) / 8)).flatMap fun bb =>
      (fixedBatch config dim packs codes (UInt32.ofNat codes.length) bb).bytes) (bb * width) =
        min 8 (codes.length - 8 * bb) := by
  obtain ⟨after, split⟩ := @flatMap_range_split _ (fun bb =>
    (fixedBatch config dim packs codes (UInt32.ofNat codes.length) bb).bytes) _ _ below
  have border := flatMap_range_length fun k (before : k < bb) => widths k (by omega)
  rw [split]
  refine (word32_append_right border _ 0).trans ((validCount_word _ (clean bb below) after).trans ?_)
  rw [validCount, ofNat_count region]

theorem extra_exact (fits : Fits env config dim input)
    (of : BlockOf env build config dim start input.toClusterJob entry block) {region : ℕ}
    (here : slice bytes region block.extra.length = block.extra) :
    ExtraExact env config dim bytes region input.codes := by
  obtain ⟨-, length, -⟩ := fits.sizes of
  have small := fits.regions
  have fastScan : fastScanBytes dim input.codes.length < 2 ^ 32 := by omega
  have blocks := numBatchBlocks_counted fastScan
  rcases exDataUnits_clean of.extraClean with
    ⟨none, -⟩ | ⟨some, ⟨batched, varies, units⟩ | ⟨batched, fixed, units⟩ | ⟨entries, -⟩⟩
  · exact ⟨fun has => absurd none has.1, fun has => absurd none has.1,
      fun has => absurd none has.1, fun has => absurd none has.1⟩
  · have clean := of.extraClean _ (by rw [units]; exact List.mem_singleton.2 rfl)
    have whole : block.extra = (variableRegion config dim input.codes).bytes := by
      rw [of.extra, units]
      simp [unitBytes, unitParts]
    rw [extraBytes, exDataBytes, if_neg some, if_pos batched, if_pos varies] at small length
    obtain ⟨count, offsets, counts⟩ := variable_exact fastScan (by omega) clean
    rw [whole] at here length
    refine ⟨fun _ => ?_, fun _ bb upTo => ?_, fun _ bb below => ?_, fun has => absurd varies has.2.2⟩
    · rw [word32_part here (by rw [length, variableOffset]; omega), count]
    · rw [word32_part here (by rw [length, variableOffset]; omega), offsets bb upTo]
    · obtain ⟨inside, valid⟩ := counts bb below
      rw [word32_part here inside, valid]
  · have clean : ∀ bb, bb < (input.codes.length + 7) / 8 →
        (fixedBatch config dim (decide (12 ≤ effectiveWriterFileVersion env config)) input.codes
          (UInt32.ofNat input.codes.length) bb).error = none := by
      intro bb below
      have each := of.extraClean
      rw [units, List.forall_mem_map] at each
      exact each bb (List.mem_range.2 (by omega))
    have whole : block.extra = (List.range ((input.codes.length + 7) / 8)).flatMap fun bb =>
        (fixedBatch config dim (decide (12 ≤ effectiveWriterFileVersion env config)) input.codes
          (UInt32.ofNat input.codes.length) bb).bytes := by
      rw [of.extra, units, unitBytes, unitParts, List.map_map, blocks, List.flatMap_def]
      rfl
    rw [extraBytes, exDataBytes, if_neg some, if_pos batched, if_neg fixed] at length
    change block.extra.length = (input.codes.length + 7) / 8 * batchBytes env config dim at length
    refine ⟨fun has => absurd has.2.2 fixed, fun has => absurd has.2.2 fixed,
      fun has => absurd has.2.2 fixed, fun _ bb below => ?_⟩
    have dims := dimBlockCount_counted (dim_small fastScan (by omega))
    have widths : ∀ bb, bb < (input.codes.length + 7) / 8 →
        (fixedBatch config dim (decide (12 ≤ effectiveWriterFileVersion env config)) input.codes
          (UInt32.ofNat input.codes.length) bb).bytes.length = batchBytes env config dim := by
      intro bb below
      rw [fixedBatch_length (clean bb below), dims]
    have room : (bb + 1) * batchBytes env config dim ≤
        (input.codes.length + 7) / 8 * batchBytes env config dim := Nat.mul_le_mul_right _ below
    have least : 4 ≤ batchBytes env config dim := by
      rw [batchBytes, fixedBatchSize]
      omega
    rw [Nat.succ_mul] at room
    rw [word32_part here (by omega), whole]
    exact fixed_exact fastScan widths clean below
  · exact ⟨fun has => absurd has.2.1 entries, fun has => absurd has.2.1 entries,
      fun has => absurd has.2.1 entries, fun has => absurd has.2.1 entries⟩

/-! ### The address table and the trailer -/

theorem table_exact (fits : Fits env config dim input)
    (of : BlockOf env build config dim start input.toClusterJob entry block) {table : ℕ}
    (here : slice bytes table (rawTableBytes block.table).length = rawTableBytes block.table) :
    TableExact bytes table input.pageSize input.addresses := by
  obtain ⟨-, rows⟩ := of.addresses
  intro i address found
  have pages := fits.pages address (List.mem_of_getElem? found)
  have row : block.table[i]? = some (rawEntry input.pageSize address) := by
    rw [rows, List.getElem?_map, found]
    rfl
  have inside : i < block.table.length := (List.getElem?_eq_some_iff.1 row).1
  have length := rawTableBytes_length block.table
  have cell : slice (rawTableBytes block.table ++ []) (i * 8) (4 + 4) =
      leBytes 4 (rawEntry input.pageSize address).offsetPages.toNat ++
        leBytes 4 (rawEntry input.pageSize address).sizePages.toNat :=
    slice_flatMap (fun _ => by simp) row []
  rw [List.append_nil] at cell
  obtain ⟨first, second⟩ := @slice_append_inj _ _
    (leBytes 4 (rawEntry input.pageSize address).offsetPages.toNat)
    (leBytes 4 (rawEntry input.pageSize address).sizePages.toNat) _
    (by rw [leBytes_length, leBytes_length]; exact cell)
  rw [leBytes_length] at first
  rw [leBytes_length, leBytes_length] at second
  constructor
  · rw [word32_part here (by omega), word32_of_slice first (UInt32.toNat_lt _), rawEntry,
      UInt64.toNat_toUInt32, UInt64.toNat_div, UInt32.toNat_toUInt64, Nat.mod_eq_of_lt pages]
  · rw [word32_part here (by omega), word32_of_slice second (UInt32.toNat_lt _), rawEntry,
      UInt32.toNat_div]

theorem trailer_words (fields : TrailerFields) :
    word32 fields.bytes 4 = fields.pageSize.toNat ∧ word32 fields.bytes 8 = 8 ∧
      word32 fields.bytes 12 = fields.numEntries.toNat ∧
      word32 fields.bytes 16 = fields.addressPayloadOffset.toNat ∧
      word32 fields.bytes 20 = fields.addressPayloadBytes.toNat := by
  have row : fields.bytes = [kAddressFormatV2.toNat, fields.pageSize.toNat, 8,
      fields.numEntries.toNat, fields.addressPayloadOffset.toNat,
      fields.addressPayloadBytes.toNat].flatMap (leBytes 4) := by
    simp [TrailerFields.bytes]
  rw [row]
  exact ⟨word32_words (i := 1) rfl (UInt32.toNat_lt _), word32_words (i := 2) rfl (by decide),
    word32_words (i := 3) rfl (UInt32.toNat_lt _), word32_words (i := 4) rfl (UInt32.toNat_lt _),
    word32_words (i := 5) rfl (UInt32.toNat_lt _)⟩

theorem trailer_exact (fits : Fits env config dim input)
    (of : BlockOf env build config dim start input.toClusterJob entry block) {trailer : ℕ}
    (here : slice bytes trailer block.trailer.bytes.length = block.trailer.bytes)
    (size : slice bytes (trailer + 24) 4 = leBytes 4 block.miniTrailer.toNat) :
    TrailerExact bytes trailer
      (fastScanBytes dim input.codes.length + extraBytes env config dim input.codes)
      input.addresses.length input.pageSize := by
  obtain ⟨⟨fastLength, fastSteps⟩, extraLength, extraSteps⟩ := fits.sizes of
  obtain ⟨pageSize, rows⟩ := of.addresses
  have count : block.table.length = input.addresses.length := by rw [rows, List.length_map]
  have table := fits.table
  have regions := fits.regions
  have length := trailerFields_length block.trailer
  have entries : (UInt32.ofNat input.addresses.length).toNat = input.addresses.length := by
    rw [UInt32.toNat_ofNat']
    omega
  have payload : (UInt32.ofNat input.addresses.length * 8).toNat = input.addresses.length * 8 := by
    rw [UInt32.toNat_mul, entries]
    simp only [UInt32.reduceToNat]
    omega
  obtain ⟨page, eight, num, offset, size'⟩ := trailer_words block.trailer
  constructor
  · rw [word32_part here (by omega), page, pageSize]
  · rw [word32_part here (by omega), eight]
  · rw [word32_part here (by omega), num, of.numEntries, count, entries]
  · rw [word32_part here (by omega), offset, of.payloadOffset, fastSteps, extraSteps, count, payload,
      Nat.add_sub_cancel, UInt32.toNat_ofNat', Nat.mod_eq_of_lt regions]
  · rw [word32_part here (by omega), size', of.payloadBytes, count, payload]
  · have exactly : start + block.fastScan.length + block.extra.length +
        (rawTableBytes block.table).length + 32 -
          (start + unitSteps (fastScanUnits dim input.codes) +
            unitSteps (exDataUnits config dim (effectiveWriterFileVersion env config) input.codes) +
            block.table.length * 8) = 32 := by
      rw [fastLength, fastSteps, extraLength, extraSteps, rawTableBytes_length]
      omega
    rw [word32_of_slice size (UInt32.toNat_lt _), of.miniTrailer, exactly]
    rfl

/-- **A cluster that fits has exact fields.** -/
theorem cluster_exact (fits : Fits env config dim input)
    (of : BlockOf env build config dim start input.toClusterJob entry block)
    (holds : Holds bytes entryAt entry block) :
    ClusterExact env config dim bytes entryAt start input := by
  obtain ⟨⟨fastLength, -⟩, extraLength, -⟩ := fits.sizes of
  obtain ⟨-, rows⟩ := of.addresses
  have offset : entry.blockOffset = start := by rw [of.entry]
  have whole := holds.blockHere
  rw [offset, Block.bytes] at whole
  have tableLength : (rawTableBytes block.table).length = input.addresses.length * 8 := by
    rw [rawTableBytes_length, rows, List.length_map]
  refine ⟨entry_exact fits of holds, extra_exact fits of ?_, table_exact fits of ?_,
    trailer_exact fits of ?_ ?_⟩
  · exact slice_part whole fastLength
  · refine @slice_part _ _ (block.fastScan ++ block.extra) _ (block.trailer.bytes ++
      (leBytes 4 block.miniTrailer.toNat ++ leBytes 4 kBlockMagic.toNat)) _ _ ?_
      (by rw [List.length_append, fastLength, extraLength])
    rw [List.append_assoc]
    exact whole
  · refine @slice_part _ _ (block.fastScan ++ block.extra ++ rawTableBytes block.table) _
      (leBytes 4 block.miniTrailer.toNat ++ leBytes 4 kBlockMagic.toNat) _ _ ?_
      (by rw [List.length_append, List.length_append, fastLength, extraLength, tableLength])
    rw [List.append_assoc, List.append_assoc]
    exact whole
  · have size := @slice_part _ _ (block.fastScan ++ block.extra ++ rawTableBytes block.table ++
      block.trailer.bytes) (leBytes 4 block.miniTrailer.toNat) (leBytes 4 kBlockMagic.toNat)
      start _ (by simpa only [List.append_assoc] using whole) rfl
    rw [leBytes_length] at size
    rw [← size]
    congr 1
    rw [List.length_append, List.length_append, List.length_append, fastLength, extraLength,
      tableLength, trailerFields_length]
    omega

end Fitting

/-! ## Files -/

/-- The fields of a whole file. -/
structure FieldsExact {build : Build} (env : Option ℤ) (config : StoreConfig)
    (numClusters dim : UInt32) (inputs : List (ClusterInput build)) (path : List UInt8)
    (w : ClusterStoreWriter) : Prop where
  clusterCount : word32 w.file.bytes 8 = numClusters.toNat
  dimension : word32 w.file.bytes 12 = dim.toNat
  pathLength : word32 w.file.bytes w.headerPathOffset = path.length
  clusters : ∀ i input, inputs[i]? = some input →
    ClusterExact env config dim w.file.bytes (w.lookupTableStart + i * lookupEntrySize dim)
      (w.lookupTable.getD i {}).blockOffset input

theorem header_words (version numClusters dim : UInt32) (config : StoreConfig) :
    word32 (headerBytes version numClusters dim config) 8 = numClusters.toNat ∧
      word32 (headerBytes version numClusters dim config) 12 = dim.toNat ∧
      16 ≤ (headerBytes version numClusters dim config).length := by
  simp only [headerBytes, List.append_assoc]
  refine ⟨?_, ?_, ?_⟩
  · rw [← List.append_assoc (leBytes 4 kGlobalMagic.toNat)]
    exact word32_append _ _ (by simp) (UInt32.toNat_lt _)
  · rw [← List.append_assoc (leBytes 4 kGlobalMagic.toNat), ← List.append_assoc (_ ++ _)]
    exact word32_append _ _ (by simp) (UInt32.toNat_lt _)
  · simp only [List.length_append, leBytes_length]
    omega

theorem path_word (path : List UInt8) :
    word32 (pathBytes path) 0 = path.length % 2 ^ 32 ∧ 4 ≤ (pathBytes path).length := by
  rw [pathBytes, List.append_assoc]
  constructor
  · have word := word32_append [] (path.take (UInt32.ofNat path.length).toNat ++
      List.replicate (kMaxPathLen.toNat - (UInt32.ofNat path.length).toNat) 0) rfl
      (UInt32.toNat_lt (UInt32.ofNat path.length))
    refine word.trans ?_
    rw [UInt32.toNat_ofNat']
  · rw [List.length_append, leBytes_length]
    omega

/-- **The 32-bit fields of a file are exact if and only if its clusters fit.** -/
theorem fields_exact_iff {env : Option ℤ} {build : Build} {numClusters dim : UInt32}
    {config kept : StoreConfig} {room : Option ℕ} {inputs : List (ClusterInput build)}
    {path : List UInt8} {w : ClusterStoreWriter} (accepted : config.opened env = .ok kept)
    (ok : writeFile env build numClusters dim config room (inputs.map (·.toClusterJob)) path =
      (none, w)) :
    FieldsExact env kept numClusters dim inputs path w ↔
      (∀ input ∈ inputs, Fits env kept dim input) ∧ path.length < 2 ^ 32 := by
  obtain ⟨kept', finished⟩ := writeFile_ok ok
  obtain rfl : kept' = kept := by
    have same := finished.accepted.symm.trans accepted
    simpa using same
  constructor
  · intro fields
    refine ⟨fun input mem => ?_, ?_⟩
    · obtain ⟨i, found⟩ := List.mem_iff_getElem?.1 mem
      exact (fields.clusters i input found).fits
    · rw [← fields.pathLength]
      exact word32_lt _ _
  · rintro ⟨fit, short⟩
    obtain ⟨count, dimension, length⟩ :=
      header_words (effectiveWriterFileVersion env kept') numClusters dim kept'
    obtain ⟨pathWord, pathLength⟩ := path_word path
    have header := finished.headerHere
    have pathHere := finished.pathHere
    rw [finished.headerLength] at header
    rw [← pathBytes_length finished.pathShort] at pathHere
    refine ⟨?_, ?_, ?_, fun i input found => ?_⟩
    · have word := word32_part header (show 8 + 4 ≤ _ by omega)
      rwa [Nat.zero_add, count] at word
    · have word := word32_part header (show 12 + 4 ≤ _ by omega)
      rwa [Nat.zero_add, dimension] at word
    · have word := word32_part pathHere (show 0 + 4 ≤ _ by omega)
      rwa [Nat.add_zero, pathWord, Nat.mod_eq_of_lt short] at word
    · obtain ⟨start, entry, block, row, of, holds⟩ := finished.clusters i input.toClusterJob (by
        rw [List.getElem?_map, found]
        rfl)
      have offset : (w.lookupTable.getD i {}).blockOffset = start := by
        rw [List.getD_eq_getElem?_getD, row, of.entry]
        rfl
      rw [offset]
      exact cluster_exact (fit input (List.mem_of_getElem? found)) of holds

/-! ## Two clusters with extra codes -/

def elidedConfig : StoreConfig where
  bits := 3
  totalBits := 4
  exBits := 3
  estimatorMode := .official1PlusN
  exdataLayout := .split3ZeroPlaneElide

/-- Two records in a layout that leaves out empty planes. -/
def twoRecords : ClusterInput .scalar where
  clusterId := 7
  numRecords := 2
  epsilon := 1
  centroid := List.replicate 8 5
  codes :=
    [{ code := [0x5A], norm := 1, sumX := 4, bits := 3, exCode := [0, 1, 2, 3, 4, 5, 6, 7]
       exCodeSignFolded := true, exFactorAdd := 2, exFactorRescale := 3 },
     { code := [0xC3], norm := 4, sumX := 4, bits := 3, exCode := [1, 0, 1, 0, 1, 0, 1, 0]
       exCodeSignFolded := true, exFactorAdd := 5, exFactorRescale := 6 }]
  column := encodeRawTableV2 [⟨4096, 4096⟩, ⟨8192, 8192⟩] 4096
  pageSize := 4096
  addresses := [⟨4096, 4096⟩, ⟨8192, 8192⟩]
  holds := .table 4096 _

/-- A record whose extra code has no empty plane. -/
def fullRecord : ClusterInput .scalar where
  clusterId := 3
  numRecords := 1
  epsilon := 2
  centroid := [1, 2, 3, 4, 5, 6, 7, 8]
  codes :=
    [{ code := [0x0F], norm := 7, sumX := 4, bits := 3, exCode := [7, 6, 5, 4, 3, 2, 1, 0]
       exCodeSignFolded := true, exFactorAdd := 8, exFactorRescale := 9 }]
  column := encodeRawTableV2 [⟨16384, 8192⟩] 4096
  pageSize := 4096
  addresses := [⟨16384, 8192⟩]
  holds := .table 4096 _

/-- Every field of a file of two clusters with extra codes is exact. -/
theorem fields_exact_iff_two_clusters :
    ∃ w, writeFile none .scalar 2 8 elidedConfig none
        [twoRecords.toClusterJob, fullRecord.toClusterJob] [0x61] = (none, w) ∧
      FieldsExact none elidedConfig 2 8 [twoRecords, fullRecord] [0x61] w := by
  have runs : (writeFile none .scalar 2 8 elidedConfig none
      [twoRecords.toClusterJob, fullRecord.toClusterJob] [0x61]).1 = none := by decide +kernel
  obtain ⟨w, ok⟩ : ∃ w, writeFile none .scalar 2 8 elidedConfig none
      [twoRecords.toClusterJob, fullRecord.toClusterJob] [0x61] = (none, w) :=
    ⟨Prod.snd _, runs ▸ Prod.mk.eta.symm⟩
  refine ⟨w, ok, (@fields_exact_iff none .scalar 2 8 elidedConfig elidedConfig none
    [twoRecords, fullRecord] [0x61] w rfl ok).2 ⟨fun input mem => ?_, by decide⟩⟩
  rcases List.mem_cons.1 mem with rfl | mem
  · exact ⟨by decide +kernel, by decide, by decide⟩
  · obtain rfl := List.mem_singleton.1 mem
    exact ⟨by decide +kernel, by decide, by decide⟩

/-! ## A far record -/

/-- A cluster of one record in eight dimensions, at an offset of the data file. -/
def recordAt (offset : UInt64) : ClusterInput .scalar where
  clusterId := 0
  numRecords := 1
  epsilon := 0
  centroid := List.replicate 8 0
  codes := [{ code := [0], norm := 0, sumX := 0 }]
  column := encodeRawTableV2 [⟨offset, 4096⟩] 4096
  pageSize := 4096
  addresses := [⟨offset, 4096⟩]
  holds := .table 4096 [⟨offset, 4096⟩]

theorem recordAt_written (offset : UInt64) :
    ∃ w, writeFile none .scalar 1 8 {} none [(recordAt offset).toClusterJob] [] = (none, w) := by
  refine writeFile_runs rfl (Nat.le_refl 1) ?_ (by decide)
  intro job mem
  obtain rfl := List.mem_singleton.1 mem
  refine ⟨Nat.le_refl 8, fun unit mem => ?_, fun unit mem => absurd mem List.not_mem_nil, rfl,
    ⟨_, rfl⟩⟩
  obtain ⟨b, -, rfl⟩ := List.mem_map.1 mem
  obtain ⟨packed, run, -⟩ := @packSignBits_spec (8 : UInt32).toNat
    (blockCodes (recordAt offset).codes 1 b) (by decide)
  show (fastScanUnit 8 (recordAt offset).codes 1 b).emission.error = none
  rw [fastScanUnit, run]
  rfl

/-- An address of `2 ^ 32` pages is stored as page 0. -/
theorem page_truncated :
    ∃ w, writeFile none .scalar 1 8 {} none [(recordAt 0x100000000000).toClusterJob] [] =
        (none, w) ∧
      ¬ FieldsExact none {} 1 8 [recordAt 0x100000000000] [] w := by
  obtain ⟨w, ok⟩ := recordAt_written 0x100000000000
  refine ⟨w, ok, fun fields => ?_⟩
  have pages := (fields.clusters 0 _ rfl).fits.pages ⟨0x100000000000, 4096⟩
    (List.mem_singleton.2 rfl)
  exact absurd pages (by decide)

end VecFetch.Storage
