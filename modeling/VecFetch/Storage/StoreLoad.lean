/-
# Storage.StoreLoad -- loading what a writer wrote

A cluster that a finished file holds, whose 32-bit fields are exact and which has one code for
each record, is framed, and passes what only one of the parsers checks.  All three parsers
accept it and agree on it (`Written.accepted_alike`), and the loaded cluster holds the two code
regions and the table that were written (`Written.loads`).
-/
import VecFetch.Storage.ClusterOpen
import VecFetch.Storage.ParserAgreement

namespace VecFetch.Storage

open VecFetch.Theory VecFetch.Simd VecFetch.Rabitq VecFetch.Query ClusterStoreWriter

set_option autoImplicit false

/-- A cluster that a finished file holds, with exact fields and a code for each record. -/
structure Written {build : Build} (env : Option ℤ) (config : StoreConfig) (dim : UInt32)
    (bytes : List UInt8) (input : ClusterInput build) (entry : LookupEntry) (block : Block) :
    Prop where
  kept : ∃ given : StoreConfig, given.opened env = .ok config
  of : BlockOf env build config dim entry.blockOffset input.toClusterJob entry block
  held : ∃ entryAt, Holds bytes entryAt entry block
  fits : Fits env config dim input
  records : input.codes.length = input.numRecords.toNat
  small : bytes.length < 2 ^ 63

/-- How a reader of the file reads. -/
def fileGeometry (env : Option ℤ) (config : StoreConfig) (dim : UInt32) : ReaderGeometry :=
  ⟨effectiveWriterFileVersion env config, dim, config⟩

section Version

variable {env : Option ℤ} {config : StoreConfig}

theorem ten_le_version (env : Option ℤ) (config : StoreConfig) :
    10 ≤ effectiveWriterFileVersion env config := by
  unfold effectiveWriterFileVersion effectiveLegacyWriterFileVersion
  cases env <;> dsimp only <;> split_ifs <;> decide

theorem nine_le_version (env : Option ℤ) (config : StoreConfig) :
    9 ≤ effectiveWriterFileVersion env config :=
  UInt32.le_trans (by decide) (ten_le_version env config)

/-- Batch blocks vary exactly where their region has a header. -/
theorem varies_iff {dim : UInt32} :
    (fileGeometry env config dim).variableExBlocks = true ↔
      config.usesOfficial1PlusN = true ∧
        usesVariableOfficialExDataLayout config.effectiveExdataLayout = true := by
  rw [variableExBlocks_iff]
  constructor
  · intro varies
    exact ⟨official_of_variable (variableExBlocks_iff.2 varies), varies.2⟩
  · rintro ⟨official, varies⟩
    refine ⟨?_, varies⟩
    rw [fileGeometry, effectiveWriterFileVersion, if_pos official, if_pos varies]
    exact UInt32.le_refl 15

/-- A layout of varying batch blocks has extra bits. -/
theorem exBits_of_variable (official : config.usesOfficial1PlusN = true)
    (valid : config.exdataLayoutValid = true)
    (varies : usesVariableOfficialExDataLayout config.effectiveExdataLayout = true) :
    config.stage2PayloadBits ≠ 0 := by
  rw [RaBitQConfig.stage2PayloadBits, if_pos official]
  intro none
  rw [StoreConfig.exdataLayoutValid, official, none] at valid
  simp only [Bool.not_true, Bool.false_eq_true, if_false] at valid
  generalize config.effectiveExdataLayout = layout at valid varies
  revert valid varies
  cases layout <;> decide

end Version

/-! ## The words of a block -/

theorem wordAt_ofList {bytes : List UInt8} {off : ℕ} (inside : off + 4 ≤ bytes.length) :
    wordAt (Buffer.ofList bytes) off = UInt32.ofNat (word32 bytes off) := by
  rw [wordAt, word32, leValue, slice_length inside]
  refine congrArg UInt32.ofNat (leNat_congr fun j below => ?_)
  simp [Buffer.ofList, slice, below]

/-- A column that is accepted has an address for each record. -/
theorem Addresses.count {build : Build} {column : AddressPayload} {pageSize numRecords : UInt32}
    {entries : List AddressEntry} (holds : Addresses build column pageSize entries)
    (accepted : ClusterStoreWriter.columnError numRecords column = none) :
    entries.length = numRecords.toNat := by
  cases holds with
  | table =>
      rw [encodeRawTableV2, ClusterStoreWriter.columnError] at accepted
      split at accepted
      · cases accepted
      · split at accepted
        · cases accepted
        · next same => simpa using same
  | packed decodes =>
      rw [ClusterStoreWriter.columnError] at accepted
      split at accepted
      · cases accepted
      · next same =>
          rw [decodeBatchBlocks_length decodes]
          exact congrArg UInt32.toNat (not_not.1 same)

namespace Written

variable {build : Build} {env : Option ℤ} {config : StoreConfig} {dim : UInt32}
variable {bytes : List UInt8} {input : ClusterInput build} {entry : LookupEntry} {block : Block}

section Sizes

variable (env config dim input)

/-- The bytes of the codes of both regions. -/
abbrev codeBytes : ℕ :=
  fastScanBytes dim input.codes.length + extraBytes env config dim input.codes

end Sizes

theorem blockSize (written : Written env config dim bytes input entry block) :
    entry.blockSize = codeBytes env config dim input + input.addresses.length * 8 + 32 ∧
      block.bytes.length = entry.blockSize := by
  obtain ⟨⟨fast, -⟩, extra, -⟩ := written.fits.sizes written.of
  obtain ⟨-, rows⟩ := written.of.addresses
  have size : entry.blockSize = block.bytes.length :=
    congrArg LookupEntry.blockSize written.of.entry
  have length : block.bytes.length =
      codeBytes env config dim input + input.addresses.length * 8 + 32 := by
    simp only [Block.bytes, List.length_append, fast, extra, rawTableBytes_length, rows,
      List.length_map, trailerFields_length, leBytes_length, codeBytes]
    omega
  exact ⟨size.trans length, size.symm⟩

theorem inside (written : Written env config dim bytes input entry block) :
    entry.blockOffset + entry.blockSize ≤ bytes.length := by
  obtain ⟨entryAt, holds⟩ := written.held
  rw [← written.blockSize.2]
  exact holds.inside

theorem exactly (written : Written env config dim bytes input entry block) : ∃ entryAt,
    ClusterExact env config dim bytes entryAt entry.blockOffset input := by
  obtain ⟨entryAt, holds⟩ := written.held
  exact ⟨entryAt, cluster_exact written.fits written.of holds⟩

/-- There are as many addresses as records. -/
theorem addresses_length (written : Written env config dim bytes input entry block) :
    input.addresses.length = input.numRecords.toNat :=
  input.holds.count written.of.column

theorem numRecords (written : Written env config dim bytes input entry block) :
    entry.numRecords = input.numRecords :=
  congrArg LookupEntry.numRecords written.of.entry

/-! ## Sizes, as words -/

theorem fastScan_small (written : Written env config dim bytes input entry block) :
    fastScanBytes dim input.codes.length < 2 ^ 32 :=
  Nat.lt_of_le_of_lt (Nat.le_add_right _ _) written.fits.regions

theorem codeBytes_toNat (written : Written env config dim bytes input entry block) :
    (UInt32.ofNat (codeBytes env config dim input)).toNat = codeBytes env config dim input :=
  UInt32.toNat_ofNat_of_lt' written.fits.regions

theorem tableBytes_toNat (written : Written env config dim bytes input entry block) :
    (UInt32.ofNat (input.addresses.length * 8)).toNat = input.addresses.length * 8 :=
  UInt32.toNat_ofNat_of_lt' written.fits.table

/-! ## The trailer -/

variable (bytes entry) in
/-- The bytes of the block of an entry. -/
def blockAt : Buffer :=
  ⟨entry.blockSize, fun j => (Buffer.ofList bytes).byte (entry.blockOffset + j)⟩

theorem wordAt_block (written : Written env config dim bytes input entry block) {off n : ℕ}
    (here : word32 bytes (entry.blockOffset + off) = n) (inside : off + 4 ≤ entry.blockSize) :
    wordAt (blockAt bytes entry) off = UInt32.ofNat n := by
  have within := written.inside
  have word := @wordAt_ofList bytes (entry.blockOffset + off) (by omega)
  rw [here] at word
  rw [← word, wordAt, wordAt, blockAt]
  simp only [Nat.add_assoc]

/-- The first word and the last word of a trailer. -/
theorem trailer_ends (written : Written env config dim bytes input entry block) :
    word32 bytes (entry.blockOffset +
        (codeBytes env config dim input + input.addresses.length * 8)) = kAddressFormatV2.toNat ∧
      word32 bytes (entry.blockOffset +
          (codeBytes env config dim input + input.addresses.length * 8 + 28)) =
        kBlockMagic.toNat := by
  obtain ⟨⟨fast, -⟩, extra, -⟩ := written.fits.sizes written.of
  obtain ⟨-, rows⟩ := written.of.addresses
  obtain ⟨entryAt, holds⟩ := written.held
  have whole := holds.blockHere
  have front : (block.fastScan ++ (block.extra ++ rawTableBytes block.table)).length =
      codeBytes env config dim input + input.addresses.length * 8 := by
    rw [List.length_append, List.length_append, fast, extra, rawTableBytes_length, rows,
      List.length_map, codeBytes]
    omega
  set k := codeBytes env config dim input + input.addresses.length * 8 with kDef
  have trailer := trailerFields_length block.trailer
  have parts : block.bytes = (block.fastScan ++ (block.extra ++ rawTableBytes block.table)) ++
      (leBytes 4 kAddressFormatV2.toNat ++ (block.trailer.bytes.drop 4 ++
        (leBytes 4 block.miniTrailer.toNat ++ leBytes 4 kBlockMagic.toNat))) := by
    simp [Block.bytes, TrailerFields.bytes, List.append_assoc]
  have first := slice_part (parts ▸ whole) front
  have last := @slice_part _ bytes
    ((block.fastScan ++ (block.extra ++ rawTableBytes block.table)) ++
      (block.trailer.bytes ++ leBytes 4 block.miniTrailer.toNat)) (leBytes 4 kBlockMagic.toNat) []
    entry.blockOffset (k + 28) (by simpa [Block.bytes, List.append_assoc] using whole)
    (by rw [List.length_append, front, List.length_append, trailer, leBytes_length])
  rw [leBytes_length] at first last
  exact ⟨word32_of_slice first (UInt32.toNat_lt _), word32_of_slice last (UInt32.toNat_lt _)⟩

theorem trailerSize_block (written : Written env config dim bytes input entry block) :
    trailerSize (blockAt bytes entry) = 32 := by
  obtain ⟨entryAt, fields⟩ := written.exactly
  have size := written.blockSize.1
  have place : (blockAt bytes entry).size - 8 =
      codeBytes env config dim input + input.addresses.length * 8 + 24 := by
    show entry.blockSize - 8 = _
    omega
  rw [trailerSize, place]
  exact written.wordAt_block (n := 32) (by
    rw [← fields.trailer.trailerSize]
    congr 1) (by omega)

theorem trailerStart_block (written : Written env config dim bytes input entry block) :
    trailerStart (blockAt bytes entry) =
      codeBytes env config dim input + input.addresses.length * 8 := by
  have size := written.blockSize.1
  rw [trailerStart, written.trailerSize_block]
  show entry.blockSize - 32 = _
  omega

/-- What the trailer says of the addresses. -/
theorem addressesAt_block (written : Written env config dim bytes input entry block) :
    addressesAt (effectiveWriterFileVersion env config) (blockAt bytes entry) =
      .rawTable input.pageSize (UInt32.ofNat (codeBytes env config dim input))
        (UInt32.ofNat (input.addresses.length * 8)) := by
  obtain ⟨entryAt, fields⟩ := written.exactly
  have size := written.blockSize.1
  rw [addressesAt_raw (nine_le_version env config), written.trailerStart_block,
    written.wordAt_block fields.trailer.pageSize (by omega),
    written.wordAt_block fields.trailer.payloadOffset (by omega),
    written.wordAt_block fields.trailer.payloadBytes (by omega), UInt32.ofNat_toNat]

theorem fieldsAgree_block (written : Written env config dim bytes input entry block) :
    FieldsAgree (effectiveWriterFileVersion env config) entry.numRecords (blockAt bytes entry)
      (trailerStart (blockAt bytes entry)) := by
  obtain ⟨entryAt, fields⟩ := written.exactly
  have size := written.blockSize.1
  rw [FieldsAgree, if_pos (nine_le_version env config), written.trailerStart_block,
    written.wordAt_block written.trailer_ends.1 (by omega),
    written.wordAt_block fields.trailer.entrySize (by omega),
    written.wordAt_block fields.trailer.numEntries (by omega), written.addresses_length,
    written.numRecords, UInt32.ofNat_toNat, UInt32.ofNat_toNat]
  exact ⟨rfl, rfl, rfl⟩

theorem hasTrailer (written : Written env config dim bytes input entry block) :
    HasTrailer (effectiveWriterFileVersion env config) entry.numRecords (blockAt bytes entry) where
  magic := by
    have size := written.blockSize.1
    have place : (blockAt bytes entry).size - 4 =
        codeBytes env config dim input + input.addresses.length * 8 + 28 := by
      show entry.blockSize - 4 = _
      omega
    rw [place, written.wordAt_block written.trailer_ends.2 (by omega), UInt32.ofNat_toNat]
  inside := by
    rw [written.trailerSize_block]
    show 32 ≤ entry.blockSize
    have size := written.blockSize.1
    omega
  size := by
    rw [written.trailerSize_block, written.addressesAt_block]
    rfl
  fields := written.fieldsAgree_block
  granularity := by
    rw [written.addressesAt_block]
    trivial

/-! ## The regions -/

/-- The FastScan blocks, as the reader counts them. -/
theorem fastScanBlocks (written : Written env config dim bytes input entry block) :
    entry.numFastscanBlocks.toNat = (input.codes.length + 31) / 32 ∧
      (0 < input.codes.length → (fileGeometry env config dim).fastscanBlockBytes.toNat =
        (dim.toNat + 7) / 8 * 32 + 128) := by
  have small := written.fastScan_small
  constructor
  · rw [congrArg LookupEntry.numFastscanBlocks written.of.entry]
    exact numBlocks_counted small
  · exact fun some => (fastScanBlockSize_counted (dim_small small some)).1

/-- The FastScan region, as the reader computes it. -/
theorem region1Size (written : Written env config dim bytes input entry block) :
    (entry.numFastscanBlocks * (fileGeometry env config dim).fastscanBlockBytes).toNat =
      fastScanBytes dim input.codes.length := by
  have small := written.fastScan_small
  obtain ⟨blocks, blockBytes⟩ := written.fastScanBlocks
  rw [UInt32.toNat_mul, blocks]
  rcases Nat.eq_zero_or_pos input.codes.length with empty | some
  · simp [empty, fastScanBytes]
  · rw [blockBytes some]
    exact Nat.mod_eq_of_lt small

/-- The entries before version 11, as the reader computes them. -/
theorem entriesSize (written : Written env config dim bytes input entry block)
    (old : ¬ 11 ≤ effectiveWriterFileVersion env config) :
    (entry.numRecords * (fileGeometry env config dim).exrabitqEntrySize).toNat =
      extraBytes env config dim input.codes := by
  have fits := written.fits.regions
  have small := written.fastScan_small
  have records : entry.numRecords.toNat = input.codes.length := by
    rw [written.numRecords, written.records]
  have legacy : ¬ config.usesOfficial1PlusN = true := by
    intro official
    exact old (UInt32.le_trans (by decide) (officialVersion official).1)
  have payload : config.stage2PayloadBits = if 1 < config.bits then config.bits else 0 :=
    if_neg legacy
  have signs : (fileGeometry env config dim).exrabitqSignBytes =
      if config.bits ≤ 1 then 0 else (dim + 7) / 8 := by
    rw [ReaderGeometry.exrabitqSignBytes, fileGeometry]
    dsimp only
    rw [if_neg legacy, if_pos (ten_le_version env config)]
  have size : (fileGeometry env config dim).exrabitqEntrySize =
      if config.bits ≤ 1 then 0 else dim + (if config.bits ≤ 1 then 0 else (dim + 7) / 8) + 4 := by
    rw [ReaderGeometry.exrabitqEntrySize, signs, fileGeometry]
    dsimp only
    rw [if_neg old]
  rw [extraBytes, exDataBytes, payload, if_neg old] at fits ⊢
  rw [size]
  by_cases one : config.bits ≤ 1
  · have none : ¬ 1 < config.bits := UInt8.not_lt.2 one
    rw [if_pos one, if_neg none, if_pos rfl, UInt32.mul_zero]
    rfl
  · have some : 1 < config.bits := UInt8.not_le.1 one
    have bits : config.bits ≠ 0 := UInt8.pos_iff_ne_zero.1 (UInt8.lt_trans (by decide) some)
    rw [if_pos some, if_neg bits] at fits
    rw [if_neg one, if_neg one, if_pos some, if_neg bits, UInt32.toNat_mul, records]
    rcases Nat.eq_zero_or_pos input.codes.length with empty | present
    · rw [empty, Nat.zero_mul, Nat.zero_mul]
    · have least := Nat.le_mul_of_pos_left (dim.toNat + (dim.toNat + 7) / 8 + 4) present
      have seven : (dim + 7).toNat = dim.toNat + 7 := by
        have dims := dim_small small present
        rw [UInt32.toNat_add]
        simp only [UInt32.reduceToNat]
        omega
      have one : (dim + (dim + 7) / 8 + 4).toNat = dim.toNat + (dim.toNat + 7) / 8 + 4 := by
        rw [UInt32.toNat_add, UInt32.toNat_add, UInt32.toNat_div, seven]
        simp only [UInt32.reduceToNat]
        omega
      rw [one]
      exact Nat.mod_eq_of_lt (by omega)

theorem regionsAt_block (written : Written env config dim bytes input entry block) :
    let regions := regionsAt (fileGeometry env config dim) entry (blockAt bytes entry)
    regions.region1Size.toNat = fastScanBytes dim input.codes.length ∧
      regions.region2Size.toNat = extraBytes env config dim input.codes ∧
      regions.codesLength.toNat = codeBytes env config dim input ∧
      regions.expectedPayloadBytes = input.addresses.length * 8 := by
  intro regions
  have fits := written.fits.regions
  have total := written.codeBytes_toNat
  have addresses := written.addressesAt_block
  have first : regions.region1Size.toNat = fastScanBytes dim input.codes.length :=
    written.region1Size
  have offset : (addressesAt (fileGeometry env config dim).fileVersion
      (blockAt bytes entry)).payloadOffset = UInt32.ofNat (codeBytes env config dim input) :=
    congrArg AddressTrailer.payloadOffset addresses
  have second : regions.region2Size.toNat = extraBytes env config dim input.codes := by
    by_cases batched : 11 ≤ effectiveWriterFileVersion env config
    · have start : regions.region1Size ≤ UInt32.ofNat (codeBytes env config dim input) := by
        rw [UInt32.le_iff_toNat_le, first, total]
        exact Nat.le_add_right _ _
      have here : regions.region2Size =
          UInt32.ofNat (codeBytes env config dim input) - regions.region1Size := by
        refine (if_pos batched).trans ?_
        rw [offset]
        exact if_pos start
      rw [here, UInt32.toNat_sub_of_le _ _ start, first, total]
      exact Nat.add_sub_cancel_left _ _
    · have here : regions.region2Size =
          entry.numRecords * (fileGeometry env config dim).exrabitqEntrySize := if_neg batched
      rw [here]
      exact written.entriesSize batched
  have payload : regions.expectedPayloadBytes = input.addresses.length * 8 := by
    refine (congrArg AddressTrailer.payloadBytes addresses).trans ?_
    exact written.tableBytes_toNat
  refine ⟨first, second, ?_, payload⟩
  rw [BlockRegions.codesLength, UInt32.toNat_add, first, second]
  exact Nat.mod_eq_of_lt fits

/-- **A written block is framed.** -/
theorem framed (written : Written env config dim bytes input entry block) :
    Framed (fileGeometry env config dim) entry (blockAt bytes entry) where
  footer := by
    have size := written.blockSize.1
    show 8 ≤ entry.blockSize
    omega
  trailer := written.hasTrailer
  fill := by
    obtain ⟨-, -, codes, payload⟩ := written.regionsAt_block
    rw [RegionsFill, codes, payload, written.trailerSize_block]
    exact written.blockSize.1.symm

/-! ## What one parser checks -/

theorem kept_valid (written : Written env config dim bytes input entry block)
    (official : config.usesOfficial1PlusN = true) : config.exdataLayoutValid = true := by
  obtain ⟨given, accepted⟩ := written.kept
  cases mode : given.usesOfficial1PlusN with
  | true => exact (opened_official mode accepted).2.layout
  | false =>
      have legacy := (opened_legacy mode accepted).1
      exact absurd official (Bool.eq_false_iff.1 legacy)

/-- The region of varying batch blocks starts with its magic. -/
theorem variableMagic (written : Written env config dim bytes input entry block)
    (has : HasVariableRegion env config) :
    word32 bytes (entry.blockOffset + fastScanBytes dim input.codes.length) =
      kVariableExRegionMagic.toNat := by
  obtain ⟨⟨fast, -⟩, -⟩ := written.fits.sizes written.of
  obtain ⟨entryAt, holds⟩ := written.held
  have whole := holds.blockHere
  rcases exDataUnits_clean written.of.extraClean with
    ⟨none, -⟩ | ⟨-, ⟨-, -, units⟩ | ⟨-, fixed, -⟩ | ⟨entries, -⟩⟩
  · exact absurd none has.1
  · have clean := written.of.extraClean _ (by rw [units]; exact List.mem_singleton.2 rfl)
    have extra : block.extra = (variableRegion config dim input.codes).bytes := by
      rw [written.of.extra, units]
      simp [unitBytes, unitParts]
    rw [Block.bytes, extra, (variableRegion_bytes clean).2, List.append_assoc, List.append_assoc,
      List.append_assoc] at whole
    have first := slice_part whole fast
    rw [leBytes_length] at first
    exact word32_of_slice first (UInt32.toNat_lt _)
  · exact absurd has.2.2 fixed
  · exact absurd has.2.1 entries

/-- The region of varying batch blocks has its header. -/
theorem variableHeader (written : Written env config dim bytes input entry block)
    (varies : (fileGeometry env config dim).variableExBlocks = true) :
    0 < config.stage2PayloadBits ∧
      VariableHeader (blockAt bytes entry) entry.numRecords
        (regionsAt (fileGeometry env config dim) entry (blockAt bytes entry)) := by
  obtain ⟨official, layout⟩ := varies_iff.1 varies
  have bits := exBits_of_variable official (written.kept_valid official) layout
  have batched : 11 ≤ effectiveWriterFileVersion env config :=
    UInt32.le_trans (by decide) (officialVersion official).1
  have has : HasVariableRegion env config := ⟨bits, batched, official, layout⟩
  have extra : extraBytes env config dim input.codes =
      variableOffset config dim input.codes ((input.codes.length + 7) / 8) := by
    rw [extraBytes, exDataBytes, if_neg bits, if_pos batched, if_pos ⟨official, layout⟩]
  obtain ⟨entryAt, fields⟩ := written.exactly
  obtain ⟨first, second, -⟩ := written.regionsAt_block
  have size := written.blockSize.1
  have small := written.fastScan_small
  have records : entry.numRecords = UInt32.ofNat input.codes.length := by
    rw [written.numRecords, written.records, UInt32.ofNat_toNat]
  have count : (numBatchBlocks entry.numRecords).toNat = (input.codes.length + 7) / 8 := by
    rw [records]
    exact numBatchBlocks_counted small
  have few := count_small small
  have table : (numBatchBlocks entry.numRecords + 1).toNat = (input.codes.length + 7) / 8 + 1 := by
    rw [UInt32.toNat_add, count]
    simp only [UInt32.reduceToNat]
    omega
  set blocks := (input.codes.length + 7) / 8 with blocksDef
  have header : 8 + (blocks + 1) * 4 ≤ extraBytes env config dim input.codes := by
    rw [extra, variableOffset]
    exact Nat.le_add_right _ _
  have zero : variableOffset config dim input.codes 0 = 8 + (blocks + 1) * 4 := rfl
  rw [codeBytes] at size
  refine ⟨UInt8.pos_iff_ne_zero.2 bits, ?_, ?_, ?_, ?_, ?_, ?_⟩
  · rw [UInt32.le_iff_toNat_le, second]
    show 12 ≤ _
    omega
  · rw [first, written.wordAt_block (written.variableMagic has) (by omega), UInt32.ofNat_toNat]
  · have word := fields.extra.numBatchBlocks has
    rw [Nat.add_assoc] at word
    rw [first, written.wordAt_block word (by omega), ← blocksDef, ← count, UInt32.ofNat_toNat]
  · rw [table, second]
    exact header
  · have word := fields.extra.batchOffsets has 0 (Nat.zero_le _)
    rw [zero, Nat.add_assoc, Nat.zero_mul, Nat.add_zero] at word
    rw [first, table, written.wordAt_block word (by omega), UInt32.toNat_ofNat']
    exact Nat.mod_eq_of_lt (by omega)
  · have word := fields.extra.batchOffsets has blocks (Nat.le_refl _)
    rw [← extra, Nat.add_assoc] at word
    rw [first, count, Nat.add_assoc, written.wordAt_block word (by omega), ← second,
      UInt32.ofNat_toNat]

/-- **A written block passes** what only one of the parsers checks. -/
theorem agrees (written : Written env config dim bytes input entry block) :
    BlockAgrees build (fileGeometry env config dim) entry (blockAt bytes entry) := by
  obtain ⟨first, -, codes, -⟩ := written.regionsAt_block
  have fits := written.fits.regions
  have size := written.blockSize.1
  have count := written.addresses_length
  have records := written.numRecords
  have payload := written.tableBytes_toNat
  have start := written.codeBytes_toNat
  have addresses : addressesAt (fileGeometry env config dim).fileVersion (blockAt bytes entry) =
      _ := written.addressesAt_block
  refine ⟨?_, ?_, ?_, ?_, written.variableHeader⟩
  · obtain ⟨blocks, blockBytes⟩ := written.fastScanBlocks
    have few := count_small (show fastScanBytes dim input.codes.length < 2 ^ 32 by omega)
    rw [FastScanReached, blocks, Nat.min_eq_left (by omega)]
    intro some
    have whole : (input.codes.length + 31) / 32 *
        (fileGeometry env config dim).fastscanBlockBytes.toNat =
          fastScanBytes dim input.codes.length := by
      rw [blockBytes (by omega)]
      rfl
    have least : ((input.codes.length + 31) / 32 - 1) *
        (fileGeometry env config dim).fastscanBlockBytes.toNat ≤
          fastScanBytes dim input.codes.length := by
      rw [← whole]
      exact Nat.mul_le_mul_right _ (Nat.sub_le _ _)
    rw [whole, codes, codeBytes]
    exact ⟨by omega, by omega⟩
  · rw [AddressesFit, addresses]
    dsimp only
    rw [start, records]
    rintro - -
    show _ ≤ entry.blockSize
    omega
  · rw [AddressesPass, addresses]
    dsimp only
    rw [start, payload, written.trailerStart_block]
  · rw [TableAgrees, addresses]
    dsimp only
    rw [payload, records]
    refine ⟨by omega, fun i below past => ?_⟩
    omega

/-! ## Loading -/

variable {View Parsed : Type}

/-- The block in a reader that has opened the file and not loaded it. -/
def pending (written : Written env config dim bytes input entry block)
    (r : ClusterStoreReader View Parsed) (isOpen : 0 ≤ r.fd)
    (found : r.entryOf input.clusterId = some entry)
    (unloaded : r.loadedClusters input.clusterId = none) : PendingBlock View Parsed where
  reader := r
  file := Buffer.ofList bytes
  clusterId := input.clusterId
  entry := entry
  isOpen := isOpen
  found := found
  unloaded := unloaded
  inside := written.inside
  small := written.small

variable {r : ClusterStoreReader View Parsed}

/-- **All three parsers accept a written block and agree on it.** -/
theorem accepted_alike (written : Written env config dim bytes input entry block)
    (isOpen : 0 ≤ r.fd) (found : r.entryOf input.clusterId = some entry)
    (unloaded : r.loadedClusters input.clusterId = none)
    (geometry : r.geometry = fileGeometry env config dim) :
    let p := written.pending r isOpen found unloaded
    ∃ r' pc codeRegion, r.ensureClusterLoaded (Buffer.ofList bytes) build input.clusterId = .ok r' ∧
      r.parse build input.clusterId (some p.block.byte) (UInt64.ofNat entry.blockSize) = .ok pc ∧
      prePass (Buffer.ofList bytes) entry r.geometry = .ok codeRegion ∧
      SameCluster p r' pc ∧ codeRegion.1.toNat = pc.codeRegionBytes := by
  intro p
  have framed : Framed p.reader.geometry p.entry p.block := by
    show Framed r.geometry entry (blockAt bytes entry)
    rw [geometry]
    exact written.framed
  have agrees : BlockAgrees build p.reader.geometry p.entry p.block := by
    show BlockAgrees build r.geometry entry (blockAt bytes entry)
    rw [geometry]
    exact written.agrees
  rcases (framed_agree_iff framed).2 agrees with ⟨-, -, refused⟩ | accepted
  · obtain ⟨code, message, refused⟩ := refused
    rw [PendingBlock.prePass_cases.1 framed] at refused
    cases refused
  · exact accepted

variable (input block) in
/-- A loaded cluster that is the written one. -/
structure LoadedAs (data : ClusterData) : Prop where
  size : data.codesBuffer.size = (block.fastScan ++ block.extra).length
  bytes : ∀ j, j < data.codesBuffer.size →
    data.codesBuffer.byte j = (block.fastScan ++ block.extra).getD j 0
  addresses : ∀ i : UInt32, ∀ address, input.addresses[i.toNat]? = some address →
    data.address i = decodeRawEntryV2 (rawEntry input.pageSize address) input.pageSize

/-- A byte of the block is the one written there. -/
theorem byte_block (written : Written env config dim bytes input entry block) {j : ℕ}
    (inside : j < (block.fastScan ++ block.extra).length) :
    (blockAt bytes entry).byte j = (block.fastScan ++ block.extra).getD j 0 := by
  obtain ⟨entryAt, holds⟩ := written.held
  have whole := holds.blockHere
  rw [Block.bytes, ← List.append_assoc, List.length_append] at whole
  have codes := (slice_append_inj whole).1
  set n := (block.fastScan ++ block.extra).length with nDef
  rw [← codes, slice, List.getD_eq_getElem?_getD, List.getElem?_take_of_lt inside,
    List.getElem?_drop, ← List.getD_eq_getElem?_getD]
  rfl

/-- An entry of the table is the one written there. -/
theorem tableEntry_block (written : Written env config dim bytes input entry block) {i : ℕ}
    {address : AddressEntry} (found : input.addresses[i]? = some address) :
    tableEntry (blockAt bytes entry) (codeBytes env config dim input) i =
      rawEntry input.pageSize address := by
  obtain ⟨entryAt, fields⟩ := written.exactly
  have size := written.blockSize.1
  have below : i < input.addresses.length := (List.getElem?_eq_some_iff.1 found).1
  have pages := written.fits.pages address (List.mem_of_getElem? found)
  obtain ⟨offset, length⟩ := fields.table i address found
  rw [Nat.mul_comm i, Nat.add_assoc] at offset
  rw [Nat.mul_comm i, Nat.add_assoc, ← Nat.add_assoc (codeBytes env config dim input)] at length
  rw [tableEntry, written.wordAt_block offset (by rw [← codeBytes]; omega),
    written.wordAt_block length (by omega), rawEntry]
  have first : UInt32.ofNat (address.offset.toNat / input.pageSize.toNat) =
      (address.offset / input.pageSize.toUInt64).toUInt32 := by
    rw [← UInt32.toNat_inj, UInt32.toNat_ofNat', UInt64.toNat_toUInt32, UInt64.toNat_div,
      UInt32.toNat_toUInt64]
  have second : UInt32.ofNat (address.size.toNat / input.pageSize.toNat) =
      address.size / input.pageSize := by
    rw [← UInt32.toNat_div, UInt32.ofNat_toNat]
  rw [first, second]

/-- **A written cluster is loaded as it was written.** -/
theorem loads (written : Written env config dim bytes input entry block)
    (isOpen : 0 ≤ r.fd) (found : r.entryOf input.clusterId = some entry)
    (unloaded : r.loadedClusters input.clusterId = none)
    (geometry : r.geometry = fileGeometry env config dim) : ∃ data,
      r.ensureClusterLoaded (Buffer.ofList bytes) build input.clusterId = .ok { r with
        loadedClusters := Function.update r.loadedClusters input.clusterId (some data) } ∧
      LoadedAs input block data := by
  have load := ensureClusterLoaded_eq build (written.pending r isOpen found unloaded)
  have framed : Framed r.geometry entry (blockAt bytes entry) := by
    rw [geometry]
    exact written.framed
  obtain ⟨codes, size, same, loads⟩ :=
    (written.pending r isOpen found unloaded).loadCluster_framed build framed
  obtain ⟨-, -, length, -⟩ := written.regionsAt_block
  have addresses : addressesAt r.geometry.fileVersion (blockAt bytes entry) =
      .rawTable input.pageSize (UInt32.ofNat (codeBytes env config dim input))
        (UInt32.ofNat (input.addresses.length * 8)) := by
    rw [geometry]
    exact written.addressesAt_block
  have blockSize := written.blockSize.1
  have count := written.addresses_length
  have records := written.numRecords
  have payload := written.tableBytes_toNat
  have start := written.codeBytes_toNat
  have table := @PendingBlock.loadAddresses_raw View Parsed
    (written.pending r isOpen found unloaded) build codes input.pageSize
    (UInt32.ofNat (codeBytes env config dim input)) (UInt32.ofNat (input.addresses.length * 8)) (by
      rw [start, payload]
      show _ ≤ entry.blockSize
      omega) (regionsAt r.geometry entry (blockAt bytes entry))
  obtain ⟨data, read, each⟩ := table.1 (by
    rw [payload]
    show _ ≤ 8 * entry.numRecords.toNat
    rw [records]
    omega)
  have kept := PendingBlock.loadAddresses_codes build codes read
  have codesLength : (block.fastScan ++ block.extra).length = codes.size := by
    obtain ⟨⟨fast, -⟩, extra, -⟩ := written.fits.sizes written.of
    rw [size, List.length_append, fast, extra]
    show codeBytes env config dim input = (regionsAt r.geometry entry
      (blockAt bytes entry)).codesLength.toNat
    rw [geometry, length]
  refine ⟨data, ?_, ?_, fun j below => ?_, fun i address stored => ?_⟩
  · have done : loadCluster (Buffer.ofList bytes) entry build r.geometry = .ok data :=
      loads.trans ((congrArg _ addresses).trans read)
    exact load.trans (congrArg (Except.map _) done)
  · rw [kept, codesLength]
  · rw [kept] at below ⊢
    rw [same j below]
    exact written.byte_block (by rw [codesLength]; exact below)
  · have below : i.toNat < input.addresses.length := (List.getElem?_eq_some_iff.1 stored).1
    have inside : i < entry.numRecords := by
      rw [UInt32.lt_iff_toNat_lt, records, ← count]
      exact below
    rw [each i inside, start, payload, PendingBlock.tableEntry_cutTable (by omega)]
    exact congrArg (decodeRawEntryV2 · input.pageSize) (written.tableEntry_block stored)

end Written
end VecFetch.Storage
