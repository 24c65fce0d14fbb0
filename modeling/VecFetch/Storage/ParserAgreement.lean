/-
# Storage.ParserAgreement -- where the three parsers of a block agree

All three parsers accept the framed blocks only (`prePass_cases`, `loadCluster_refuses`,
`parseBlock_unframed`).  On a framed block the pass before a preload always succeeds, so the
others must as well, and with the same addresses: `BlockAgrees` says what that takes.
-/
import VecFetch.Storage.ClusterLoad

namespace VecFetch.Storage

open VecFetch.Theory VecFetch.Simd VecFetch.Rabitq VecFetch.Query

set_option autoImplicit false

/-! ## Agreement -/

section Agreement

variable {View Parsed : Type} (build : Build) (p : PendingBlock View Parsed)

/-- The codes of a loaded cluster and the pointers of a parsed one are of the same bytes. -/
structure SameCodes (g : ReaderGeometry) (entry : LookupEntry) (block : Buffer)
    (data : ClusterData) (pc : ParsedCluster) : Prop where
  size : data.codesBuffer.size = pc.codeRegionBytes
  bytes : ∀ j, j < data.codesBuffer.size →
    data.codesBuffer.byte j = block.byte (pc.fastscanBlocks + j)
  fastscan : pc.fastscanBlockSize = g.fastscanBlockBytes ∧
    pc.numFastscanBlocks = entry.numFastscanBlocks
  entries : 0 < g.exrabitqEntrySize →
    pc.exrabitqEntries = some (entry.numFastscanBlocks * g.fastscanBlockBytes).toNat ∧
      pc.exrabitqEntrySize = g.exrabitqEntrySize ∧ pc.exrabitqSignBytes = g.exrabitqSignBytes
  batches : 11 ≤ g.fileVersion → 0 < g.config.stage2PayloadBits →
    ∀ b, b < pc.exrabitqNumBatchBlocks → ∀ place,
      loadedBatchBlock g data.codesBuffer (entry.numFastscanBlocks * g.fastscanBlockBytes) b =
          .ok place ↔
        pc.batchBlock block b = .ok (some place)

/-- The reader with the loaded cluster answers what the parsed one has. -/
structure SameCluster (r : ClusterStoreReader View Parsed) (pc : ParsedCluster) : Prop where
  records : r.getNumRecords p.clusterId = pc.numRecords
  codes : ∃ data, r.loadedClusters p.clusterId = some data ∧
    SameCodes p.reader.geometry p.entry p.block data pc
  pointers : ∀ recordIdx, recordIdx / 32 < pc.numFastscanBlocks →
    r.getCodePtr p.clusterId recordIdx =
      some (pc.fastscanBlocks + (recordIdx / 32).toNat * pc.fastscanBlockSize.toNat)
  addresses : ∀ i, i < pc.numRecords →
    r.getAddress p.clusterId i = pc.decodedAddresses.getD i.toNat ⟨0, 0⟩

/-- All three parsers refuse the block, or all accept it and find the same. -/
def ParsersAgree : Prop :=
  let load := p.reader.ensureClusterLoaded p.file build p.clusterId
  let view := p.reader.parse build p.clusterId (some p.block.byte) (UInt64.ofNat p.entry.blockSize)
  let pre := prePass p.file p.entry p.reader.geometry
  (Refuses load ∧ Refuses view ∧ Refuses pre) ∨
    ∃ r pc codeRegion, load = .ok r ∧ view = .ok pc ∧ pre = .ok codeRegion ∧
      SameCluster p r pc ∧ codeRegion.1.toNat = pc.codeRegionBytes

variable (g : ReaderGeometry) (entry : LookupEntry) (block : Buffer)

/-- A table of `payloadBytes` bytes at an offset, and zeros behind it. -/
def cutTable (numRecords : UInt32) (payloadOffset payloadBytes : ℕ) : Buffer :=
  ⟨8 * numRecords.toNat, fun j => if j < payloadBytes then block.byte (payloadOffset + j) else 0⟩

/-- A raw table has room for its bytes, and its entries behind them decode as zeros do. -/
def TableAgrees : Prop :=
  match addressesAt g.fileVersion block with
  | .rawTable pageSize payloadOffset payloadBytes =>
      payloadBytes.toNat ≤ 8 * entry.numRecords.toNat ∧
        ∀ i, i < entry.numRecords.toNat → payloadBytes.toNat < 8 * i + 8 →
          decodeRawEntryV2 (tableEntry (cutTable block entry.numRecords payloadOffset.toNat
              payloadBytes.toNat) 0 i) pageSize =
            decodeRawEntryV2 (tableEntry block payloadOffset.toNat i) pageSize
  | .packed .. => True

/-- `GetCodePtr` reaches the FastScan blocks of all records: it computes their ends in 32 bits. -/
def FastScanReached (codesLength : UInt32) : Prop :=
  let blocks := min entry.numFastscanBlocks.toNat (2 ^ 27)
  0 < blocks → (blocks - 1) * g.fastscanBlockBytes.toNat ≤ codesLength.toNat ∧
    blocks * g.fastscanBlockBytes.toNat % 2 ^ 32 ≤ codesLength.toNat

/-- A framed block that passes what only one of the parsers checks. -/
structure BlockAgrees : Prop where
  fastscan : FastScanReached g entry (regionsAt g entry block).codesLength
  addresses : AddressesFit build g entry block
  pass : AddressesPass g entry block
  table : TableAgrees g entry block
  header : g.variableExBlocks = true →
    0 < g.config.stage2PayloadBits ∧ VariableHeader block entry.numRecords (regionsAt g entry block)

end Agreement

/-! ## Loading a framed block -/

namespace PendingBlock

variable {View Parsed : Type} {p : PendingBlock View Parsed} {g : ReaderGeometry}

/-- What a block holds is read from the file. -/
theorem pread_inside {message : String} {offset : UInt64} {off len : ℕ}
    (place : offset.toNat = p.entry.blockOffset + off) (inside : off + len ≤ p.block.size) :
    preadBytes p.file message offset len = .ok fun j => p.block.byte (off + j) := by
  have within : p.entry.blockOffset + p.block.size ≤ p.file.size := p.inside
  have small := p.small
  have room : len ≤ available p.file offset := by
    rw [available, place, if_neg (by omega)]
    omega
  rw [preadBytes, if_pos room, place]
  simp only [block, Nat.add_assoc]

/-- The codes of a framed block are read, and its regions pass. -/
theorem loadRegions_framed (build : Build) (framed : Framed g p.entry p.block) :
    ∃ codes : Buffer, codes.size = (regionsAt g p.entry p.block).codesLength.toNat ∧
      (∀ j, j < codes.size → codes.byte j = p.block.byte j) ∧
      loadRegions p.file p.entry build g (trailerSize p.block)
          (addressesAt g.fileVersion p.block) =
        loadAddresses p.file p.entry build (regionsAt g p.entry p.block) codes
          (addressesAt g.fileVersion p.block) := by
  have fill : (regionsAt g p.entry p.block).codesLength.toNat +
      (regionsAt g p.entry p.block).expectedPayloadBytes + (trailerSize p.block).toNat =
        p.block.size := framed.fill
  have checked : checkLoaded p.entry (regionsAt g p.entry p.block) (trailerSize p.block) =
      .ok () := by
    have behind : ¬ blockEnd p.entry < UInt64.ofNat p.entry.blockOffset +
        (regionsAt g p.entry p.block).codesLength.toUInt64 := by
      rw [UInt64.lt_iff_toNat_lt, p.blockEnd_toNat, p.at_toNat, Nat.not_lt]
      exact Nat.add_le_add_left (by rw [← show p.block.size = p.entry.blockSize from rfl]; omega) _
    rw [checkLoaded, if_neg behind]
    exact checkRegions_ok _ framed.fill
  have read : ∃ codes : Buffer,
      codes.size = (regionsAt g p.entry p.block).codesLength.toNat ∧
        (∀ j, j < codes.size → codes.byte j = p.block.byte j) ∧
        preadCodes p.file p.entry (regionsAt g p.entry p.block) = .ok codes := by
    have place : (UInt64.ofNat p.entry.blockOffset).toNat = p.entry.blockOffset + 0 :=
      p.offset_toNat
    rw [preadCodes]
    split
    · rw [pread_inside place (by omega), ok_map]
      refine ⟨_, rfl, fun j _ => ?_, rfl⟩
      dsimp only
      rw [Nat.zero_add]
    · rename_i empty
      have zero : (regionsAt g p.entry p.block).codesLength.toNat = 0 := by
        rw [UInt32.not_lt] at empty
        exact Nat.le_zero.1 (UInt32.le_iff_toNat_le.1 empty)
      exact ⟨_, zero.symm, fun j below => absurd below (Nat.not_lt_zero j), rfl⟩
  obtain ⟨codes, size, bytes, ok⟩ := read
  refine ⟨codes, size, bytes, ?_⟩
  rw [loadRegions]
  change (preadCodes p.file p.entry (regionsAt g p.entry p.block)).bind _ = _
  rw [ok, ok_bind]
  change (checkLoaded p.entry (regionsAt g p.entry p.block) (trailerSize p.block)).bind _ = _
  rw [checked, ok_bind]
  rfl

/-- **A framed block** is loaded with the addresses that its trailer describes. -/
theorem loadCluster_framed (build : Build) (framed : Framed g p.entry p.block) :
    ∃ codes : Buffer, codes.size = (regionsAt g p.entry p.block).codesLength.toNat ∧
      (∀ j, j < codes.size → codes.byte j = p.block.byte j) ∧
      loadCluster p.file p.entry build g =
        loadAddresses p.file p.entry build (regionsAt g p.entry p.block) codes
          (addressesAt g.fileVersion p.block) := by
  obtain ⟨codes, size, bytes, loaded⟩ := loadRegions_framed build framed
  refine ⟨codes, size, bytes, ?_⟩
  have footer := framed.footer
  have far : 8 ≤ p.stop := footer.trans (Nat.le_add_left _ _)
  obtain ⟨magic, inside, accepts⟩ := hasTrailer_iff.1 framed.trailer
  obtain ⟨read, -⟩ := @readTrailer_cases (storedTrailer p.block) p.entry.numRecords
    (trailerSize p.block) g loadMessages rfl
  rw [loadCluster, pread_size far, ok_bind, pread_magic far, ok_bind,
    ← trailerSize_file footer, ← magic_file footer, if_neg (not_not.2 magic),
    preadTrailer_ok (inside.trans (Nat.le_add_left _ _)), ok_bind, trailer_file inside,
    read accepts, ok_bind, trailerAddresses_trailer, loaded]

/-- Packed blocks that the block holds are read as it has them. -/
theorem preadPacked_ok {layout : AddressColumnLayout} {i off : ℕ} {offset : UInt64}
    {bases : List UInt32} (count : i + bases.length = layout.numAddressBlocks.toNat)
    (place : offset.toNat = p.entry.blockOffset + off)
    (inside : off + packedBytesFrom layout i ≤ p.block.size) :
    preadPacked p.file layout i offset bases =
      .ok (packedBlocksFrom p.block layout i off bases) := by
  induction bases generalizing i off offset with
  | nil => rfl
  | cons base bases ih =>
      rw [List.length_cons] at count
      rw [packedBytesFrom_step (by omega)] at inside
      have within : p.entry.blockOffset + p.block.size ≤ p.file.size := p.inside
      have small := p.small
      have next : (offset + (blockPackedSize layout (UInt32.ofNat i)).toUInt64).toNat =
          p.entry.blockOffset + (off + (blockPackedSize layout (UInt32.ofNat i)).toNat) := by
        rw [UInt64.toNat_add, place, UInt32.toNat_toUInt64, Nat.add_assoc]
        exact Nat.mod_eq_of_lt (by omega)
      rw [preadPacked, pread_inside place (by omega), ok_bind, ih (by omega) next (by omega)]
      rfl

/-- A raw table that the block holds is read into zeros for as many entries as there are
records, if there is room. -/
theorem preadTable_cases {numRecords payloadOffset payloadBytes : UInt32}
    (inside : payloadOffset.toNat + payloadBytes.toNat ≤ p.block.size) :
    let read := preadTable p.file numRecords
      (UInt64.ofNat p.entry.blockOffset + payloadOffset.toUInt64) payloadBytes
    (payloadBytes.toNat ≤ 8 * numRecords.toNat → read =
        .ok (cutTable p.block numRecords payloadOffset.toNat payloadBytes.toNat)) ∧
      (8 * numRecords.toNat < payloadBytes.toNat → read = .error .outOfBounds) := by
  intro read
  have within : p.entry.blockOffset + p.block.size ≤ p.file.size := p.inside
  have small := p.small
  have place := p.at_toNat payloadOffset
  have room : payloadBytes.toNat ≤
      available p.file (UInt64.ofNat p.entry.blockOffset + payloadOffset.toUInt64) := by
    rw [available, place, if_neg (by omega)]
    omega
  by_cases empty : payloadBytes = 0
  · have none : read = .ok (.zeros (8 * numRecords.toNat)) := if_pos empty
    have bytes : payloadBytes.toNat = 0 := by rw [empty]; rfl
    refine ⟨fun _ => ?_, fun long => by omega⟩
    rw [none, bytes]
    simp only [cutTable, Buffer.zeros, Nat.not_lt_zero, if_false]
  · dsimp only [read]
    rw [preadTable, if_neg empty, Nat.min_eq_left room]
    refine ⟨fun short => ?_, fun long => if_pos long⟩
    have fits : 0 + payloadBytes.toNat ≤ (Buffer.zeros (8 * numRecords.toNat)).size := by
      rw [Nat.zero_add]
      exact short
    rw [if_neg (Nat.not_lt.2 short), pread_inside place inside, ok_bind, Buffer.store,
      if_pos fits]
    simp only [Result.inBounds, cutTable, Buffer.zeros, Nat.zero_le, true_and, Nat.zero_add,
      Nat.sub_zero]

end PendingBlock

/-! ## Batch blocks -/

section Batches

variable {g : ReaderGeometry} {entry : LookupEntry} {block codes : Buffer}

/-- The size of a fixed batch block is 4 more than a multiple of 8. -/
theorem batchBlockSize_ne_zero (version : 11 ≤ g.fileVersion)
    (bits : 0 < g.config.stage2PayloadBits) : g.exrabitqBatchBlockSize ≠ 0 := by
  have used : ¬ (g.config.stage2PayloadBits = 0 ∨ g.fileVersion < 11) :=
    not_or.2 ⟨(UInt8.pos_iff_ne_zero.1 bits), UInt32.not_lt.2 version⟩
  rw [ReaderGeometry.exrabitqBatchBlockSize, if_neg used]
  intro zero
  have rest : ∃ r : UInt32, (if g.config.usesOfficial1PlusN then (16 : UInt32) else 8) * 4 =
      8 * r := by
    split
    · exact ⟨8, rfl⟩
    · exact ⟨4, rfl⟩
  have signs : ∃ r : UInt32, (if g.config.usesOfficial1PlusN then (0 : UInt32)
      else dimBlockCount g.dim * 8 * 8) = 8 * r := by
    split
    · exact ⟨0, rfl⟩
    · exact ⟨dimBlockCount g.dim * 8, by grind⟩
  obtain ⟨r, rest⟩ := rest
  obtain ⟨s, signs⟩ := signs
  rw [rest, signs] at zero
  have eights : (4 : UInt32) + dimBlockCount g.dim * 8 * g.exrabitqAbsBytesPerLaneDimBlock +
      8 * s + 8 * r =
        4 + 8 * (dimBlockCount g.dim * g.exrabitqAbsBytesPerLaneDimBlock + s + r) := by grind
  rw [eights] at zero
  have value := congrArg UInt32.toNat zero
  rw [UInt32.toNat_add, UInt32.toNat_mul] at value
  simp only [UInt32.reduceToNat] at value
  omega

/-- Words of the codes that are read are words of the block. -/
theorem wordAt_codes (same : ∀ j, j < codes.size → codes.byte j = block.byte j) {off : ℕ}
    (inside : off + 4 ≤ codes.size) : wordAt codes off = wordAt block off := by
  rw [wordAt, wordAt]
  exact congrArg UInt32.ofNat (leNat_congr fun j below => same (off + j) (by omega))

/-- A varying batch block is where the offsets of the region say, for both. -/
theorem batch_variable (decoded : List AddressEntry) (fill : RegionsFill g entry block)
    (varies : g.variableExBlocks = true) (bits : 0 < g.config.stage2PayloadBits)
    (header : VariableHeader block entry.numRecords (regionsAt g entry block))
    (size : codes.size = (regionsAt g entry block).codesLength.toNat)
    (same : ∀ j, j < codes.size → codes.byte j = block.byte j) {b : UInt32}
    (below : b < numBatchBlocks entry.numRecords) (place : BatchBlock) :
    loadedBatchBlock g codes (regionsAt g entry block).region1Size b = .ok place ↔
      (clusterAt g entry block decoded).batchBlock block b = .ok (some place) := by
  rw [clusterAt_batch_variable decoded fill varies bits header below]
  set region := (regionsAt g entry block).region1Size.toNat with regionDef
  have whole := @codesLength_toNat g entry block (version_of_variable varies) header.room
  have table := header.table
  have count := numBatchBlocks_succ entry.numRecords
  have width := (numBatchBlocks entry.numRecords).toNat_lt
  have twelve : 12 ≤ (regionsAt g entry block).region2Size.toNat :=
    UInt32.le_iff_toNat_le.1 header.room
  have small := (regionsAt g entry block).region1Size.toNat_lt
  have narrow := (regionsAt g entry block).region2Size.toNat_lt
  have index := UInt32.lt_iff_toNat_lt.1 below
  have next : (b + 1).toNat = b.toNat + 1 := by
    rw [UInt32.toNat_add]
    exact Nat.mod_eq_of_lt (by simp only [UInt32.reduceToNat]; omega)
  have left : (codes.size + 2 ^ 64 - region) % 2 ^ 64 =
      (regionsAt g entry block).region2Size.toNat := by
    rw [size, whole, Nat.add_right_comm, Nat.add_assoc, Nat.add_sub_cancel_left,
      Nat.add_mod_left]
    exact Nat.mod_eq_of_lt (by omega)
  have stored : ¬ (wordAt block region ≠ kVariableExRegionMagic ∨
      wordAt block (region + 4) ≤ b) := by
    rw [not_or, not_not]
    refine ⟨header.magic, ?_⟩
    rw [header.count, UInt32.not_le]
    exact below
  rw [loadedBatchBlock, if_pos varies, ← regionDef]
  dsimp only
  rw [load32_inside (by omega), ok_bind,
    load32_inside (by omega), ok_bind, wordAt_codes same (by omega),
    wordAt_codes same (by omega), if_neg stored, load32_inside (by omega), ok_bind,
    load32_inside (by omega), ok_bind, wordAt_codes same (by omega),
    wordAt_codes same (by omega), next, left]
  simp only [← UInt32.lt_iff_toNat_lt]
  split
  · exact ⟨fun failed => (by cases failed), fun found => (by cases found)⟩
  · rw [Except.ok.injEq, Except.ok.injEq, Option.some.injEq]

/-- **The codes** of a framed block whose header passes are the same for both. -/
theorem sameCodes (decoded : List AddressEntry) (framed : Framed g entry block)
    (header : g.variableExBlocks = true → 0 < g.config.stage2PayloadBits ∧
      VariableHeader block entry.numRecords (regionsAt g entry block))
    {data : ClusterData} (same : data.codesBuffer = codes)
    (size : codes.size = (regionsAt g entry block).codesLength.toNat)
    (bytes : ∀ j, j < codes.size → codes.byte j = block.byte j) :
    SameCodes g entry block data (clusterAt g entry block decoded) := by
  refine ⟨?_, fun j below => ?_, ⟨rfl, rfl⟩, fun legacy => ⟨if_pos legacy, rfl, rfl⟩,
    fun version bits b below place => ?_⟩
  · rw [same, size]
    rfl
  · rw [same] at below ⊢
    rw [bytes j below]
    exact congrArg block.byte (Nat.zero_add j).symm
  · rw [same]
    cases varies : g.variableExBlocks with
    | true =>
        exact batch_variable decoded framed.fill varies bits (header varies).2 size bytes below
          place
    | false =>
        rw [clusterAt_batch_fixed decoded varies ⟨version, bits⟩ below,
          if_neg (batchBlockSize_ne_zero version bits), loadedBatchBlock,
          if_neg (by simp [varies]), Except.ok.injEq, Except.ok.injEq, Option.some.injEq]
        rfl

end Batches

/-! ## Addresses -/

/-- As many entries as there are records are all decoded. -/
theorem decodeRawTableV2_ok {pageSize totalRecords : UInt32} {rawEntries : List RawAddressEntryV2}
    (all : rawEntries.length = totalRecords.toNat) :
    decodeRawTableV2 pageSize totalRecords rawEntries =
      .ok (rawEntries.map (decodeRawEntryV2 · pageSize)) :=
  if_neg (not_not.2 all)

namespace PendingBlock

variable {View Parsed : Type} {p : PendingBlock View Parsed} {g : ReaderGeometry}
  (build : Build) (codes : Buffer)

/-- The codes of a loaded cluster are those that were read. -/
theorem loadAddresses_codes {regions : BlockRegions} {addresses : AddressTrailer}
    {data : ClusterData}
    (loaded : loadAddresses p.file p.entry build regions codes addresses = .ok data) :
    data.codesBuffer = codes := by
  cases addresses with
  | rawTable pageSize payloadOffset payloadBytes =>
      rw [loadAddresses] at loaded
      cases read : preadTable p.file p.entry.numRecords
          (UInt64.ofNat p.entry.blockOffset + payloadOffset.toUInt64) payloadBytes with
      | error e =>
          rw [read] at loaded
          cases loaded
      | ok table =>
          rw [read, ok_bind] at loaded
          dsimp only at loaded
          rw [decodeRawTableV2_ok (by simp)] at loaded
          cases loaded
          rfl
  | packed layout bases =>
      rw [loadAddresses] at loaded
      cases read : preadPacked p.file layout 0
          (UInt64.ofNat p.entry.blockOffset + regions.codesLength.toUInt64) bases with
      | error e =>
          rw [read] at loaded
          cases loaded
      | ok blocks =>
          rw [read, ok_bind] at loaded
          cases decode : decodeBatchBlocks build layout blocks p.entry.numRecords with
          | error e =>
              rw [decode] at loaded
              cases loaded
          | ok decoded =>
              rw [decode] at loaded
              cases loaded
              rfl

/-- A raw table that the block holds is loaded if there is room for it. -/
theorem loadAddresses_raw {pageSize payloadOffset payloadBytes : UInt32}
    (inside : payloadOffset.toNat + payloadBytes.toNat ≤ p.block.size) (regions : BlockRegions) :
    let load := loadAddresses p.file p.entry build regions codes
      (.rawTable pageSize payloadOffset payloadBytes)
    (payloadBytes.toNat ≤ 8 * p.entry.numRecords.toNat → ∃ data, load = .ok data ∧
        ∀ i, i < p.entry.numRecords → data.address i = decodeRawEntryV2
          (tableEntry (cutTable p.block p.entry.numRecords payloadOffset.toNat
            payloadBytes.toNat) 0 i.toNat) pageSize) ∧
      (8 * p.entry.numRecords.toNat < payloadBytes.toNat → load = .error .outOfBounds) := by
  intro load
  obtain ⟨whole, long⟩ := @preadTable_cases View Parsed p p.entry.numRecords payloadOffset
    payloadBytes inside
  constructor
  · intro short
    dsimp only [load]
    rw [loadAddresses, whole short, ok_bind]
    dsimp only
    rw [decodeRawTableV2_ok (by simp), ok_map]
    refine ⟨_, rfl, fun i below => ?_⟩
    rw [ClusterData.address]
    dsimp only
    rw [List.getElem?_map, List.getElem?_range (UInt32.lt_iff_toNat_lt.1 below)]
    rfl
  · intro beyond
    dsimp only [load]
    rw [loadAddresses, long beyond]
    rfl

/-- An entry that is whole in a table is not changed by what is cut off behind. -/
theorem tableEntry_cutTable {block : Buffer} {numRecords : UInt32}
    {payloadOffset payloadBytes i : ℕ} (whole : 8 * i + 8 ≤ payloadBytes) :
    tableEntry (cutTable block numRecords payloadOffset payloadBytes) 0 i =
      tableEntry block payloadOffset i := by
  have word : ∀ k, k + 4 ≤ payloadBytes →
      wordAt (cutTable block numRecords payloadOffset payloadBytes) k =
        wordAt block (payloadOffset + k) := by
    intro k inside
    refine congrArg UInt32.ofNat (leNat_congr fun j below => ?_)
    dsimp only [cutTable]
    rw [if_pos (by omega), Nat.add_assoc]
  rw [tableEntry, tableEntry, word _ (by omega), word _ (by omega), Nat.zero_add, ← Nat.add_assoc]

/-- The addresses of a raw table are those of the view if there is room for it, and what it does
not have decodes as zeros. -/
theorem loadAddresses_raw_iff {pageSize payloadOffset payloadBytes : UInt32}
    (inside : payloadOffset.toNat + payloadBytes.toNat ≤ p.block.size) (regions : BlockRegions) :
    (∃ data, loadAddresses p.file p.entry build regions codes
          (.rawTable pageSize payloadOffset payloadBytes) = .ok data ∧
        ∀ i, i < p.entry.numRecords → data.address i =
          decodeRawEntryV2 (tableEntry p.block payloadOffset.toNat i.toNat) pageSize) ↔
      payloadBytes.toNat ≤ 8 * p.entry.numRecords.toNat ∧
        ∀ i, i < p.entry.numRecords.toNat → payloadBytes.toNat < 8 * i + 8 →
          decodeRawEntryV2 (tableEntry (cutTable p.block p.entry.numRecords payloadOffset.toNat
              payloadBytes.toNat) 0 i) pageSize =
            decodeRawEntryV2 (tableEntry p.block payloadOffset.toNat i) pageSize := by
  obtain ⟨loads, long⟩ := @loadAddresses_raw View Parsed p build codes pageSize payloadOffset
    payloadBytes inside regions
  by_cases short : payloadBytes.toNat ≤ 8 * p.entry.numRecords.toNat
  · obtain ⟨data, loaded, address⟩ := loads short
    constructor
    · rintro ⟨data', loaded', same⟩
      obtain rfl := Except.ok.inj (loaded.symm.trans loaded')
      refine ⟨short, fun i below _ => ?_⟩
      have small : i < 2 ^ 32 := below.trans p.entry.numRecords.toNat_lt
      have index : (UInt32.ofNat i).toNat = i := UInt32.toNat_ofNat_of_lt' small
      have within : UInt32.ofNat i < p.entry.numRecords := by
        rw [UInt32.lt_iff_toNat_lt, index]
        exact below
      have found := same _ within
      rwa [address _ within, index] at found
    · rintro ⟨-, behind⟩
      refine ⟨data, loaded, fun i below => ?_⟩
      rw [address i below]
      by_cases cut : payloadBytes.toNat < 8 * i.toNat + 8
      · exact behind i.toNat (UInt32.lt_iff_toNat_lt.1 below) cut
      · rw [tableEntry_cutTable (Nat.not_lt.1 cut)]
  · refine iff_of_false ?_ fun agrees => short agrees.1
    rintro ⟨data, loaded, -⟩
    rw [long (Nat.not_le.1 short)] at loaded
    cases loaded

/-- The addresses that a view takes from a raw table. -/
theorem decodeAddresses_raw {pageSize payloadOffset payloadBytes numRecords : UInt32}
    {block : Buffer} {regions : BlockRegions} {decoded : List AddressEntry}
    (pass : payloadOffset.toNat + payloadBytes.toNat ≤ trailerStart block)
    (fit : numRecords ≠ 0 → payloadOffset.toNat + 8 * numRecords.toNat ≤ block.size)
    (decode : decodeAddresses build block regions (trailerSize block) numRecords
      (.rawTable pageSize payloadOffset payloadBytes) = .ok decoded) {i : UInt32}
    (below : i < numRecords) : decoded.getD i.toNat ⟨0, 0⟩ =
      decodeRawEntryV2 (tableEntry block payloadOffset.toNat i.toNat) pageSize := by
  have some : numRecords.toNat ≠ 0 → numRecords ≠ 0 := by
    rintro nonzero rfl
    exact nonzero rfl
  have within : ¬ block.size - (trailerSize block).toNat <
      payloadOffset.toNat + payloadBytes.toNat := Nat.not_lt.2 pass
  obtain ⟨whole, -⟩ := @decodeTable_cases block payloadOffset.toNat numRecords.toNat pageSize
  rw [decodeAddresses, if_neg within, whole fun nonzero => fit (some nonzero)] at decode
  rw [← Except.ok.inj decode, tableAddresses, List.getD_eq_getElem?_getD, List.getElem?_map,
    List.getElem?_range (UInt32.lt_iff_toNat_lt.1 below)]
  rfl

/-- **A framed block whose addresses pass** is loaded with the addresses that the view has
exactly if its table agrees. -/
theorem loadAddresses_iff (framed : Framed g p.entry p.block)
    (pass : AddressesPass g p.entry p.block) (fit : AddressesFit build g p.entry p.block)
    {decoded : List AddressEntry}
    (decode : decodeAddresses build p.block (regionsAt g p.entry p.block) (trailerSize p.block)
      p.entry.numRecords (addressesAt g.fileVersion p.block) = .ok decoded) :
    (∃ data, loadAddresses p.file p.entry build (regionsAt g p.entry p.block) codes
          (addressesAt g.fileVersion p.block) = .ok data ∧
        ∀ i, i < p.entry.numRecords → data.address i = decoded.getD i.toNat ⟨0, 0⟩) ↔
      TableAgrees g p.entry p.block := by
  by_cases raw : 9 ≤ g.fileVersion
  · have table := addressesAt_raw raw p.block
    rw [AddressesPass, table] at pass
    rw [AddressesFit, table] at fit
    rw [table] at decode
    have start : trailerStart p.block ≤ p.block.size := Nat.sub_le _ _
    have view := fun i (below : i < p.entry.numRecords) =>
      decodeAddresses_raw build pass (fit pass) decode below
    rw [TableAgrees, table]
    refine Iff.trans ?_ (loadAddresses_raw_iff build codes (pass.trans start)
      (regionsAt g p.entry p.block))
    refine exists_congr fun data => and_congr_right fun _ => ?_
    exact forall₂_congr fun i below => by rw [view i below]
  · have packed := addressesAt_packed raw p.block
    rw [TableAgrees]
    rw [packed] at decode ⊢
    refine iff_of_true ?_ trivial
    rw [decodeAddresses_copied build packed (by simp) framed.fill] at decode
    rw [loadAddresses, preadPacked_ok (by simp) (p.at_toNat _)
      (packed_inside packed framed.fill), ok_bind, decode, ok_map]
    exact ⟨_, rfl, fun i _ => rfl⟩

end PendingBlock

/-! ## FastScan blocks -/

/-- What `GetCodePtr` returns for block `b` among `codesLength` bytes of codes. -/
def codePtr (fbBytes codesLength b : UInt32) : Option ℕ :=
  if codesLength.toNat < (b * fbBytes + fbBytes).toNat then none else some (b * fbBytes).toNat

/-- A block is reached if its start does not wrap, and its end is inside the codes or wraps. -/
theorem codePtr_iff (fbBytes codesLength b : UInt32) :
    codePtr fbBytes codesLength b = some (b.toNat * fbBytes.toNat) ↔
      b.toNat * fbBytes.toNat < 2 ^ 32 ∧
        (b.toNat + 1) * fbBytes.toNat % 2 ^ 32 ≤ codesLength.toNat := by
  have start : (b * fbBytes).toNat = b.toNat * fbBytes.toNat % 2 ^ 32 := UInt32.toNat_mul _ _
  have stop : (b * fbBytes + fbBytes).toNat = (b.toNat + 1) * fbBytes.toNat % 2 ^ 32 := by
    rw [UInt32.toNat_add, start, Nat.mod_add_mod, Nat.add_mul, Nat.one_mul]
  rw [codePtr, start, stop]
  constructor
  · intro same
    split at same
    · cases same
    · rename_i inside
      have whole := Option.some.inj same
      exact ⟨whole ▸ Nat.mod_lt _ (by decide), Nat.not_lt.1 inside⟩
  · rintro ⟨small, inside⟩
    rw [if_neg (Nat.not_lt.2 inside), Nat.mod_eq_of_lt small]

/-- All blocks of records are reached if the last of them is. -/
theorem fastScanReached_iff {g : ReaderGeometry} {entry : LookupEntry} {codesLength : UInt32} :
    (∀ recordIdx : UInt32, recordIdx / 32 < entry.numFastscanBlocks →
        codePtr g.fastscanBlockBytes codesLength (recordIdx / 32) =
          some ((recordIdx / 32).toNat * g.fastscanBlockBytes.toNat)) ↔
      FastScanReached g entry codesLength := by
  rw [FastScanReached]
  set bytes := g.fastscanBlockBytes.toNat with bytesDef
  set blocks := min entry.numFastscanBlocks.toNat (2 ^ 27) with blocksDef
  have thirtyTwo : (32 : UInt32).toNat = 32 := rfl
  have narrow := codesLength.toNat_lt
  have reached : (∀ recordIdx : UInt32, recordIdx / 32 < entry.numFastscanBlocks →
      codePtr g.fastscanBlockBytes codesLength (recordIdx / 32) =
        some ((recordIdx / 32).toNat * bytes)) ↔
      ∀ b, b < blocks → b * bytes < 2 ^ 32 ∧ (b + 1) * bytes % 2 ^ 32 ≤ codesLength.toNat := by
    constructor
    · intro all b below
      have index : (UInt32.ofNat (32 * b) / 32).toNat = b := by
        rw [UInt32.toNat_div, UInt32.toNat_ofNat_of_lt' (by simp only [UInt32.size]; omega),
          thirtyTwo]
        omega
      have found := all (UInt32.ofNat (32 * b)) (by rw [UInt32.lt_iff_toNat_lt, index]; omega)
      have place := (codePtr_iff _ _ _).1 found
      rwa [index] at place
    · intro all recordIdx below
      rw [UInt32.lt_iff_toNat_lt] at below
      have index : (recordIdx / 32).toNat < 2 ^ 27 := by
        have width := recordIdx.toNat_lt
        rw [UInt32.toNat_div, thirtyTwo]
        omega
      exact (codePtr_iff _ _ _).2 (all _ (by omega))
  rw [reached]
  constructor
  · intro all some
    have last := all (blocks - 1) (by omega)
    rw [Nat.sub_add_cancel some] at last
    refine ⟨?_, last.2⟩
    cases before : blocks - 1 with
    | zero => rw [Nat.zero_mul]; exact Nat.zero_le _
    | succ b =>
        have inside := (all b (by omega)).2
        rw [before] at last
        rwa [Nat.mod_eq_of_lt last.1] at inside
  · intro whole b below
    obtain ⟨starts, stops⟩ := whole (by omega)
    by_cases last : b + 1 = blocks
    · have start : b * bytes = (blocks - 1) * bytes := by rw [← last, Nat.add_sub_cancel]
      rw [start, last]
      exact ⟨by omega, stops⟩
    · have next : (b + 1) * bytes ≤ (blocks - 1) * bytes := Nat.mul_le_mul_right _ (by omega)
      have before : b * bytes ≤ (b + 1) * bytes := Nat.mul_le_mul_right _ (Nat.le_succ _)
      refine ⟨by omega, ?_⟩
      rw [Nat.mod_eq_of_lt (by omega)]
      omega

/-! ## All three -/

section Call

variable {View Parsed : Type} (build : Build) (p : PendingBlock View Parsed)

/-- The call loads what the entry says, and keeps it. -/
theorem ensureClusterLoaded_eq :
    p.reader.ensureClusterLoaded p.file build p.clusterId =
      (loadCluster p.file p.entry build p.reader.geometry).map fun data =>
        { p.reader with
          loadedClusters := Function.update p.reader.loadedClusters p.clusterId (some data) } := by
  have pending : ¬ (p.reader.loadedClusters p.clusterId).isSome = true := by
    rw [p.unloaded]
    exact Bool.false_ne_true
  rw [ClusterStoreReader.ensureClusterLoaded, if_neg (Int.not_lt.2 p.isOpen), if_neg pending,
    p.found]

/-- The view is given the block, or refuses one without a footer. -/
theorem parse_cases :
    let view := p.reader.parse build p.clusterId (some p.block.byte)
      (UInt64.ofNat p.entry.blockSize)
    (8 ≤ p.block.size → view = parseBlock build p.reader.geometry p.entry p.block) ∧
      (¬ 8 ≤ p.block.size → Refuses view) := by
  intro view
  have inside := p.inside
  have small := p.small
  have size : (UInt64.ofNat p.entry.blockSize).toNat = p.entry.blockSize :=
    UInt64.toNat_ofNat_of_lt' (by simp only [UInt64.size]; omega)
  have eight : (8 : UInt64).toNat = 8 := rfl
  have call : view = if UInt64.ofNat p.entry.blockSize < 8 then
      Status.corruption "Block too small for trailer footer"
      else parseBlock build p.reader.geometry p.entry p.block := by
    dsimp only [view]
    rw [ClusterStoreReader.parse, p.found, parseClusterBlockView, if_neg (not_not.2 size), size]
    rfl
  have within : UInt64.ofNat p.entry.blockSize < 8 ↔ p.block.size < 8 := by
    rw [UInt64.lt_iff_toNat_lt, size, eight]
    rfl
  rw [call]
  constructor
  · intro footer
    exact if_neg fun short => Nat.not_lt.2 footer (within.1 short)
  · intro short
    rw [if_pos (within.2 (Nat.not_le.1 short))]
    exact refuses_corruption _

/-- A block that is not framed is refused by all three. -/
theorem refused_of_unframed (unframed : ¬ Framed p.reader.geometry p.entry p.block) :
    ParsersAgree build p := by
  refine .inl ⟨?_, ?_, PendingBlock.prePass_cases.2 unframed⟩
  · rw [ensureClusterLoaded_eq]
    exact (PendingBlock.loadCluster_refuses build unframed).map _
  · obtain ⟨whole, short⟩ := parse_cases build p
    by_cases footer : 8 ≤ p.block.size
    · rw [whole footer]
      exact parseBlock_unframed build footer unframed
    · exact short footer

variable {build p} {g : ReaderGeometry} {entry : LookupEntry} {block : Buffer}

/-- The view accepts a framed block that passes, and no other. -/
theorem parseBlock_ok_iff (framed : Framed g entry block) {pc : ParsedCluster} :
    parseBlock build g entry block = .ok pc ↔
      (ReadsFit build g entry block ∧ Passes g entry block) ∧
        ∃ decoded, decodeAddresses build block (regionsAt g entry block) (trailerSize block)
            entry.numRecords (addressesAt g.fileVersion block) = .ok decoded ∧
          pc = clusterAt g entry block decoded := by
  obtain ⟨parsed, refused, left⟩ := parseBlock_cases build framed.footer framed.trailer framed.fill
  constructor
  · intro ok
    have fits : ReadsFit build g entry block := by
      by_contra unfit
      rw [left unfit] at ok
      cases ok
    have passes : Passes g entry block := by
      by_contra fails
      obtain ⟨code, message, same⟩ := refused fits fails
      rw [same] at ok
      cases ok
    obtain ⟨decoded, decode, same⟩ := parsed fits passes
    exact ⟨⟨fits, passes⟩, decoded, decode, Except.ok.inj (ok.symm.trans same)⟩
  · rintro ⟨⟨fits, passes⟩, decoded, decode, rfl⟩
    obtain ⟨decoded', decode', ok⟩ := parsed fits passes
    obtain rfl := Except.ok.inj (decode.symm.trans decode')
    exact ok

/-- The codes that were loaded are as long as the regions say. -/
theorem getCodePtr_loaded {r : ClusterStoreReader View Parsed} {data : ClusterData}
    {clusterId : UInt32} {codesLength : UInt32}
    (loaded : r.loadedClusters clusterId = some data)
    (size : data.codesBuffer.size = codesLength.toNat) (recordIdx : UInt32) :
    r.getCodePtr clusterId recordIdx =
      codePtr r.geometry.fastscanBlockBytes codesLength (recordIdx / 32) := by
  rw [ClusterStoreReader.getCodePtr, loaded, codePtr, ← size]
  rfl

/-- **A framed block that both accept** is the same cluster for both exactly if its table and
its FastScan blocks agree. -/
theorem sameCluster_iff {data : ClusterData} {decoded : List AddressEntry}
    (framed : Framed p.reader.geometry p.entry p.block)
    (header : p.reader.geometry.variableExBlocks = true →
      0 < p.reader.geometry.config.stage2PayloadBits ∧ VariableHeader p.block p.entry.numRecords
        (regionsAt p.reader.geometry p.entry p.block))
    (size : data.codesBuffer.size = (regionsAt p.reader.geometry p.entry p.block).codesLength.toNat)
    (bytes : ∀ j, j < data.codesBuffer.size → data.codesBuffer.byte j = p.block.byte j) :
    SameCluster p { p.reader with
        loadedClusters := Function.update p.reader.loadedClusters p.clusterId (some data) }
        (clusterAt p.reader.geometry p.entry p.block decoded) ↔
      FastScanReached p.reader.geometry p.entry
          (regionsAt p.reader.geometry p.entry p.block).codesLength ∧
        ∀ i, i < p.entry.numRecords → data.address i = decoded.getD i.toNat ⟨0, 0⟩ := by
  set r : ClusterStoreReader View Parsed := { p.reader with
    loadedClusters := Function.update p.reader.loadedClusters p.clusterId (some data) } with rDef
  have loaded : r.loadedClusters p.clusterId = some data := Function.update_self _ _ _
  have address : ∀ i, r.getAddress p.clusterId i = data.address i := by
    intro i
    rw [ClusterStoreReader.getAddress, loaded]
  have pointers : (∀ recordIdx : UInt32, recordIdx / 32 < p.entry.numFastscanBlocks →
      r.getCodePtr p.clusterId recordIdx =
        some (0 + (recordIdx / 32).toNat * p.reader.geometry.fastscanBlockBytes.toNat)) ↔
      FastScanReached p.reader.geometry p.entry
        (regionsAt p.reader.geometry p.entry p.block).codesLength := by
    rw [← fastScanReached_iff]
    simp only [getCodePtr_loaded loaded size, Nat.zero_add]
    rfl
  constructor
  · intro same
    refine ⟨pointers.1 same.pointers, fun i below => ?_⟩
    rw [← address]
    exact same.addresses i below
  · rintro ⟨reached, addresses⟩
    refine ⟨?_, ⟨data, loaded, sameCodes decoded framed header rfl size bytes⟩,
      pointers.2 reached, fun i below => (address i).trans (addresses i below)⟩
    have found : r.entryOf p.clusterId = some p.entry := p.found
    rw [ClusterStoreReader.getNumRecords, found]
    rfl

/-- A framed block is agreed on exactly if it passes what only one parser checks. -/
theorem framed_agree_iff (framed : Framed p.reader.geometry p.entry p.block) :
    ParsersAgree build p ↔ BlockAgrees build p.reader.geometry p.entry p.block := by
  obtain ⟨codes, size, bytes, loads⟩ := p.loadCluster_framed build framed
  have pre := PendingBlock.prePass_cases.1 framed
  have view := (parse_cases build p).1 framed.footer
  have load := ensureClusterLoaded_eq build p
  rw [loads] at load
  constructor
  · rintro (⟨-, -, code, message, refused⟩ | ⟨r, pc, codeRegion, loaded, parsed, -, same, -⟩)
    · rw [pre] at refused
      cases refused
    · rw [view] at parsed
      obtain ⟨⟨fits, passes⟩, decoded, decode, rfl⟩ := (parseBlock_ok_iff framed).1 parsed
      have header : p.reader.geometry.variableExBlocks = true → _ := fun varies =>
        (⟨fits.bits passes.addresses varies (passes.header varies).room, passes.header varies⟩ :
          0 < p.reader.geometry.config.stage2PayloadBits ∧ VariableHeader p.block
            p.entry.numRecords (regionsAt p.reader.geometry p.entry p.block))
      rw [load] at loaded
      cases addresses : loadAddresses p.file p.entry build
          (regionsAt p.reader.geometry p.entry p.block) codes
          (addressesAt p.reader.geometry.fileVersion p.block) with
      | error e =>
          rw [addresses] at loaded
          cases loaded
      | ok data =>
          rw [addresses, ok_map] at loaded
          obtain rfl := Except.ok.inj loaded
          have kept := PendingBlock.loadAddresses_codes build codes addresses
          obtain ⟨reached, found⟩ := (sameCluster_iff framed header (by rw [kept, size])
            (by rw [kept]; exact bytes)).1 same
          refine ⟨reached, fits.addresses, passes.addresses, ?_, header⟩
          exact (PendingBlock.loadAddresses_iff build codes framed passes.addresses
            fits.addresses decode).1 ⟨data, addresses, found⟩
  · intro agrees
    obtain ⟨decoded, decode, parsed⟩ := (parseBlock_cases build framed.footer framed.trailer
      framed.fill).1 ⟨agrees.addresses, fun _ varies _ => (agrees.header varies).1⟩
        ⟨agrees.pass, fun varies => (agrees.header varies).2⟩
    obtain ⟨data, addresses, found⟩ := (PendingBlock.loadAddresses_iff build codes
      framed agrees.pass agrees.addresses decode).2 agrees.table
    have kept := PendingBlock.loadAddresses_codes build codes addresses
    have same := (sameCluster_iff framed agrees.header (by rw [kept, size])
      (by rw [kept]; exact bytes)).2 ⟨agrees.fastscan, found⟩
    rw [addresses, ok_map] at load
    exact .inr ⟨_, _, _, load, view.trans parsed, pre, same, rfl⟩

end Call

/-- **The three parsers of a block agree** exactly if a framed block passes what only one of
them checks. -/
theorem parsers_agree_iff {View Parsed : Type} (build : Build) (p : PendingBlock View Parsed) :
    ParsersAgree build p ↔ (Framed p.reader.geometry p.entry p.block →
      BlockAgrees build p.reader.geometry p.entry p.block) := by
  by_cases framed : Framed p.reader.geometry p.entry p.block
  · rw [framed_agree_iff framed]
    exact ⟨fun agrees _ => agrees, fun agrees => agrees framed⟩
  · exact iff_of_true (refused_of_unframed build p framed) fun some => absurd some framed

/-- The trailer of a block of version 12 with one record, and no table of addresses. -/
def oneRecordTrailer : List UInt8 :=
  [2, 0, 0, 0, 0, 16, 0, 0, 8, 0, 0, 0, 1, 0, 0, 0, 128, 1, 0, 0, 0, 0, 0, 0, 32, 0, 0, 0,
    0x56, 0x43, 0x4C, 0x42]

/-- A file with that block, behind a FastScan block of zeros. -/
def missingTable : PendingBlock Unit Unit where
  reader :=
    { fd := 3
      fileVersion := 12
      info :=
        { numClusters := 1
          dim := 64
          lookupTable := [{ numRecords := 1, numFastscanBlocks := 1, blockSize := 416 }] }
      clusterIndex := fun id => if id = 0 then some 0 else none }
  file := ⟨416, fun j => if j < 384 then 0 else oneRecordTrailer.getD (j - 384) 0⟩
  clusterId := 0
  entry := { numRecords := 1, numFastscanBlocks := 1, blockSize := 416 }
  isOpen := by decide
  found := rfl
  unloaded := rfl
  inside := by decide
  small := by decide

/-- The view takes the trailer for the table, and the loaded cluster has a zero. -/
theorem parsers_disagree : ¬ ParsersAgree .scalar missingTable := by
  rw [parsers_agree_iff]
  intro agrees
  have fields : FieldsAgree 12 1 missingTable.block (trailerStart missingTable.block) := by
    rw [FieldsAgree, if_pos (by decide)]
    decide
  have framed : Framed missingTable.reader.geometry missingTable.entry missingTable.block := by
    refine ⟨by decide, ⟨by decide, by decide, by decide, fields, trivial⟩, ?_⟩
    rw [RegionsFill]
    decide
  have table := (agrees framed).table
  have nine : 9 ≤ missingTable.reader.geometry.fileVersion := by decide
  rw [TableAgrees, addressesAt_raw nine] at table
  exact absurd (table.2 0 (by decide) (by decide)) (by decide)

end VecFetch.Storage
