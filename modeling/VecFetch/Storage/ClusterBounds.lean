/-
# Storage.ClusterBounds -- when a parsed cluster lies inside its block

`ParseClusterBlockView` compares the regions of a block with its size, but not the address
table with the record count, nor the extra codes with the size their batch blocks have, nor a
varying batch block with the magnitudes of its lanes, and its sizes are `uint32_t` products.
What a block must have for the call and every view it leads to to stay inside is `BlockFits`,
and it is exactly what it must have (`parseClusterBlockView_inside_iff`).
-/
import VecFetch.Storage.ClusterTrailer
import VecFetch.Simd.Popcount

namespace VecFetch.Storage

open VecFetch.Theory VecFetch.Simd VecFetch.Rabitq VecFetch.Query

set_option autoImplicit false

/-! ## Inside -/

/-- The bytes that a view of a record points to. -/
structure ExRaBitQView.Inside (view : ExRaBitQView) (dim : UInt32) (size : ℕ) : Prop where
  codeAbs : ∀ p ∈ view.codeAbs, p + dim.toNat ≤ size
  sign : ∀ p ∈ view.sign, p + view.signBytes.toNat ≤ size

/-- The bytes of `planes` elided planes from `p` on: a mask, and a word for each lane in it. -/
def elidedBytes (block : Buffer) : ℕ → ℕ → ℕ
  | 0, _ => 0
  | planes + 1, p =>
      let plane := 1 + 8 * bitCount 8 (block.byte p).toNat
      plane + elidedBytes block planes (p + plane)

/-- The bytes of the magnitudes of a batch block from `p` on, as the kernel of its layout reads
them. -/
def magnitudeBytes (layout : RaBitQExDataLayout) (bits : UInt8) (laneBytes dim : UInt32)
    (block : Buffer) (storedLanes validCount p : ℕ) : ℕ :=
  if isVectorBitMajorTileLayout layout then
    validCount * (exRaBitQBitMajorTileVectorBytes dim bits).toNat
  else if layout = .split3ZeroPlaneElide then
    -- without a lane the kernel returns before the first mask
    if validCount = 0 then 0 else elidedBytes block (3 * (dimBlockCount dim).toNat) p
  else (dimBlockCount dim).toNat * storedLanes * laneBytes.toNat

namespace ParsedCluster

variable (pc : ParsedCluster) (view : ExRaBitQBatchBlockView)

/-- The lanes whose codes and factors a batch block has. -/
def storedLanes : ℕ :=
  if pc.exrabitqVariableBatchBlocks then view.validCount.toNat else pc.exrabitqBatchSize.toNat

/-- The bytes of the magnitudes from `p` on. -/
def absBytes (block : Buffer) (dim : UInt32) (p : ℕ) : ℕ :=
  magnitudeBytes view.exdataLayout view.magnitudeBits view.absBytesPerLaneDimBlock dim block
    (pc.storedLanes view) view.validCount.toNat p

/-- The arrays that the view of a batch block points to. -/
structure BatchInside (block : Buffer) (dim : UInt32) : Prop where
  abs : ∀ p ∈ view.absBlocks, p + pc.absBytes view block dim p ≤ block.size
  sign : ∀ p ∈ view.signBlocks,
    p + pc.exrabitqNumDimBlocks.toNat * pc.storedLanes view * 8 ≤ block.size
  xipnorms : ∀ p ∈ view.xipnorms, p + 4 * pc.storedLanes view ≤ block.size
  factorAdds : ∀ p ∈ view.officialFactorAdds, p + 4 * pc.storedLanes view ≤ block.size
  factorRescales : ∀ p ∈ view.officialFactorRescales, p + 4 * pc.storedLanes view ≤ block.size

/-- Every FastScan block with its norms, every record and every batch block lies in the block. -/
structure Inside (block : Buffer) (dim : UInt32) : Prop where
  fastscan : ∀ b, b < pc.numFastscanBlocks.toNat →
    pc.fastscanBlocks + b * pc.fastscanBlockSize.toNat + pc.fastscanBlockSize.toNat ≤ block.size ∧
      pc.normsAt b + 128 ≤ block.size
  records : ∀ i, i < pc.numRecords.toNat →
    pc.exrabitqView block i dim ≠ .error .outOfBounds ∧
      ∀ view, pc.exrabitqView block i dim = .ok view → view.Inside dim block.size
  batches : ∀ b : UInt32, b < pc.exrabitqNumBatchBlocks →
    pc.exrabitqBatchBlockView block b ≠ .error .outOfBounds ∧
      ∀ view, pc.exrabitqBatchBlockView block b = .ok view → pc.BatchInside view block dim

end ParsedCluster

/-- An error, or a cluster inside the block; nothing is read outside. -/
structure BlockInside (build : Build) (g : ReaderGeometry) (entry : LookupEntry) (block : Buffer) :
    Prop where
  reads : parseBlock build g entry block ≠ .error .outOfBounds
  views : ∀ pc, parseBlock build g entry block = .ok pc → pc.Inside block g.dim

/-! ## What a block must have -/

section Fits

variable (build : Build) (g : ReaderGeometry) (entry : LookupEntry) (block : Buffer)

/-- The regions of a block, from its lookup entry and its trailer. -/
def regionsAt : BlockRegions := blockRegions g entry (addressesAt g.fileVersion block)

/-- The regions, the addresses and the trailer fill the block. -/
def RegionsFill : Prop :=
  (regionsAt g entry block).codesLength.toNat + (regionsAt g entry block).expectedPayloadBytes +
    (trailerSize block).toNat = block.size

/-- What every parser accepts, whatever comes behind. -/
structure Framed : Prop where
  footer : 8 ≤ block.size
  trailer : HasTrailer g.fileVersion entry.numRecords block
  fill : RegionsFill g entry block

/-- The blocks of addresses whose bytes lie behind each other. -/
def packedBlocksFrom (layout : AddressColumnLayout) : ℕ → ℕ → List UInt32 → List AddressBlock
  | _, _, [] => []
  | i, addrOffset, base :: bases =>
      let packedSize := (blockPackedSize layout (UInt32.ofNat i)).toNat
      ⟨base, ⟨packedSize, fun j => block.byte (addrOffset + j)⟩⟩ ::
        packedBlocksFrom layout (i + 1) (addrOffset + packedSize) bases

/-- The addresses of all records are inside the block: the table is long enough, the packed
blocks are as a batched decode needs them. -/
def AddressesFit : Prop :=
  match addressesAt g.fileVersion block with
  | .rawTable _ payloadOffset payloadBytes =>
      payloadOffset.toNat + payloadBytes.toNat ≤ trailerStart block → entry.numRecords ≠ 0 →
        payloadOffset.toNat + 8 * entry.numRecords.toNat ≤ block.size
  | .packed layout baseOffsets =>
      layout.numAddressBlocks ≠ 0 →
        BatchesInside build layout (packedBlocksFrom block layout 0
          (regionsAt g entry block).codesLength.toNat baseOffsets) entry.numRecords

/-- The last checks of the addresses. -/
def AddressesPass : Prop :=
  match addressesAt g.fileVersion block with
  | .rawTable _ payloadOffset payloadBytes =>
      payloadOffset.toNat + payloadBytes.toNat ≤ trailerStart block
  | .packed layout _ => layout.numAddressBlocks ≠ 0 → CountsMatch layout entry.numRecords

/-- The header of a region of varying batch blocks. -/
structure VariableHeader (numRecords : UInt32) (regions : BlockRegions) : Prop where
  room : 12 ≤ regions.region2Size
  magic : wordAt block regions.region1Size.toNat = kVariableExRegionMagic
  count : wordAt block (regions.region1Size.toNat + 4) = numBatchBlocks numRecords
  table : 8 + (numBatchBlocks numRecords + 1).toNat * 4 ≤ regions.region2Size.toNat
  first : (wordAt block (regions.region1Size.toNat + 8)).toNat =
    8 + (numBatchBlocks numRecords + 1).toNat * 4
  last : wordAt block (regions.region1Size.toNat + 8 + (numBatchBlocks numRecords).toNat * 4) =
    regions.region2Size

/-- The bytes of a lane in a dim block. -/
def ReaderGeometry.absLaneBytes : UInt32 :=
  if g.exrabitqAbsBytesPerLaneDimBlock ≠ 0 then g.exrabitqAbsBytesPerLaneDimBlock else 64

/-- The magnitudes behind the count of a batch block end inside the block. -/
def MagnitudesFit (start storedLanes : ℕ) : Prop :=
  start + 4 + magnitudeBytes g.config.effectiveExdataLayout g.config.stage2PayloadBits
    g.absLaneBytes g.dim block storedLanes (wordAt block start).toNat (start + 4) ≤ block.size

/-- A fixed batch block that has at most eight lanes is inside the block, and so are the
magnitudes and signs of eight lanes, whose sizes the block's own may have lost to a wrap. -/
def BatchFits (start : ℕ) : Prop :=
  4 ≤ g.exrabitqBatchBlockSize → start + 4 ≤ block.size ∧
    (wordAt block start ≤ 8 →
      (if g.config.usesOfficial1PlusN then 64 else 32) ≤ g.exrabitqBatchBlockSize.toNat →
        start + g.exrabitqBatchBlockSize.toNat ≤ block.size ∧
          MagnitudesFit g block start 8 ∧
            (g.config.usesOfficial1PlusN = false →
              start + 4 + (dimBlockCount g.dim * 8 * g.absLaneBytes).toNat +
                (dimBlockCount g.dim).toNat * 8 * 8 ≤ block.size))

/-- A varying batch block whose offsets are in order in the region, with at most eight lanes and
room for their factors, has the magnitudes of its lanes inside the block. -/
def VariableBatchFits (regions : BlockRegions) (b : ℕ) : Prop :=
  let offset (k : ℕ) := wordAt block (regions.region1Size.toNat + 8 + 4 * k)
  let blockBytes := offset (b + 1) - offset b
  let start := regions.region1Size.toNat + (offset b).toNat
  let validCount := wordAt block start
  offset b ≤ offset (b + 1) → offset (b + 1) ≤ regions.region2Size → 4 ≤ blockBytes →
    validCount ≤ 8 → 8 * validCount.toNat ≤ blockBytes.toNat →
      MagnitudesFit g block start validCount.toNat

/-- The last FastScan block, the last record and the batch blocks are inside. -/
structure ViewsFit : Prop where
  fastscan : 0 < entry.numFastscanBlocks.toNat →
    (entry.numFastscanBlocks.toNat - 1) * g.fastscanBlockBytes.toNat +
        g.fastscanBlockBytes.toNat ≤ block.size ∧
      (entry.numFastscanBlocks.toNat - 1) * g.fastscanBlockBytes.toNat +
        (g.fastscanBlockBytes - 128).toNat + 128 ≤ block.size
  records : g.fileVersion < 11 → 0 < g.exrabitqEntrySize → 0 < entry.numRecords.toNat →
    (regionsAt g entry block).region1Size.toNat +
      (entry.numRecords.toNat - 1) * g.exrabitqEntrySize.toNat + g.dim.toNat +
        g.exrabitqSignBytes.toNat + 4 ≤ block.size
  batches : 11 ≤ g.fileVersion → 0 < g.config.stage2PayloadBits → g.variableExBlocks = false →
    ∀ b, b < (numBatchBlocks entry.numRecords).toNat →
      BatchFits g block ((regionsAt g entry block).region1Size.toNat +
        b * g.exrabitqBatchBlockSize.toNat)
  varying : 0 < g.config.stage2PayloadBits → g.variableExBlocks = true →
    ∀ b, b < (numBatchBlocks entry.numRecords).toNat →
      VariableBatchFits g block (regionsAt g entry block) b

/-- What a block that passes the checks of trailer and regions must have: the addresses
inside, magnitude bits where batch blocks vary, and the views inside where no later check
refuses it. -/
structure BlockFits : Prop where
  addresses : AddressesFit build g entry block
  bits : AddressesPass g entry block → g.variableExBlocks = true →
    12 ≤ (regionsAt g entry block).region2Size → 0 < g.config.stage2PayloadBits
  views : AddressesPass g entry block →
    (g.variableExBlocks = true → VariableHeader block entry.numRecords (regionsAt g entry block)) →
      ViewsFit g entry block

end Fits

/-! ## The addresses -/

section Addresses

variable {block : Buffer}

theorem loadRawEntry_inside {off i : ℕ} (inside : off + 8 * i + 8 ≤ block.size) :
    loadRawEntry block off i = .ok (tableEntry block off i) := by
  rw [loadRawEntry, load32_inside (by omega), load32_inside (by omega)]
  rfl

theorem loadRawEntry_outside {off i : ℕ} (outside : block.size < off + 8 * i + 8) :
    loadRawEntry block off i = .error .outOfBounds := by
  rw [loadRawEntry]
  by_cases first : off + 8 * i + 4 ≤ block.size
  · rw [load32_inside first, load32_outside (by omega)]
    rfl
  · rw [load32_outside (by omega)]
    rfl

/-- The addresses of a table inside the block. -/
def tableAddresses (block : Buffer) (off n : ℕ) (pageSize : UInt32) : List AddressEntry :=
  (List.range n).map fun i => decodeRawEntryV2 (tableEntry block off i) pageSize

/-- A table is decoded, or left. -/
theorem decodeTable_cases (off n : ℕ) (pageSize : UInt32) :
    let decode := emitRange (fun i => (loadRawEntry block off i).map fun entry =>
      [decodeRawEntryV2 entry pageSize]) n
    ((n ≠ 0 → off + 8 * n ≤ block.size) → decode = .ok (tableAddresses block off n pageSize)) ∧
      (¬ (n ≠ 0 → off + 8 * n ≤ block.size) → decode = .error .outOfBounds) := by
  intro decode
  constructor
  · intro fits
    have each : ∀ i, i < n → ((loadRawEntry block off i).map fun entry =>
        [decodeRawEntryV2 entry pageSize]) =
          .ok [decodeRawEntryV2 (tableEntry block off i) pageSize] := by
      intro i below
      have whole := fits (by omega)
      rw [loadRawEntry_inside (by omega)]
      rfl
    dsimp only [decode]
    rw [emitRange_ok each, tableAddresses, List.map_eq_flatMap]
  · intro cut
    obtain ⟨some, outside⟩ := Classical.not_imp.1 cut
    have only : OnlyOutside decode := by
      apply emitRange_onlyOutside
      intro i e failed
      by_cases inside : off + 8 * i + 8 ≤ block.size
      · rw [loadRawEntry_inside inside] at failed
        cases failed
      · rw [loadRawEntry_outside (by omega)] at failed
        cases failed
        rfl
    cases ran : decode with
    | error e => rw [only e ran]
    | ok entries =>
        obtain ⟨parts, wrote, -⟩ := emitRange_parts ran
        have last := wrote (n - 1) (by omega)
        rw [loadRawEntry_outside (by omega)] at last
        cases last

/-- The bytes of the packed blocks from block `i` on. -/
def packedBytesFrom (layout : AddressColumnLayout) (i : ℕ) : ℕ :=
  if i < layout.numAddressBlocks.toNat then
    (layout.numAddressBlocks.toNat - 1 - i) * layout.fixedPackedSize.toNat +
      layout.lastPackedSize.toNat
  else 0

theorem packedBytesFrom_step {layout : AddressColumnLayout} {i : ℕ}
    (below : i < layout.numAddressBlocks.toNat) :
    packedBytesFrom layout i =
      (blockPackedSize layout (UInt32.ofNat i)).toNat + packedBytesFrom layout (i + 1) := by
  rw [packedBytesFrom, if_pos below, packedBytesFrom, blockPackedSize_eq below]
  by_cases regular : i + 1 < layout.numAddressBlocks.toNat
  · rw [if_pos regular, if_pos regular]
    have count : layout.numAddressBlocks.toNat - 1 - i =
        layout.numAddressBlocks.toNat - 1 - (i + 1) + 1 := by omega
    rw [count, Nat.succ_mul]
    omega
  · rw [if_neg regular, if_neg regular, Nat.sub_eq_zero_of_le (by omega), Nat.zero_mul]
    omega

/-- Packed blocks that fit are copied. -/
theorem copyPacked_ok {layout : AddressColumnLayout} {i addrOffset : ℕ} {bases : List UInt32}
    (count : i + bases.length = layout.numAddressBlocks.toNat)
    (inside : addrOffset + packedBytesFrom layout i ≤ block.size) :
    copyPacked block layout i addrOffset bases =
      .ok (packedBlocksFrom block layout i addrOffset bases) := by
  induction bases generalizing i addrOffset with
  | nil => rfl
  | cons base bases ih =>
      rw [List.length_cons] at count
      rw [packedBytesFrom_step (by omega)] at inside
      rw [copyPacked, Buffer.load_inside (by omega)]
      dsimp only [Result.inBounds, Except.bind]
      rw [ih (by omega) (by omega)]
      rfl

theorem packedBlocksFrom_length (layout : AddressColumnLayout) (i addrOffset : ℕ)
    (bases : List UInt32) :
    (packedBlocksFrom block layout i addrOffset bases).length = bases.length := by
  induction bases generalizing i addrOffset with
  | nil => rfl
  | cons base bases ih => rw [packedBlocksFrom, List.length_cons, List.length_cons, ih]

variable (build : Build) {g : ReaderGeometry} {entry : LookupEntry}

/-- A table at the end of the block is decoded, refused or outside. -/
theorem decodeAddresses_raw {pageSize payloadOffset payloadBytes : UInt32}
    (raw : addressesAt g.fileVersion block = .rawTable pageSize payloadOffset payloadBytes)
    (regions : BlockRegions) :
    let decode := decodeAddresses build block regions (trailerSize block) entry.numRecords
      (.rawTable pageSize payloadOffset payloadBytes)
    (AddressesFit build g entry block → AddressesPass g entry block →
        ∃ decoded, decode = .ok decoded) ∧
      (AddressesFit build g entry block → ¬ AddressesPass g entry block → Refuses decode) ∧
        (¬ AddressesFit build g entry block → decode = .error .outOfBounds) := by
  intro decode
  have zero : entry.numRecords ≠ 0 ↔ entry.numRecords.toNat ≠ 0 := by
    rw [ne_eq, ne_eq, ← UInt32.toNat_inj]
    rfl
  obtain ⟨whole, cut⟩ :=
    @decodeTable_cases block payloadOffset.toNat entry.numRecords.toNat pageSize
  rw [AddressesFit, AddressesPass, raw]
  dsimp only
  rw [zero]
  by_cases passes : payloadOffset.toNat + payloadBytes.toNat ≤ trailerStart block
  · have unfolded : decode = emitRange (fun i => (loadRawEntry block payloadOffset.toNat i).map
        fun entry => [decodeRawEntryV2 entry pageSize]) entry.numRecords.toNat :=
      if_neg (Nat.not_lt.2 passes)
    rw [unfolded]
    exact ⟨fun fits _ => ⟨_, whole (fits passes)⟩, fun _ stays => absurd passes stays,
      fun outside => cut fun fits => outside fun _ => fits⟩
  · have unfolded : decode = Status.corruption "V9 raw address payload exceeds block" :=
      if_pos (Nat.not_le.1 passes)
    rw [unfolded]
    exact ⟨fun _ stays => absurd stays passes, fun _ _ => refuses_corruption _,
      fun outside => absurd (fun stays => absurd stays passes) outside⟩

theorem packedBytesFrom_zero (layout : AddressColumnLayout) (bases : List UInt32) :
    packedBytesFrom layout 0 = (AddressTrailer.packed layout bases).payloadBytes := by
  rw [packedBytesFrom, AddressTrailer.payloadBytes]
  have same : 0 < layout.numAddressBlocks ↔ 0 < layout.numAddressBlocks.toNat :=
    UInt32.lt_iff_toNat_lt
  by_cases some : 0 < layout.numAddressBlocks.toNat
  · rw [if_pos some, if_pos (same.2 some), lastBlock_toNat some, Nat.sub_zero]
  · rw [if_neg some, if_neg fun more => some (same.1 more)]

/-- Packed blocks that fill the block behind the codes lie inside it. -/
theorem packed_inside {layout : AddressColumnLayout} {bases : List UInt32}
    (packed : addressesAt g.fileVersion block = .packed layout bases)
    (fill : RegionsFill g entry block) :
    (regionsAt g entry block).codesLength.toNat + packedBytesFrom layout 0 ≤ block.size := by
  have payload : (regionsAt g entry block).expectedPayloadBytes = packedBytesFrom layout 0 := by
    rw [packedBytesFrom_zero layout bases, ← packed]
    rfl
  rw [RegionsFill, payload] at fill
  omega

/-- They are copied and then decoded. -/
theorem decodeAddresses_copied {layout : AddressColumnLayout} {bases : List UInt32}
    (packed : addressesAt g.fileVersion block = .packed layout bases)
    (count : bases.length = layout.numAddressBlocks.toNat) (fill : RegionsFill g entry block)
    (mini : UInt32) :
    decodeAddresses build block (regionsAt g entry block) mini entry.numRecords
        (.packed layout bases) =
      decodeBatchBlocks build layout (packedBlocksFrom block layout 0
        (regionsAt g entry block).codesLength.toNat bases) entry.numRecords := by
  rw [decodeAddresses, copyPacked_ok (by omega) (packed_inside packed fill)]
  rfl

/-- Packed blocks behind the codes are decoded, refused or outside. -/
theorem decodeAddresses_packed {layout : AddressColumnLayout} {bases : List UInt32}
    (packed : addressesAt g.fileVersion block = .packed layout bases)
    (count : bases.length = layout.numAddressBlocks.toNat)
    (agree : CountsAgree layout entry.numRecords)
    (granularity : ¬ (0 < layout.numAddressBlocks ∧ layout.blockGranularity = 0))
    (fill : RegionsFill g entry block) :
    let decode := decodeAddresses build block (regionsAt g entry block) (trailerSize block)
      entry.numRecords (.packed layout bases)
    (AddressesFit build g entry block → AddressesPass g entry block →
        ∃ decoded, decode = .ok decoded) ∧
      (AddressesFit build g entry block → ¬ AddressesPass g entry block → Refuses decode) ∧
        (¬ AddressesFit build g entry block → decode = .error .outOfBounds) := by
  intro decode
  set blocks := packedBlocksFrom block layout 0
    (regionsAt g entry block).codesLength.toNat bases with blocksDef
  have length : blocks.length = layout.numAddressBlocks.toNat :=
    (packedBlocksFrom_length layout 0 _ bases).trans count
  have unfolded : decode = decodeBatchBlocks build layout blocks entry.numRecords :=
    decodeAddresses_copied build packed count fill _
  rw [AddressesFit, AddressesPass, packed, unfolded]
  dsimp only
  rw [← blocksDef]
  by_cases none : layout.numAddressBlocks = 0
  · have empty : decodeBatchBlocks build layout blocks entry.numRecords = .ok [] := by
      have records : entry.numRecords = 0 := by
        by_contra more
        exact agree.some more none
      rw [decodeBatchBlocks, if_neg (by rw [length]; simp), if_pos none,
        if_neg (by simp [records])]
    rw [empty]
    exact ⟨fun _ _ => ⟨[], rfl⟩, fun _ stays => absurd (fun some => absurd none some) stays,
      fun outside => absurd (fun some => absurd none some) outside⟩
  · have positive : layout.blockGranularity ≠ 0 :=
      fun zero => granularity ⟨UInt32.pos_iff_ne_zero.2 none, zero⟩
    refine ⟨fun fits stays => ?_, fun fits stays => ?_, fun outside => ?_⟩
    · obtain ⟨whole, -⟩ := (fits none).ends build length none positive
      obtain ⟨entries, ok, -⟩ := whole (stays none)
      exact ⟨entries, ok⟩
    · obtain ⟨-, cut⟩ := (fits none).ends build length none positive
      rw [cut fun counts => stays fun _ => counts]
      exact refuses_corruption _
    · by_contra inside
      exact outside fun _ => batchesInside_of_inside build length none positive inside

/-- **The addresses** of an accepted trailer are decoded, refused or outside. -/
theorem decodeAddresses_cases (trailer : HasTrailer g.fileVersion entry.numRecords block)
    (fill : RegionsFill g entry block) :
    let decode := decodeAddresses build block (regionsAt g entry block) (trailerSize block)
      entry.numRecords (addressesAt g.fileVersion block)
    (AddressesFit build g entry block → AddressesPass g entry block →
        ∃ decoded, decode = .ok decoded) ∧
      (AddressesFit build g entry block → ¬ AddressesPass g entry block → Refuses decode) ∧
        (¬ AddressesFit build g entry block → decode = .error .outOfBounds) := by
  have fields := trailer.fields
  have granularity := trailer.granularity
  by_cases raw : 9 ≤ g.fileVersion
  · have table := addressesAt_raw raw block
    rw [table]
    exact decodeAddresses_raw build table _
  · have packed := addressesAt_packed raw block
    rw [FieldsAgree, if_neg raw] at fields
    rw [packed] at granularity ⊢
    exact decodeAddresses_packed build packed (by simp) fields granularity fill

end Addresses

/-! ## The regions -/

section Regions

variable {g : ReaderGeometry} {entry : LookupEntry} {block : Buffer}

theorem checkRegions_ok (message : String) (fill : RegionsFill g entry block) :
    checkRegions message (regionsAt g entry block) block.size (trailerSize block) = .ok () := by
  rw [RegionsFill] at fill
  rw [checkRegions, if_neg (by omega), if_neg (by omega), if_neg (by omega)]

theorem checkRegions_refuses (message : String) (spill : ¬ RegionsFill g entry block) :
    Refuses (checkRegions message (regionsAt g entry block) block.size (trailerSize block)) := by
  rw [RegionsFill] at spill
  rw [checkRegions]
  split
  · exact refuses_corruption _
  · split
    · exact refuses_corruption _
    · split
      · exact refuses_corruption _
      · omega

/-- From version 11 on a region of extra codes that is not empty ends where the addresses are
said to start, so its end does not wrap. -/
theorem codesLength_toNat (version : 11 ≤ g.fileVersion)
    (room : 12 ≤ (regionsAt g entry block).region2Size) :
    (regionsAt g entry block).codesLength.toNat =
      (regionsAt g entry block).region1Size.toNat +
        (regionsAt g entry block).region2Size.toNat := by
  have size : (regionsAt g entry block).region2Size =
      if (regionsAt g entry block).region1Size ≤ (addressesAt g.fileVersion block).payloadOffset
      then (addressesAt g.fileVersion block).payloadOffset - (regionsAt g entry block).region1Size
      else 0 := if_pos version
  have codes : (regionsAt g entry block).codesLength =
      (regionsAt g entry block).region1Size + (regionsAt g entry block).region2Size := rfl
  rw [codes, UInt32.toNat_add]
  refine Nat.mod_eq_of_lt ?_
  split at size
  · rename_i behind
    have sum := UInt32.toNat_sub_of_le _ _ behind
    have offset := (addressesAt g.fileVersion block).payloadOffset.toNat_lt
    rw [UInt32.le_iff_toNat_le] at behind
    rw [size, sum]
    omega
  · rw [size] at room
    exact absurd room (by decide)

theorem region2_inside (version : 11 ≤ g.fileVersion) (fill : RegionsFill g entry block)
    (room : 12 ≤ (regionsAt g entry block).region2Size) :
    (regionsAt g entry block).region1Size.toNat + (regionsAt g entry block).region2Size.toNat ≤
      block.size := by
  rw [RegionsFill, codesLength_toNat version room] at fill
  omega

/-- The number of batch blocks leaves room for one more in 32 bits. -/
theorem numBatchBlocks_succ (n : UInt32) :
    (numBatchBlocks n + 1).toNat = (numBatchBlocks n).toNat + 1 := by
  have small : (numBatchBlocks n).toNat < 2 ^ 29 := by
    have sum := (n + 8 - 1).toNat_lt
    have eight : (8 : UInt32).toNat = 8 := rfl
    rw [numBatchBlocks, UInt32.toNat_div, eight]
    omega
  rw [UInt32.toNat_add]
  exact Nat.mod_eq_of_lt (by simp only [UInt32.reduceToNat]; omega)

theorem variableExBlocks_iff : g.variableExBlocks = true ↔ 15 ≤ g.fileVersion ∧
    usesVariableOfficialExDataLayout g.config.effectiveExdataLayout = true := by
  rw [ReaderGeometry.variableExBlocks, Bool.and_eq_true, decide_eq_true_eq]

theorem version_of_variable (varies : g.variableExBlocks = true) : 11 ≤ g.fileVersion :=
  UInt32.le_trans (by decide) (variableExBlocks_iff.1 varies).1

/-- Batch blocks vary in official configurations only. -/
theorem official_of_variable (varies : g.variableExBlocks = true) :
    g.config.usesOfficial1PlusN = true := by
  by_contra legacy
  have layout := (variableExBlocks_iff.1 varies).2
  rw [StoreConfig.effectiveExdataLayout, if_neg legacy] at layout
  exact absurd layout (by decide)

/-- A region of varying batch blocks is accepted with its header, and refused without. -/
theorem readVariableRegion_cases {numRecords : UInt32} {regions : BlockRegions}
    (room : 12 ≤ regions.region2Size)
    (inside : regions.region1Size.toNat + regions.region2Size.toNat ≤ block.size) :
    let read := readVariableRegion block numRecords regions (some regions.region1Size.toNat)
    (VariableHeader block numRecords regions → read = .ok (regions.region1Size.toNat + 8)) ∧
      (¬ VariableHeader block numRecords regions → Refuses read) := by
  intro read
  have twelve : 12 ≤ regions.region2Size.toNat := UInt32.le_iff_toNat_le.1 room
  have count := numBatchBlocks_succ numRecords
  have start : read = if wordAt block regions.region1Size.toNat ≠ kVariableExRegionMagic ∨
        wordAt block (regions.region1Size.toNat + 4) ≠ numBatchBlocks numRecords then
      Status.corruption "Variable ExRaBitQ region header mismatch"
    else
      let stored := wordAt block (regions.region1Size.toNat + 4)
      let offsetTableBytes := 8 + (stored + 1).toNat * 4
      if regions.region2Size.toNat < offsetTableBytes then
        Status.corruption "Variable ExRaBitQ offset table exceeds region"
      else
        (load32 block (regions.region1Size.toNat + 8)).bind fun firstOffset =>
          (load32 block (regions.region1Size.toNat + 8 + stored.toNat * 4)).bind fun lastOffset =>
            if firstOffset.toNat ≠ offsetTableBytes ∨ lastOffset ≠ regions.region2Size then
              Status.corruption "Variable ExRaBitQ offsets have invalid bounds"
            else .ok (regions.region1Size.toNat + 8) := by
    dsimp only [read]
    rw [readVariableRegion, if_neg (UInt32.not_lt.2 room)]
    simp only [Result.inBounds, Except.bind]
    rw [load32_inside (by omega), load32_inside (by omega)]
  rw [start]
  by_cases magic : wordAt block regions.region1Size.toNat = kVariableExRegionMagic ∧
      wordAt block (regions.region1Size.toNat + 4) = numBatchBlocks numRecords
  · rw [if_neg (by simp [magic]), magic.2]
    dsimp only
    by_cases table : 8 + (numBatchBlocks numRecords + 1).toNat * 4 ≤ regions.region2Size.toNat
    · rw [if_neg (Nat.not_lt.2 table), load32_inside (by omega), load32_inside (by omega)]
      simp only [Except.bind]
      by_cases offsets : (wordAt block (regions.region1Size.toNat + 8)).toNat =
          8 + (numBatchBlocks numRecords + 1).toNat * 4 ∧
        wordAt block (regions.region1Size.toNat + 8 + (numBatchBlocks numRecords).toNat * 4) =
          regions.region2Size
      · rw [if_neg (by simp [offsets])]
        exact ⟨fun _ => rfl, fun without => absurd
          ⟨room, magic.1, magic.2, table, offsets.1, offsets.2⟩ without⟩
      · rw [if_pos (not_and_or.1 offsets)]
        exact ⟨fun header => absurd ⟨header.first, header.last⟩ offsets,
          fun _ => refuses_corruption _⟩
    · rw [if_pos (Nat.not_le.1 table)]
      exact ⟨fun header => absurd header.table table, fun _ => refuses_corruption _⟩
  · rw [if_pos (not_and_or.1 magic)]
    exact ⟨fun header => absurd ⟨header.magic, header.count⟩ magic, fun _ => refuses_corruption _⟩

/-- Without magnitude bits the header of a region that has one is read at null. -/
theorem batchBlockOffsets_null (varies : g.variableExBlocks = true)
    (room : 12 ≤ (regionsAt g entry block).region2Size)
    (zero : ¬ 0 < g.config.stage2PayloadBits) :
    batchBlockOffsets g block entry.numRecords (regionsAt g entry block) =
      .error .outOfBounds := by
  have null : batchBlocksAt g (regionsAt g entry block) = none := if_neg fun both => zero both.2
  rw [batchBlockOffsets, if_pos varies, null, readVariableRegion, if_neg (UInt32.not_lt.2 room)]
  rfl

theorem batchBlockOffsets_cases (fill : RegionsFill g entry block)
    (varies : g.variableExBlocks = true)
    (bits : 12 ≤ (regionsAt g entry block).region2Size → 0 < g.config.stage2PayloadBits) :
    let read := batchBlockOffsets g block entry.numRecords (regionsAt g entry block)
    (VariableHeader block entry.numRecords (regionsAt g entry block) →
        read = .ok (some ((regionsAt g entry block).region1Size.toNat + 8))) ∧
      (¬ VariableHeader block entry.numRecords (regionsAt g entry block) → Refuses read) := by
  intro read
  have version := version_of_variable varies
  have unfolded : read = (readVariableRegion block entry.numRecords (regionsAt g entry block)
      (batchBlocksAt g (regionsAt g entry block))).map some := if_pos varies
  rw [unfolded]
  by_cases room : 12 ≤ (regionsAt g entry block).region2Size
  · have start : batchBlocksAt g (regionsAt g entry block) =
        some (regionsAt g entry block).region1Size.toNat := if_pos ⟨version, bits room⟩
    obtain ⟨whole, cut⟩ := @readVariableRegion_cases block entry.numRecords
      (regionsAt g entry block) room (region2_inside version fill room)
    rw [start]
    exact ⟨fun header => by rw [whole header]; rfl, fun without => (cut without).map _⟩
  · refine ⟨fun header => absurd header.room room, fun _ => ?_⟩
    rw [readVariableRegion, if_pos (UInt32.not_le.1 room)]
    exact (refuses_corruption _).map _

end Regions

end VecFetch.Storage
