/-
# Storage.ClusterParse -- parsing a cluster's block

`ParseClusterBlockView` reads the trailer at the end of a block, checks the sizes of the
regions it names, decodes the addresses and keeps pointers into the block; the accessors
of a `ParsedCluster` compute the places inside later.  A pointer is an offset in the block.
Every load is checked, so a call that leaves the block ends with `outOfBounds`.
-/
import VecFetch.Storage.AddressLayout
import VecFetch.Storage.AddressBounds
import VecFetch.Storage.RawTable

namespace VecFetch.Storage

open VecFetch.Theory VecFetch.Simd VecFetch.Rabitq VecFetch.Query

set_option autoImplicit false

/-! ## Geometry -/

/-- What the sizes of a reader's blocks depend on. -/
structure ReaderGeometry where
  fileVersion : UInt32 := 0
  dim : UInt32 := 0
  config : StoreConfig := {}

namespace ReaderGeometry

variable (g : ReaderGeometry)

def fastscanPackedSize : UInt32 := (g.dim + 7) / 8 * 32

def fastscanBlockBytes : UInt32 := g.fastscanPackedSize + 128

def exrabitqSignBytes : UInt32 :=
  if g.config.usesOfficial1PlusN then 0
  else if g.config.bits ≤ 1 then 0
  else if 10 ≤ g.fileVersion then (g.dim + 7) / 8
  else g.dim

def exrabitqEntrySize : UInt32 :=
  if g.config.bits ≤ 1 then 0
  else if 11 ≤ g.fileVersion then 0
  else g.dim + g.exrabitqSignBytes + 4

def exrabitqMagnitudePacked : Bool :=
  decide (0 < g.config.stage2PayloadBits) && decide (12 ≤ g.fileVersion)

def exrabitqAbsBytesPerLaneDimBlock : UInt32 :=
  if g.config.stage2PayloadBits = 0 ∨ g.fileVersion < 11 then 0
  else if 12 ≤ g.fileVersion then (64 * g.config.stage2PayloadBits.toUInt32 + 7) / 8
  else 64

def exrabitqBatchBlockSize : UInt32 :=
  if g.config.stage2PayloadBits = 0 ∨ g.fileVersion < 11 then 0
  else
    4 + dimBlockCount g.dim * 8 * g.exrabitqAbsBytesPerLaneDimBlock +
      (if g.config.usesOfficial1PlusN then 0 else dimBlockCount g.dim * 8 * 8) +
      (if g.config.usesOfficial1PlusN then 16 else 8) * 4

/-- `variable_ex_blocks`. -/
def variableExBlocks : Bool :=
  decide (15 ≤ g.fileVersion) &&
    usesVariableOfficialExDataLayout g.config.effectiveExdataLayout

end ReaderGeometry

/-! ## The trailer -/

/-- `memcpy` of a `uint32_t` out of a buffer. -/
def load32 (b : Buffer) (off : ℕ) : Result UInt32 :=
  (Result.inBounds (b.load off 4)).map fun bytes => UInt32.ofNat (leNat bytes 4)

/-- One `ReadT` after the other, of values of these widths, from `tpos` on. -/
def readFields (trailer : Buffer) : List ℕ → ℕ → Option (List ℕ × ℕ)
  | [], tpos => some ([], tpos)
  | width :: widths, tpos =>
      (trailer.load tpos width).bind fun bytes =>
        (readFields trailer widths (tpos + width)).map fun rest =>
          (leNat bytes width :: rest.1, rest.2)

/-- What a parser says of a trailer that ends too early. -/
structure TrailerMessages where
  rawTable : String
  baseOffset : ℕ → String

/-- The base offsets of the blocks, from block `i` on. -/
def readBaseOffsets (message : ℕ → String) (trailer : Buffer) (i : ℕ) :
    ℕ → ℕ → Result (List UInt32 × ℕ)
  | 0, tpos => .ok ([], tpos)
  | n + 1, tpos =>
      match readFields trailer [4] tpos with
      | none => Status.corruption (message i)
      | some (fields, tpos) =>
          (readBaseOffsets message trailer (i + 1) n tpos).map fun rest =>
            (UInt32.ofNat (fields.getD 0 0) :: rest.1, rest.2)

/-- What a trailer says about the addresses of its block. -/
inductive AddressTrailer where
  | packed (layout : AddressColumnLayout) (baseOffsets : List UInt32)
  | rawTable (pageSize payloadOffset payloadBytes : UInt32)
  deriving DecidableEq

/-- The metadata of a raw address table, and where the cursor stands behind it. -/
def readRawTable (message : String) (trailer : Buffer) (numRecords : UInt32) :
    Result (AddressTrailer × ℕ) :=
  match readFields trailer [4, 4, 4, 4, 4, 4] 0 with
  | none => Status.corruption message
  | some (fields, tpos) =>
      let field (k : ℕ) : UInt32 := UInt32.ofNat (fields.getD k 0)
      if field 0 ≠ kAddressFormatV2 then Status.corruption "Unsupported V9 address format"
      else if field 2 ≠ 8 then Status.corruption "Unexpected V9 raw address entry size"
      else if field 3 ≠ numRecords then Status.corruption "V9 raw address entry count mismatch"
      else .ok (.rawTable (field 1) (field 4) (field 5), tpos)

/-- The layout of packed addresses and the base offsets of their blocks. -/
def readPackedLayout (message : ℕ → String) (trailer : Buffer) (numRecords : UInt32) :
    Result (AddressTrailer × ℕ) :=
  match readFields trailer [4, 1, 4, 4, 4, 4] 0 with
  | none => Status.corruption "Mini-trailer: failed to read shared address layout"
  | some (fields, tpos) =>
      let field (k : ℕ) : UInt32 := UInt32.ofNat (fields.getD k 0)
      let layout : AddressColumnLayout :=
        { pageSize := field 0
          bitWidth := UInt8.ofNat (fields.getD 1 0)
          blockGranularity := field 2
          fixedPackedSize := field 3
          lastPackedSize := field 4
          numAddressBlocks := field 5 }
      if numRecords = 0 ∧ (layout.numAddressBlocks ≠ 0 ∨ layout.lastPackedSize ≠ 0) then
        Status.corruption "Empty cluster has invalid address layout"
      else if numRecords ≠ 0 ∧ layout.numAddressBlocks = 0 then
        Status.corruption "Non-empty cluster has zero address blocks"
      else
        (readBaseOffsets message trailer 0 layout.numAddressBlocks.toNat tpos).map fun rest =>
          (.packed layout rest.1, rest.2)

/-- The fields of a trailer before its footer. -/
def readAddresses (messages : TrailerMessages) (g : ReaderGeometry) (numRecords : UInt32)
    (trailer : Buffer) : Result (AddressTrailer × ℕ) :=
  if 9 ≤ g.fileVersion then readRawTable messages.rawTable trailer numRecords
  else readPackedLayout messages.baseOffset trailer numRecords

/-- The footer behind the fields. -/
def checkFooter (trailer : Buffer) (miniTrailerSize : UInt32) (tpos : ℕ) : Result Unit :=
  match readFields trailer [4, 4] tpos with
  | none => Status.corruption "Mini-trailer: failed to read trailer footer"
  | some (fields, tpos) =>
      if UInt32.ofNat (fields.getD 0 0) ≠ miniTrailerSize ∨
          UInt32.ofNat (fields.getD 1 0) ≠ kBlockMagic then
        Status.corruption "Mini-trailer footer mismatch"
      else if tpos ≠ miniTrailerSize.toNat then
        Status.corruption "Mini-trailer has trailing bytes"
      else .ok ()

def checkGranularity : AddressTrailer → Result Unit
  | .packed layout _ =>
      if 0 < layout.numAddressBlocks ∧ layout.blockGranularity = 0 then
        Status.corruption "Invalid address block granularity"
      else .ok ()
  | .rawTable .. => .ok ()

/-- The trailer of `miniTrailerSize` bytes at the end of a block. -/
def readTrailer (messages : TrailerMessages) (g : ReaderGeometry) (numRecords : UInt32)
    (trailer : Buffer) (miniTrailerSize : UInt32) : Result AddressTrailer :=
  (readAddresses messages g numRecords trailer).bind fun read =>
    (checkFooter trailer miniTrailerSize read.2).bind fun _ =>
      (checkGranularity read.1).map fun _ => read.1

/-! ## Regions -/

/-- Where the regions of a block are: the FastScan blocks, the extra codes, and the
addresses behind both. -/
structure BlockRegions where
  region1Size : UInt32
  region2Size : UInt32
  expectedPayloadBytes : ℕ

namespace BlockRegions

/-- `codes_length`. -/
def codesLength (regions : BlockRegions) : UInt32 := regions.region1Size + regions.region2Size

end BlockRegions

/-- `expected_payload_bytes`: a 64-bit sum that cannot wrap. -/
def AddressTrailer.payloadBytes : AddressTrailer → ℕ
  | .rawTable _ _ payloadBytes => payloadBytes.toNat
  | .packed layout _ =>
      if 0 < layout.numAddressBlocks then
        (layout.numAddressBlocks - 1).toNat * layout.fixedPackedSize.toNat +
          layout.lastPackedSize.toNat
      else 0

/-- `v9_payload_offset`, zero for packed addresses. -/
def AddressTrailer.payloadOffset : AddressTrailer → UInt32
  | .rawTable _ payloadOffset _ => payloadOffset
  | .packed .. => 0

def blockRegions (g : ReaderGeometry) (entry : LookupEntry) (addresses : AddressTrailer) :
    BlockRegions :=
  let region1Size := entry.numFastscanBlocks * g.fastscanBlockBytes
  { region1Size := region1Size
    region2Size :=
      if 11 ≤ g.fileVersion then
        if region1Size ≤ addresses.payloadOffset then addresses.payloadOffset - region1Size else 0
      else entry.numRecords * g.exrabitqEntrySize
    expectedPayloadBytes := addresses.payloadBytes }

/-- The checks of the regions against the size of the block; each parser has its own message
for codes that do not fit. -/
def checkRegions (message : String) (regions : BlockRegions) (blockSize : ℕ)
    (miniTrailerSize : UInt32) : Result Unit :=
  if blockSize < regions.codesLength.toNat then Status.corruption message
  else if blockSize - regions.codesLength.toNat < miniTrailerSize.toNat then
    Status.corruption "Cluster block shorter than trailer"
  else if blockSize - regions.codesLength.toNat - miniTrailerSize.toNat ≠
      regions.expectedPayloadBytes then
    Status.corruption "Address payload size mismatch"
  else .ok ()

/-! ## Addresses -/

/-- Entry `i` of the table at an offset. -/
def loadRawEntry (block : Buffer) (off i : ℕ) : Result RawAddressEntryV2 :=
  (load32 block (off + 8 * i)).bind fun offsetPages =>
    (load32 block (off + 8 * i + 4)).map fun sizePages => ⟨offsetPages, sizePages⟩

/-- The packed bytes of the blocks from block `i` on, each behind the one before. -/
def copyPacked (block : Buffer) (layout : AddressColumnLayout) :
    ℕ → ℕ → List UInt32 → Result (List AddressBlock)
  | _, _, [] => .ok []
  | i, addrOffset, base :: bases =>
      let packedSize := (blockPackedSize layout (UInt32.ofNat i)).toNat
      (Result.inBounds (block.load addrOffset packedSize)).bind fun bytes =>
        (copyPacked block layout (i + 1) (addrOffset + packedSize) bases).map fun blocks =>
          ⟨base, ⟨packedSize, bytes⟩⟩ :: blocks

/-- The addresses of `numRecords` records. -/
def decodeAddresses (build : Build) (block : Buffer) (regions : BlockRegions)
    (miniTrailerSize numRecords : UInt32) : AddressTrailer → Result (List AddressEntry)
  | .rawTable pageSize payloadOffset payloadBytes =>
      if block.size - miniTrailerSize.toNat < payloadOffset.toNat + payloadBytes.toNat then
        Status.corruption "V9 raw address payload exceeds block"
      else
        emitRange (fun i => (loadRawEntry block payloadOffset.toNat i).map fun entry =>
          [decodeRawEntryV2 entry pageSize]) numRecords.toNat
  | .packed layout baseOffsets =>
      (copyPacked block layout 0 regions.codesLength.toNat baseOffsets).bind fun blocks =>
        decodeBatchBlocks build layout blocks numRecords

/-! ## Parsed clusters -/

/-- A `ParsedCluster` without the fields of resident clusters. -/
structure ParsedCluster where
  fastscanBlocks : ℕ
  fastscanBlockSize : UInt32
  numFastscanBlocks : UInt32
  exrabitqEntries : Option ℕ
  exrabitqEntrySize : UInt32
  exrabitqSignBytes : UInt32
  exrabitqSignPacked : Bool
  exrabitqStorageVersion : UInt32
  exrabitqBatchBlocks : Option ℕ
  exrabitqBatchBlockSize : UInt32
  exrabitqBatchBlockOffsets : Option ℕ
  exrabitqBatchRegionBytes : UInt32
  exrabitqVariableBatchBlocks : Bool
  exrabitqBatchSize : UInt32
  exrabitqDimBlock : UInt32
  exrabitqNumDimBlocks : UInt32
  exrabitqNumBatchBlocks : UInt32
  exrabitqAbsBytesPerLaneDimBlock : UInt32
  exrabitqMagnitudeBits : UInt8
  exrabitqMagnitudePacked : Bool
  rabitqTotalBits : UInt8
  rabitqExBits : UInt8
  rabitqEstimatorMode : RaBitQEstimatorMode
  rabitqExdataLayout : RaBitQExDataLayout
  numRecords : UInt32
  epsilon : UInt32
  rawAddresses : Option ℕ
  addressPageSize : UInt32
  addressesAreRawV2 : Bool
  decodedAddresses : List AddressEntry
  decodedAddressCount : UInt32
  fastscanRegionOffset : ℕ
  exrabitqRegionOffset : ℕ
  codeRegionBytes : ℕ
  addressPayloadOffset : ℕ
  addressPayloadBytes : ℕ
  miniTrailerOffset : ℕ
  miniTrailerSize : UInt32
  codesStart : ℕ
  codeEntrySize : UInt32
  deriving DecidableEq

/-- `exrabitq_batch_blocks`: null where there are none. -/
def batchBlocksAt (g : ReaderGeometry) (regions : BlockRegions) : Option ℕ :=
  if 11 ≤ g.fileVersion ∧ 0 < g.config.stage2PayloadBits then some regions.region1Size.toNat
  else none

/-- The header of a variable region, and where its offsets are. -/
def readVariableRegion (block : Buffer) (numRecords : UInt32) (regions : BlockRegions)
    (batchBlocks : Option ℕ) : Result ℕ :=
  if regions.region2Size < 12 then Status.corruption "Variable ExRaBitQ region is too small"
  else
    (Result.inBounds batchBlocks).bind fun start =>
      (load32 block start).bind fun magic =>
        (load32 block (start + 4)).bind fun storedBatchBlocks =>
          if magic ≠ kVariableExRegionMagic ∨ storedBatchBlocks ≠ numBatchBlocks numRecords then
            Status.corruption "Variable ExRaBitQ region header mismatch"
          else
            let offsetTableBytes := 8 + (storedBatchBlocks + 1).toNat * 4
            if regions.region2Size.toNat < offsetTableBytes then
              Status.corruption "Variable ExRaBitQ offset table exceeds region"
            else
              (load32 block (start + 8)).bind fun firstOffset =>
                (load32 block (start + 8 + storedBatchBlocks.toNat * 4)).bind fun lastOffset =>
                  if firstOffset.toNat ≠ offsetTableBytes ∨ lastOffset ≠ regions.region2Size then
                    Status.corruption "Variable ExRaBitQ offsets have invalid bounds"
                  else .ok (start + 8)

/-- The offsets of the batch blocks, null in a fixed layout. -/
def batchBlockOffsets (g : ReaderGeometry) (block : Buffer) (numRecords : UInt32)
    (regions : BlockRegions) : Result (Option ℕ) :=
  if g.variableExBlocks then
    (readVariableRegion block numRecords regions (batchBlocksAt g regions)).map some
  else .ok none

/-- The cluster of a block that passed. -/
def parsedCluster (g : ReaderGeometry) (entry : LookupEntry) (blockSize : ℕ)
    (miniTrailerSize : UInt32) (addresses : AddressTrailer) (decoded : List AddressEntry)
    (offsets : Option ℕ) : ParsedCluster :=
  let regions := blockRegions g entry addresses
  { fastscanBlocks := 0
    fastscanBlockSize := g.fastscanBlockBytes
    numFastscanBlocks := entry.numFastscanBlocks
    exrabitqEntries := if 0 < g.exrabitqEntrySize then some regions.region1Size.toNat else none
    exrabitqEntrySize := g.exrabitqEntrySize
    exrabitqSignBytes := g.exrabitqSignBytes
    exrabitqSignPacked := decide (10 ≤ g.fileVersion)
    exrabitqStorageVersion := g.fileVersion
    exrabitqBatchBlocks := batchBlocksAt g regions
    exrabitqBatchBlockSize := if g.variableExBlocks then 0 else g.exrabitqBatchBlockSize
    exrabitqBatchBlockOffsets := offsets
    exrabitqBatchRegionBytes := regions.region2Size
    exrabitqVariableBatchBlocks := g.variableExBlocks
    exrabitqBatchSize := 8
    exrabitqDimBlock := 64
    exrabitqNumDimBlocks := dimBlockCount g.dim
    exrabitqNumBatchBlocks := numBatchBlocks entry.numRecords
    exrabitqAbsBytesPerLaneDimBlock := g.exrabitqAbsBytesPerLaneDimBlock
    exrabitqMagnitudeBits := g.config.stage2PayloadBits
    exrabitqMagnitudePacked := g.exrabitqMagnitudePacked
    rabitqTotalBits := g.config.effectiveTotalBits
    rabitqExBits := g.config.stage2PayloadBits
    rabitqEstimatorMode := g.config.estimatorMode
    rabitqExdataLayout := g.config.effectiveExdataLayout
    numRecords := entry.numRecords
    epsilon := entry.epsilon
    rawAddresses :=
      match addresses with
      | .rawTable _ payloadOffset _ => some payloadOffset.toNat
      | .packed .. => none
    addressPageSize :=
      match addresses with
      | .rawTable pageSize _ _ => pageSize
      | .packed .. => 0
    addressesAreRawV2 :=
      match addresses with
      | .rawTable .. => true
      | .packed .. => false
    decodedAddresses := decoded
    decodedAddressCount := UInt32.ofNat decoded.length
    fastscanRegionOffset := 0
    exrabitqRegionOffset := regions.region1Size.toNat
    codeRegionBytes := regions.codesLength.toNat
    addressPayloadOffset :=
      match addresses with
      | .rawTable _ payloadOffset _ => payloadOffset.toNat
      | .packed .. => regions.codesLength.toNat
    addressPayloadBytes := regions.expectedPayloadBytes
    miniTrailerOffset := blockSize - miniTrailerSize.toNat
    miniTrailerSize := miniTrailerSize
    codesStart := 0
    codeEntrySize := 0 }

/-! ## The call -/

/-- The part of a block that is its trailer. -/
def trailerOf (block : Buffer) (miniTrailerSize : UInt32) : Buffer :=
  ⟨miniTrailerSize.toNat, fun j => block.byte (block.size - miniTrailerSize.toNat + j)⟩

/-- The messages of `ParseClusterBlockView`. -/
def viewMessages : TrailerMessages where
  rawTable := "Mini-trailer: failed to read V9 address metadata"
  baseOffset i := s!"Mini-trailer: failed to parse block {i}"

/-- A block of the size that its entry says. -/
def parseBlock (build : Build) (g : ReaderGeometry) (entry : LookupEntry) (block : Buffer) :
    Result ParsedCluster :=
  (load32 block (block.size - 8)).bind fun miniTrailerSize =>
    (load32 block (block.size - 4)).bind fun blockMagic =>
      if blockMagic ≠ kBlockMagic then Status.corruption "Invalid block magic"
      else if block.size < miniTrailerSize.toNat then
        Status.corruption "Mini-trailer size exceeds block"
      else
        (readTrailer viewMessages g entry.numRecords (trailerOf block miniTrailerSize)
          miniTrailerSize).bind fun addresses =>
            let regions := blockRegions g entry addresses
            (checkRegions "Cluster block shorter than code regions" regions block.size
              miniTrailerSize).bind fun _ =>
              (decodeAddresses build block regions miniTrailerSize entry.numRecords
                addresses).bind fun decoded =>
                  (batchBlockOffsets g block entry.numRecords regions).map fun offsets =>
                    parsedCluster g entry block.size miniTrailerSize addresses decoded offsets

/-- `ParseClusterBlockView`, `found` being the lookup entry of the cluster and `blockPtr` the
bytes from the pointer on. -/
def parseClusterBlockView (build : Build) (g : ReaderGeometry) (clusterId : UInt32)
    (found : Option LookupEntry) (blockPtr : Option (ℕ → UInt8)) (blockSize : UInt64) :
    Result ParsedCluster :=
  match found, blockPtr with
  | none, _ => Status.invalidArgument s!"Cluster {clusterId} not found"
  | some _, none => Status.invalidArgument "block_ptr is null"
  | some entry, some bytes =>
      if blockSize.toNat ≠ entry.blockSize then Status.invalidArgument "block_size mismatch"
      else if blockSize < 8 then Status.corruption "Block too small for trailer footer"
      else parseBlock build g entry ⟨blockSize.toNat, bytes⟩

/-! ## The views -/

/-- A batch block: where it starts, and its bytes. -/
structure BatchBlock where
  offset : ℕ
  bytes : UInt32
  deriving DecidableEq

structure ExRaBitQView where
  codeAbs : Option ℕ := none
  sign : Option ℕ := none
  signBytes : UInt32 := 0
  signPacked : Bool := false
  xipnorm : UInt32 := 0
  deriving DecidableEq

structure ExRaBitQBatchBlockView where
  absBlocks : Option ℕ := none
  signBlocks : Option ℕ := none
  xipnorms : Option ℕ := none
  officialFactorAdds : Option ℕ := none
  officialFactorRescales : Option ℕ := none
  validCount : UInt32 := 0
  batchBlockId : UInt32 := 0
  absBytesPerLaneDimBlock : UInt32 := 0
  magnitudeBits : UInt8 := 0
  absPacked : Bool := false
  exdataLayout : RaBitQExDataLayout := .genericPacked
  batchBlockBytes : UInt32 := 0
  deriving DecidableEq

namespace ParsedCluster

variable (pc : ParsedCluster) (block : Buffer)

def usesOfficial1PlusN : Bool := decide (pc.rabitqEstimatorMode = .official1PlusN)

/-- Where `norm_oc` finds the norms of a FastScan block. -/
def normsAt (blockIdx : ℕ) : ℕ :=
  pc.fastscanBlocks + blockIdx * pc.fastscanBlockSize.toNat + (pc.fastscanBlockSize - 128).toNat

/-- `exrabitq_view`. -/
def exrabitqView (vecIdx : ℕ) (dim : UInt32) : Result ExRaBitQView :=
  match pc.exrabitqEntries with
  | none => .ok {}
  | some entries =>
      if 11 ≤ pc.exrabitqStorageVersion then .ok {}
      else
        let entry := entries + vecIdx * pc.exrabitqEntrySize.toNat
        (load32 block (entry + dim.toNat + pc.exrabitqSignBytes.toNat)).map fun xipnorm =>
          { codeAbs := some entry
            sign := some (entry + dim.toNat)
            signBytes := pc.exrabitqSignBytes
            signPacked := pc.exrabitqSignPacked
            xipnorm := xipnorm }

/-- The view of a batch block of `blockBytes` bytes at an offset. -/
def batchViewAt (batchBlockId : UInt32) (start : ℕ) (blockBytes : UInt32) :
    Result ExRaBitQBatchBlockView :=
  if blockBytes < 4 then .ok {}
  else
    let absLaneBytes := if pc.exrabitqAbsBytesPerLaneDimBlock ≠ 0 then
      pc.exrabitqAbsBytesPerLaneDimBlock else pc.exrabitqDimBlock
    (load32 block start).bind fun validCount =>
      if pc.exrabitqBatchSize < validCount then .ok {}
      else
        let storedLanes := if pc.exrabitqVariableBatchBlocks then validCount
          else pc.exrabitqBatchSize
        let absTotalBytes := pc.exrabitqNumDimBlocks * storedLanes * absLaneBytes
        let factorCount := if pc.usesOfficial1PlusN then storedLanes * 2 else storedLanes
        if blockBytes.toNat < factorCount.toNat * 4 then .ok {}
        else
          let factors := start + blockBytes.toNat - factorCount.toNat * 4
          .ok
            { absBlocks := some (start + 4)
              signBlocks :=
                if pc.usesOfficial1PlusN then none else some (start + 4 + absTotalBytes.toNat)
              xipnorms := if pc.usesOfficial1PlusN then none else some factors
              officialFactorAdds := if pc.usesOfficial1PlusN then some factors else none
              officialFactorRescales :=
                if pc.usesOfficial1PlusN then some (factors + storedLanes.toNat * 4) else none
              validCount := validCount
              batchBlockId := batchBlockId
              absBytesPerLaneDimBlock := absLaneBytes
              magnitudeBits := pc.exrabitqMagnitudeBits
              absPacked := pc.exrabitqMagnitudePacked
              exdataLayout := pc.rabitqExdataLayout
              batchBlockBytes := blockBytes }

/-- Where `exrabitq_batch_block_view` finds a batch block, if it is one. -/
def batchBlock (batchBlockId : UInt32) : Result (Option BatchBlock) :=
  match pc.exrabitqBatchBlocks with
  | none => .ok none
  | some blocks =>
      if pc.exrabitqNumBatchBlocks ≤ batchBlockId ∨ pc.exrabitqBatchSize = 0 ∨
          pc.exrabitqDimBlock = 0 then .ok none
      else if pc.exrabitqVariableBatchBlocks then
        match pc.exrabitqBatchBlockOffsets with
        | none => .ok none
        | some offsets =>
            if pc.exrabitqNumBatchBlocks + 1 ≤ batchBlockId + 1 then .ok none
            else
              (load32 block (offsets + 4 * batchBlockId.toNat)).bind fun start =>
                (load32 block (offsets + 4 * (batchBlockId + 1).toNat)).map fun stop =>
                  if stop < start ∨ pc.exrabitqBatchRegionBytes < stop then none
                  else some ⟨blocks + start.toNat, stop - start⟩
      else if pc.exrabitqBatchBlockSize = 0 then .ok none
      else
        .ok (some ⟨blocks + batchBlockId.toNat * pc.exrabitqBatchBlockSize.toNat,
          pc.exrabitqBatchBlockSize⟩)

/-- `exrabitq_batch_block_view`. -/
def exrabitqBatchBlockView (batchBlockId : UInt32) : Result ExRaBitQBatchBlockView :=
  (pc.batchBlock block batchBlockId).bind fun place =>
    match place with
    | none => .ok {}
    | some place => pc.batchViewAt block batchBlockId place.offset place.bytes

end ParsedCluster

end VecFetch.Storage
