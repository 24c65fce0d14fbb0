/-
# Storage.AddressColumn -- packed address blocks

`AddressColumn::Encode` cuts a cluster's addresses into blocks of one granularity and
packs the sizes, in pages, at one bit width; only a block's first offset is kept, and
`DecodeBatchBlocks` rebuilds the others by prefix sums.  Counts and products are
`uint32_t` and wrap where the code lets them; a store outside a scratch vector ends the
call with `outOfBounds`.
-/
import VecFetch.Common.Status
import VecFetch.Codec.Bitpack
import VecFetch.Simd.PrefixSum
import VecFetch.Query.Types

namespace VecFetch.Storage

open VecFetch.Theory VecFetch.Simd VecFetch.Codec VecFetch.Query

set_option autoImplicit false

/-! ## Layouts and blocks -/

structure AddressColumnLayout where
  pageSize : UInt32
  bitWidth : UInt8 := 1
  blockGranularity : UInt32 := 0
  fixedPackedSize : UInt32 := 0
  lastPackedSize : UInt32 := 0
  numAddressBlocks : UInt32 := 0
  deriving DecidableEq

structure AddressBlock where
  baseOffset : UInt32
  packed : Buffer

/-- An `EncodedAddressColumn` of the packed format. -/
structure EncodedAddressColumn where
  layout : AddressColumnLayout
  blocks : List AddressBlock
  totalRecords : UInt32

def kDefaultFixedPackedSize : UInt32 := 64

def kMultiStreamWidth : UInt32 := 8

/-- The pages of a size, as `Encode` counts them: the sum is a `uint32_t`. -/
def pageCount (pageSize size : UInt32) : UInt32 := (size + pageSize - 1) / pageSize

/-- `ComputeSharedBitWidth`. -/
def computeSharedBitWidth (entries : List AddressEntry) (pageSize : UInt32) : UInt8 :=
  if entries.isEmpty then 1
  else
    let sizes := entries.map fun entry => pageCount pageSize entry.size
    let bitWidth :=
      computeMinBitWidth (sizes.take (UInt32.ofNat sizes.length).toNat) 0xFFFFFFFF
    if bitWidth = 0 then 1 else bitWidth

/-- `ComputeBlockGranularity`. -/
def computeBlockGranularity (fixedPackedSize : UInt32) (bitWidth : UInt8) : UInt32 :=
  if fixedPackedSize = 0 then 0
  else if bitWidth = 0 then 0
  else
    let granularity := ((fixedPackedSize.toUInt64 * 8) / bitWidth.toUInt64).toUInt32
    if granularity < 1 then 1 else granularity

/-! ## Encoding -/

/-- `std::vector::resize` to at least `size` bytes, filled with zeros. -/
def padTo (size : ℕ) (b : Buffer) : Buffer :=
  if b.size < size then ⟨size, fun i => if i < b.size then b.byte i else 0⟩ else b

/-- `AddressColumn::EncodeSingleBlock` on the block's entries. -/
def encodeSingleBlock (entries : List AddressEntry) (pageSize : UInt32) (bitWidth : UInt8)
    (paddedSize : UInt32) : Result AddressBlock :=
  let sizes := entries.map fun entry => pageCount pageSize entry.size
  (Result.inBounds (encode sizes bitWidth)).map fun packed =>
    { baseOffset := ((entries.getD 0 ⟨0, 0⟩).offset / pageSize.toUInt64).toUInt32
      packed := padTo paddedSize.toNat packed }

/-- Block `b` of the loop of `Encode`. -/
def encodeBlock (entries : List AddressEntry) (pageSize : UInt32) (bitWidth : UInt8)
    (granularity fixedPackedSize numBlocks : UInt32) (b : ℕ) : Result AddressBlock :=
  let n := UInt32.ofNat entries.length
  let start := UInt32.ofNat b * granularity
  let count := min granularity (n - start)
  encodeSingleBlock ((entries.drop start.toNat).take count.toNat) pageSize bitWidth
    (if b + 1 = numBlocks.toNat then 0 else fixedPackedSize)

/-- `AddressColumn::Encode`. -/
def encodeColumn (entries : List AddressEntry) (fixedPackedSize pageSize : UInt32) :
    Result EncodedAddressColumn :=
  let n := UInt32.ofNat entries.length
  if entries.isEmpty then
    .ok { layout := { pageSize := pageSize, fixedPackedSize := fixedPackedSize }
          blocks := [], totalRecords := n }
  else
    let fixedPackedSize := if fixedPackedSize = 0 then kDefaultFixedPackedSize else fixedPackedSize
    let bitWidth := computeSharedBitWidth entries pageSize
    let granularity := computeBlockGranularity fixedPackedSize bitWidth
    let numBlocks := (n + granularity - 1) / granularity
    (emitRange (fun b =>
      (encodeBlock entries pageSize bitWidth granularity fixedPackedSize numBlocks b).map
        fun block => [block]) numBlocks.toNat).map fun blocks =>
      { layout :=
          { pageSize := pageSize
            bitWidth := bitWidth
            blockGranularity := granularity
            fixedPackedSize := fixedPackedSize
            lastPackedSize := (blocks.getLast?.map fun b => UInt32.ofNat b.packed.size).getD 0
            numAddressBlocks := numBlocks }
        blocks := blocks
        totalRecords := n }

/-! ## Decoding -/

section Decode

variable (build : Build) (layout : AddressColumnLayout)

/-- `BitUnpack` of the first `count` values of a block. -/
def unpackBlock (count : ℕ) (block : AddressBlock) : Result (List UInt32) :=
  emitRange (fun i => (Result.inBounds
    (unpackValue build block.packed layout.bitWidth count i)).map fun v => [v]) count

/-- An entry rebuilt from pages. -/
def addressOf (pageSize baseOffset pagesBefore pages : UInt32) : AddressEntry :=
  ⟨(baseOffset.toUInt64 + pagesBefore.toUInt64) * pageSize.toUInt64,
    (pages.toUInt64 * pageSize.toUInt64).toUInt32⟩

/-- `AddressColumn::DecodeSingleBlock`; the scratch vectors hold `aligned_count` values, and
at the largest count they hold, the `i + 8u` of `ExclusivePrefixSumAVX2` wraps. -/
def decodeSingleBlock (block : AddressBlock) (recordCount : UInt32) :
    Result (List AddressEntry) :=
  if recordCount = 0 then .ok []
  else
    let alignedCount := (recordCount + 7) / 8 * 8
    if alignedCount < recordCount ∨ (build ≠ .scalar ∧ recordCount = 0xFFFFFFF8) then
      .error .outOfBounds
    else
      (unpackBlock build layout recordCount.toNat block).map fun sizes =>
        (List.range recordCount.toNat).map fun i =>
          addressOf layout.pageSize block.baseOffset
            (exclusivePrefixSum build (sizes.getD · 0) recordCount.toNat i) (sizes.getD i 0)

/-- `BitUnpack` of up to eight regular blocks. -/
def unpackStreams : List AddressBlock → Result (List (List UInt32))
  | [] => .ok []
  | block :: blocks =>
      (unpackBlock build layout layout.blockGranularity.toNat block).bind fun sizes =>
        (unpackStreams blocks).map fun streams => sizes :: streams

/-- `AddressColumn::DecodeMultiStream` on up to eight regular blocks.  The streams hold
`aligned_G` values, and the interleaved vectors `G * 8`, a `uint32_t` product, of which
the transposes write the first `8 * G`. -/
def decodeMultiStream (blocks : List AddressBlock) : Result (List AddressEntry) :=
  let granularity := layout.blockGranularity
  let alignedG := (granularity + 7) / 8 * 8
  if alignedG < granularity then .error .outOfBounds
  else
    (unpackStreams build layout blocks).bind fun streams =>
      if (granularity * kMultiStreamWidth).toNat < 8 * granularity.toNat then .error .outOfBounds
      else
        let size (k j : ℕ) : UInt32 := (streams.getD k []).getD j 0
        .ok ((List.range blocks.length).flatMap fun k =>
          (List.range granularity.toNat).map fun j =>
            addressOf layout.pageSize (blocks.getD k ⟨0, .zeros 0⟩).baseOffset
              (streamPrefixSums build size blocks.length granularity.toNat k j) (size k j))

/-- The loop of `DecodeBatchBlocks` over the regular blocks, eight at a time.  `out` holds
the entries written so far: `out_offset` is its length, and a batch that does not fit
what `out_entries` holds is a store outside.  Each batch fills an entry at least, so
`totalRecords + 1` rounds are more than it can take. -/
def decodeBatches (blocks : List AddressBlock) (numRegular totalRecords : UInt32) :
    ℕ → UInt32 → List AddressEntry → Result (List AddressEntry)
  | 0, _, _ => .error .outOfBounds
  | fuel + 1, batchStart, out =>
      if batchStart < numRegular then
        let batchBlocks := min kMultiStreamWidth (numRegular - batchStart)
        (decodeMultiStream build layout
          ((blocks.drop batchStart.toNat).take batchBlocks.toNat)).bind fun entries =>
            if totalRecords.toNat < out.length + entries.length then .error .outOfBounds
            else decodeBatches blocks numRegular totalRecords fuel
              (batchStart + kMultiStreamWidth) (out ++ entries)
      else .ok out

/-- `AddressColumn::BlockRecordCount`. -/
def blockRecordCount (totalRecords blockIdx : UInt32) : UInt32 :=
  if layout.numAddressBlocks ≤ blockIdx then 0
  else if layout.numAddressBlocks = 0 then 0
  else if blockIdx + 1 < layout.numAddressBlocks then layout.blockGranularity
  else
    let regularRecords :=
      (layout.numAddressBlocks - 1).toUInt64 * layout.blockGranularity.toUInt64
    if totalRecords.toUInt64 ≤ regularRecords then 0
    else totalRecords - regularRecords.toUInt32

/-- `AddressColumn::DecodeBatchBlocks`. -/
def decodeBatchBlocks (blocks : List AddressBlock) (totalRecords : UInt32) :
    Result (List AddressEntry) :=
  if blocks.length ≠ layout.numAddressBlocks.toNat then
    Status.invalidArgument "Address block count does not match layout"
  else if layout.numAddressBlocks = 0 then
    if totalRecords ≠ 0 then Status.corruption "Zero blocks with non-zero total_records" else .ok []
  else if layout.blockGranularity = 0 then Status.corruption "Invalid block granularity"
  else
    let tailCount := blockRecordCount layout totalRecords (layout.numAddressBlocks - 1)
    let hasSeparateTail := tailCount < layout.blockGranularity ∨
      layout.lastPackedSize ≠ layout.fixedPackedSize
    let numRegular :=
      if hasSeparateTail then layout.numAddressBlocks - 1 else layout.numAddressBlocks
    (decodeBatches build layout blocks numRegular totalRecords (totalRecords.toNat + 1) 0
      []).bind fun out =>
        if hasSeparateTail then
          (decodeSingleBlock build layout (blocks.getLastD ⟨0, .zeros 0⟩) tailCount).bind
            fun tail =>
              if totalRecords.toNat < out.length + tail.length then .error .outOfBounds
              else if out.length + tail.length ≠ totalRecords.toNat then
                Status.corruption "Decoded address count mismatch"
              else .ok (out ++ tail)
        else if out.length ≠ totalRecords.toNat then
          Status.corruption "Decoded address count mismatch"
        else .ok out

/-- `AddressColumn::Decode` of a packed column. -/
def decodeColumn (column : EncodedAddressColumn) : Result (List AddressEntry) :=
  decodeBatchBlocks build column.layout column.blocks column.totalRecords

end Decode

end VecFetch.Storage
