/-
# Storage.AddressBatch -- decoding all blocks against decoding them one by one

`DecodeBatchBlocks` sends regular blocks through eight interleaved streams and the last
one through `DecodeSingleBlock`.  On what `Encode` returns it writes what
`DecodeSingleBlock` writes block after block, except where the block count, the length of
the interleaved vectors or the batch counter, all `uint32_t`, wraps
(`decodeBatchBlocks_eq_each_iff`).
-/
import VecFetch.Storage.AddressRoundTrip

namespace VecFetch.Storage

open VecFetch.Theory VecFetch.Simd VecFetch.Codec VecFetch.Query

set_option autoImplicit false

/-! ## The two ways to decode a column -/

/-- `DecodeSingleBlock` on every block in order, each with its `BlockRecordCount`. -/
def decodeEachBlock (build : Build) (column : EncodedAddressColumn) :
    Result (List AddressEntry) :=
  emitRange (fun b => decodeSingleBlock build column.layout
    (column.blocks.getD b ⟨0, .zeros 0⟩)
    (blockRecordCount column.layout column.totalRecords (UInt32.ofNat b))) column.blocks.length

/-- The entries `Encode` counts: their number is a `uint32_t`. -/
def countedEntries (entries : List AddressEntry) : List AddressEntry :=
  entries.take (UInt32.ofNat entries.length).toNat

/-- The counts of the batched path stay below `2 ^ 32`: the block count's numerator, the
length of the interleaved vectors, and the start of the batch after the last. -/
structure BatchesFit (entries : List AddressEntry) (fixedPackedSize pageSize : UInt32) :
    Prop where
  blocks : (countedEntries entries).length +
    (granularityOf (countedEntries entries) fixedPackedSize pageSize).toNat ≤ 2 ^ 32
  streams : regularOf (countedEntries entries) fixedPackedSize pageSize = 0 ∨
    (granularityOf (countedEntries entries) fixedPackedSize pageSize).toNat < 2 ^ 29
  batches : regularOf (countedEntries entries) fixedPackedSize pageSize + 8 ≤ 2 ^ 32

/-! ## Lists longer than the count -/

section Counted

variable {entries : List AddressEntry} {fixedPackedSize pageSize : UInt32}

theorem countedEntries_length (entries : List AddressEntry) :
    (countedEntries entries).length = (UInt32.ofNat entries.length).toNat := by
  rw [countedEntries, List.length_take, UInt32.toNat_ofNat']
  exact Nat.min_eq_left (Nat.mod_le _ _)

theorem countedEntries_lt (entries : List AddressEntry) :
    (countedEntries entries).length < 2 ^ 32 := by
  rw [countedEntries_length]
  exact UInt32.toNat_lt _

theorem ofNat_countedEntries (entries : List AddressEntry) :
    UInt32.ofNat (countedEntries entries).length = UInt32.ofNat entries.length := by
  rw [countedEntries_length]
  exact UInt32.ofNat_toNat

theorem take_drop_counted {start count : ℕ}
    (inside : count ≤ (UInt32.ofNat entries.length).toNat - start) :
    ((countedEntries entries).drop start).take count = (entries.drop start).take count := by
  rw [countedEntries, List.drop_take, List.take_take, Nat.min_eq_left inside]

theorem computeSharedBitWidth_counted (some : countedEntries entries ≠ []) :
    computeSharedBitWidth (countedEntries entries) pageSize =
      computeSharedBitWidth entries pageSize := by
  have nonempty : entries ≠ [] := by
    intro none
    rw [none] at some
    exact some rfl
  have given : (countedEntries entries).isEmpty = false := by simpa using some
  have given' : entries.isEmpty = false := by simpa using nonempty
  have sizes : (countedEntries entries).take (UInt32.ofNat entries.length).toNat =
      entries.take (UInt32.ofNat entries.length).toNat := by
    rw [countedEntries, List.take_take, Nat.min_self]
  simp only [computeSharedBitWidth, given, given', Bool.false_eq_true, if_false, List.length_map,
    ofNat_countedEntries, ← List.map_take, sizes]

/-- `Encode` sees the counted entries only. -/
theorem encodeColumn_counted (some : countedEntries entries ≠ [])
    (fits : (countedEntries entries).length +
      (granularityOf (countedEntries entries) fixedPackedSize pageSize).toNat ≤ 2 ^ 32) :
    encodeColumn entries fixedPackedSize pageSize =
      encodeColumn (countedEntries entries) fixedPackedSize pageSize := by
  have nonempty : entries ≠ [] := by
    intro none
    rw [none] at some
    exact some rfl
  have width := @computeSharedBitWidth_counted entries pageSize some
  have granularity : granularityOf entries fixedPackedSize pageSize =
      granularityOf (countedEntries entries) fixedPackedSize pageSize := by
    rw [granularityOf, granularityOf, width]
  have blocks : ∀ g, numBlocksOf entries g = numBlocksOf (countedEntries entries) g := by
    intro g
    rw [numBlocksOf, numBlocksOf, ofNat_countedEntries]
  obtain ⟨least, -⟩ := granularityOf_spec (countedEntries entries) fixedPackedSize pageSize
  have cut := cut_of_fits some (countedEntries_lt entries) least fits
  have columns : columnOf entries fixedPackedSize pageSize =
      columnOf (countedEntries entries) fixedPackedSize pageSize := by
    funext out
    rw [columnOf, columnOf, width, granularity, blocks, ofNat_countedEntries]
  rw [encodeColumn_eq nonempty, encodeColumn_eq some, columns, width, granularity, blocks]
  refine congrArg (Except.map _) (emitRange_congr fun b below => congrArg (Except.map _) ?_)
  -- a block's entries all lie before the count
  have start := cut.start below
  have count := cut.count below
  rw [ofNat_countedEntries] at count
  rw [encodeBlock, encodeBlock, ofNat_countedEntries, start.1, count]
  rw [take_drop_counted]
  rw [blockCount, countedEntries_length]
  exact Nat.min_le_right _ _

/-- With no counted entries there are no blocks. -/
theorem encodeColumn_uncounted (none : countedEntries entries = [])
    {column : EncodedAddressColumn}
    (encoded : encodeColumn entries fixedPackedSize pageSize = .ok column) :
    column.blocks = [] ∧ column.layout.numAddressBlocks = 0 ∧ column.totalRecords = 0 := by
  have zero : UInt32.ofNat entries.length = 0 := by
    rw [← ofNat_countedEntries, none]
    rfl
  by_cases empty : entries = []
  · subst empty
    rw [← Except.ok.inj encoded]
    exact ⟨rfl, rfl, rfl⟩
  · obtain ⟨least, -⟩ := granularityOf_spec entries fixedPackedSize pageSize
    have blocks : numBlocksOf entries (granularityOf entries fixedPackedSize pageSize) = 0 := by
      have small := (granularityOf entries fixedPackedSize pageSize).toNat_lt
      rw [numBlocksOf, zero, ← UInt32.toNat_inj, UInt32.toNat_div, UInt32.zero_add,
        UInt32.toNat_sub_of_le _ _ (by
          rw [UInt32.le_iff_toNat_le]
          simpa only [UInt32.reduceToNat] using least)]
      exact Nat.div_eq_of_lt (by simp only [UInt32.reduceToNat]; omega)
    rw [encodeColumn_eq empty, blocks] at encoded
    rw [← Except.ok.inj encoded]
    exact ⟨rfl, blocks, zero⟩

/-- A block count that wraps leaves no blocks for the records counted. -/
theorem encodeColumn_lost (some : countedEntries entries ≠ [])
    (wraps : ¬ (countedEntries entries).length +
      (granularityOf (countedEntries entries) fixedPackedSize pageSize).toNat ≤ 2 ^ 32)
    {column : EncodedAddressColumn}
    (encoded : encodeColumn entries fixedPackedSize pageSize = .ok column) :
    column.blocks = [] ∧ column.layout.numAddressBlocks = 0 ∧ column.totalRecords ≠ 0 := by
  have nonempty : entries ≠ [] := by
    intro none
    rw [none] at some
    exact some rfl
  have granularity : granularityOf entries fixedPackedSize pageSize =
      granularityOf (countedEntries entries) fixedPackedSize pageSize := by
    rw [granularityOf, granularityOf, computeSharedBitWidth_counted some]
  have counted : 1 ≤ (UInt32.ofNat entries.length).toNat := by
    rw [← countedEntries_length]
    exact List.length_pos_iff.2 some
  obtain ⟨least, -⟩ := granularityOf_spec entries fixedPackedSize pageSize
  have blocks : numBlocksOf entries (granularityOf entries fixedPackedSize pageSize) = 0 := by
    rw [← UInt32.toNat_inj, numBlocksOf, numBlocks_toNat counted least,
      ← countedEntries_length, if_neg (by rwa [granularity])]
    rfl
  rw [encodeColumn_eq nonempty, blocks] at encoded
  rw [← Except.ok.inj encoded]
  refine ⟨rfl, blocks, fun zero => ?_⟩
  rw [show UInt32.ofNat entries.length = 0 from zero] at counted
  exact absurd counted (by decide)

end Counted

/-! ## The refinement -/

section Refinement

variable {build : Build} {entries : List AddressEntry} {fixedPackedSize pageSize : UInt32}
  {column : EncodedAddressColumn}

/-- The record count of block `b`. -/
theorem Covers.recordCount {layout : AddressColumnLayout} {blocks : List AddressBlock}
    {totalRecords : UInt32} (covers : Covers layout blocks totalRecords) {b : ℕ}
    (below : b < layout.numAddressBlocks.toNat) :
    (blockRecordCount layout totalRecords (UInt32.ofNat b)).toNat =
      countOf layout totalRecords b := by
  have before := covers.before
  have upto := covers.upto
  have small := layout.numAddressBlocks.toNat_lt
  have index : (UInt32.ofNat b).toNat = b := by
    rw [UInt32.toNat_ofNat', Nat.mod_eq_of_lt (by omega)]
  have row : layout.numAddressBlocks.toNat * layout.blockGranularity.toNat =
      (layout.numAddressBlocks.toNat - 1) * layout.blockGranularity.toNat +
        layout.blockGranularity.toNat := by
    rw [← Nat.succ_mul]
    congr 1
    omega
  by_cases last : b + 1 < layout.numAddressBlocks.toNat
  · have next : (UInt32.ofNat b + 1).toNat = b + 1 := by
      rw [UInt32.toNat_add, index]
      exact Nat.mod_eq_of_lt (by simp only [UInt32.reduceToNat]; omega)
    have rows := Nat.mul_le_mul_right layout.blockGranularity.toNat
      (show b + 1 ≤ layout.numAddressBlocks.toNat - 1 by omega)
    rw [Nat.add_mul, Nat.one_mul] at rows
    unfold blockRecordCount
    rw [if_neg (by rw [UInt32.le_iff_toNat_le, index]; omega),
      if_neg (by intro none; rw [none] at last; exact absurd last (by simp)),
      if_pos (by rw [UInt32.lt_iff_toNat_lt, next]; exact last), countOf]
    omega
  · obtain rfl : b = layout.numAddressBlocks.toNat - 1 := by omega
    have same : UInt32.ofNat (layout.numAddressBlocks.toNat - 1) =
        layout.numAddressBlocks - 1 := by
      rw [← UInt32.toNat_inj, index, covers.pred_toNat]
    rw [same, covers.tailCount, countOf]
    omega

/-- One by one the blocks decode to their entries in order. -/
theorem EncodedAs.decodeEach (as : EncodedAs entries fixedPackedSize pageSize column)
    (blocks : entries.length + (granularityOf entries fixedPackedSize pageSize).toNat ≤ 2 ^ 32) :
    decodeEachBlock build column =
      .ok (decodedBlocks column.layout column.blocks column.totalRecords
        column.layout.numAddressBlocks.toNat) := by
  obtain ⟨-, high⟩ := computeSharedBitWidth_spec entries pageSize
  rw [decodeEachBlock, as.covers.length, decodedBlocks]
  refine emitRange_ok fun b below => ?_
  have count := as.covers.recordCount below
  have held := as.holds b below
  have counts : countOf column.layout column.totalRecords b =
      blockCount entries column.layout.blockGranularity.toNat b := by
    rw [countOf, blockCount, as.total]
  rw [← as.granularity_eq] at blocks
  rw [decodeSingleBlock_eq build (by rw [as.bitWidth_eq]; exact high)
    (by rw [count, counts, blockCount]; omega) (by rwa [count, counts]), count]

/-- **Decoding in batches writes what decoding block after block writes, exactly where
nothing the batches count wraps.** -/
theorem decodeBatchBlocks_eq_each_iff (build : Build) (entries : List AddressEntry)
    (fixedPackedSize pageSize : UInt32) (column : EncodedAddressColumn)
    (encoded : encodeColumn entries fixedPackedSize pageSize = .ok column) :
    decodeBatchBlocks build column.layout column.blocks column.totalRecords =
        decodeEachBlock build column ↔
      BatchesFit entries fixedPackedSize pageSize := by
  by_cases none : countedEntries entries = []
  · obtain ⟨blocks, num, total⟩ := encodeColumn_uncounted none encoded
    refine iff_of_true ?_ ⟨?_, .inl ?_, ?_⟩
    · rw [decodeEachBlock, decodeBatchBlocks, blocks, num, total]
      rfl
    · have := (granularityOf (countedEntries entries) fixedPackedSize pageSize).toNat_lt
      rw [none] at this ⊢
      simp only [List.length_nil]
      omega
    · rw [none, regularOf_nil]
    · rw [none, regularOf_nil]
      decide
  · by_cases fits : (countedEntries entries).length +
        (granularityOf (countedEntries entries) fixedPackedSize pageSize).toNat ≤ 2 ^ 32
    · rw [encodeColumn_counted none fits] at encoded
      obtain ⟨column', encoded', as⟩ := encodeColumn_spec none (countedEntries_lt entries) fits
      obtain rfl := Except.ok.inj (encoded.symm.trans encoded')
      obtain ⟨-, high⟩ := computeSharedBitWidth_spec (countedEntries entries) pageSize
      rw [as.decodeEach fits]
      constructor
      · intro decoded
        obtain ⟨streams, batches⟩ := as.covers.bounds_of_ok build decoded
        rw [as.regular, as.granularity_eq] at streams
        rw [as.regular] at batches
        exact ⟨fits, streams, batches⟩
      · intro fit
        have streams := fit.streams
        rw [← as.regular, ← as.granularity_eq] at streams
        have batches := fit.batches
        rw [← as.regular] at batches
        refine as.covers.decode_eq build (by rw [as.bitWidth_eq]; exact high) streams batches
          (by rw [as.total, as.granularity_eq]; exact fits) fun b below => ?_
        rw [countOf, as.total]
        exact as.holds b below
    · obtain ⟨blocks, num, total⟩ := encodeColumn_lost none fits encoded
      refine iff_of_false (fun same => ?_) fun fit => fits fit.blocks
      have each : decodeEachBlock build column = .ok [] := by
        rw [decodeEachBlock, blocks]
        rfl
      rw [each] at same
      exact decodeBatchBlocks_none num total [] same

/-- The law on three records in blocks of two. -/
theorem decodeBatchBlocks_eq_each_iff_three_records :
    ∃ column, encodeColumn [⟨0, 4096⟩, ⟨4096, 8192⟩, ⟨12288, 4096⟩] 1 1024 = .ok column ∧
      (decodeBatchBlocks .avx2 column.layout column.blocks column.totalRecords =
          decodeEachBlock .avx2 column ↔
        BatchesFit [⟨0, 4096⟩, ⟨4096, 8192⟩, ⟨12288, 4096⟩] 1 1024) := by
  obtain ⟨column, encoded, -⟩ := @encodeColumn_spec
    [⟨0, 4096⟩, ⟨4096, 8192⟩, ⟨12288, 4096⟩] 1 1024 (by decide) (by decide) (by decide)
  exact ⟨column, encoded, decodeBatchBlocks_eq_each_iff .avx2 _ 1 1024 column encoded⟩

/-- Blocks of `2 ^ 29 - 1` bytes hold 4294967288 fields of one bit: with nine records the
block count wraps to zero, and the batched decoder reports a corruption where there is no
block to decode. -/
theorem nine_records_lose_their_blocks :
    ∃ column, encodeColumn (List.replicate 9 ⟨0, 1⟩) 536870911 1 = .ok column ∧
      ∀ build, decodeEachBlock build column = .ok [] ∧
        decodeBatchBlocks build column.layout column.blocks column.totalRecords =
          Status.corruption "Zero blocks with non-zero total_records" := by
  refine ⟨columnOf (List.replicate 9 ⟨0, 1⟩) 536870911 1 [], ?_, fun build => ⟨rfl, ?_⟩⟩
  · rw [encodeColumn_eq (by decide), show numBlocksOf (List.replicate 9 (⟨0, 1⟩ : AddressEntry))
      (granularityOf (List.replicate 9 ⟨0, 1⟩) 536870911 1) = 0 by decide]
    rfl
  · rw [decodeBatchBlocks, show (columnOf (List.replicate 9 ⟨0, 1⟩) 536870911 1
      []).layout.numAddressBlocks = 0 by decide]
    rfl

end Refinement

end VecFetch.Storage
