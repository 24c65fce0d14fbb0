/-
# Storage.AddressLayout -- the sizes and counts a layout gives back

A column's layout is stored once; the size and the record count of each block are computed
from it when the column is read.  `LayoutConsistent` says that they are those of the blocks
`Encode` cut, and that each block's bits are its values'; `layout_consistent_iff` says for
which entries and packed sizes.
-/
import VecFetch.Storage.AddressBatch

namespace VecFetch.Storage

open VecFetch.Theory VecFetch.Simd VecFetch.Codec VecFetch.Query

set_option autoImplicit false

/-- `AddressColumn::BlockPackedSize`. -/
def blockPackedSize (layout : AddressColumnLayout) (blockIdx : UInt32) : UInt32 :=
  if layout.numAddressBlocks ≤ blockIdx then 0
  else if layout.numAddressBlocks = 0 then 0
  else if blockIdx + 1 < layout.numAddressBlocks then layout.fixedPackedSize
  else layout.lastPackedSize

theorem blockPackedSize_eq {layout : AddressColumnLayout} {b : ℕ}
    (below : b < layout.numAddressBlocks.toNat) :
    blockPackedSize layout (UInt32.ofNat b) =
      if b + 1 < layout.numAddressBlocks.toNat then layout.fixedPackedSize
      else layout.lastPackedSize := by
  have numSmall := layout.numAddressBlocks.toNat_lt
  have index : (UInt32.ofNat b).toNat = b := by
    rw [UInt32.toNat_ofNat', Nat.mod_eq_of_lt (by omega)]
  have next : (UInt32.ofNat b + 1).toNat = (b + 1) % 2 ^ 32 := by
    rw [UInt32.toNat_add, index]
    rfl
  unfold blockPackedSize
  rw [if_neg (by rw [UInt32.le_iff_toNat_le, index]; omega),
    if_neg (by intro zero; rw [zero] at below; simp at below)]
  by_cases regular : b + 1 < layout.numAddressBlocks.toNat
  · rw [if_pos (by rw [UInt32.lt_iff_toNat_lt, next]; omega), if_pos regular]
  · rw [if_neg (by rw [UInt32.lt_iff_toNat_lt, next]; omega), if_neg regular]

/-- Block `b` of a column. -/
def blockOf (column : EncodedAddressColumn) (b : ℕ) : AddressBlock :=
  column.blocks.getD b ⟨0, .zeros 0⟩

/-- The value packed for entry `i` of block `b`. -/
def blockValue (entries : List AddressEntry) (pageSize : UInt32) (granularity b i : ℕ) : UInt32 :=
  pageCount pageSize (blockEntry entries granularity b i).size

/-- A block's bits are its values, one after another. -/
def HoldsValues (bitWidth count : ℕ) (value : ℕ → UInt32) (packed : Buffer) : Prop :=
  ∀ i, i < count → (value i).toNat < 2 ^ bitWidth ∧ ∀ c, c < bitWidth →
    i * bitWidth + c < 8 * packed.size ∧
      packed.bit (i * bitWidth + c) = (value i).toNat.testBit c

/-- What is computed from a column's layout is so of its blocks. -/
structure LayoutConsistent (entries : List AddressEntry) (pageSize : UInt32)
    (column : EncodedAddressColumn) : Prop where
  sizes : ∀ b, b < column.blocks.length →
    (blockOf column b).packed.size = (blockPackedSize column.layout (UInt32.ofNat b)).toNat
  records : ((List.range column.blocks.length).map fun b =>
    (blockRecordCount column.layout column.totalRecords (UInt32.ofNat b)).toNat).sum =
      entries.length
  values : ∀ b, b < column.blocks.length →
    HoldsValues column.layout.bitWidth.toNat
      (blockRecordCount column.layout column.totalRecords (UInt32.ofNat b)).toNat
      (blockValue entries pageSize column.layout.blockGranularity.toNat b) (blockOf column b).packed

/-- No value has a set bit at a position from `2 ^ 32` on inside its block. -/
def NoBitWraps (entries : List AddressEntry) (pageSize : UInt32) (granularity bitWidth : ℕ) :
    Prop :=
  ∀ b i, i < blockCount entries granularity b → ∀ c, c < bitWidth →
    2 ^ 32 ≤ i * bitWidth + c →
      (blockValue entries pageSize granularity b i).toNat.testBit c = false

/-- The block count does not wrap, a block of one value fits the packed size, and no set bit
lies past the positions a `uint32_t` counts. -/
structure LayoutFits (entries : List AddressEntry) (fixedPackedSize pageSize : UInt32) :
    Prop where
  blocks : entries.length + (granularityOf entries fixedPackedSize pageSize).toNat ≤ 2 ^ 32
  sizes : entries.length ≤ (granularityOf entries fixedPackedSize pageSize).toNat ∨
    (computeSharedBitWidth entries pageSize).toNat ≤
      8 * (effectivePackedSize fixedPackedSize).toNat
  bits : NoBitWraps entries pageSize (granularityOf entries fixedPackedSize pageSize).toNat
    (computeSharedBitWidth entries pageSize).toNat

/-! ## One block -/

theorem padTo_size (size : ℕ) (b : Buffer) : (padTo size b).size = max size b.size := by
  unfold padTo
  split
  · next less => exact (Nat.max_eq_left (Nat.le_of_lt less)).symm
  · next notLess => exact (Nat.max_eq_right (Nat.not_lt.1 notLess)).symm

/-- The size and the bits of an encoded block. -/
theorem encodeSingleBlock_bits {entries : List AddressEntry} {pageSize paddedSize : UInt32}
    {bitWidth : UInt8} (count : entries.length < 2 ^ 32)
    (fits : entries.length * bitWidth.toNat + 7 < 2 ^ 35) :
    ∃ block, encodeSingleBlock entries pageSize bitWidth paddedSize = .ok block ∧
      block.packed.size =
        max paddedSize.toNat ((entries.length * bitWidth.toNat + 7) / 8) ∧
      ∀ m, m < entries.length * bitWidth.toNat → (block.packed.bit m = true ↔
        ∃ i, i < entries.length ∧ ∃ c, c < bitWidth.toNat ∧ place bitWidth.toNat i c = m ∧
          (pageCount pageSize (entries.getD i ⟨0, 0⟩).size).toNat.testBit c = true) := by
  obtain ⟨packed, encoded, size, bits⟩ := @encode_spec
    (entries.map fun entry => pageCount pageSize entry.size) bitWidth (by simpa using count)
    (by simpa using fits)
  rw [List.length_map] at size bits
  refine ⟨_, by rw [encodeSingleBlock, encoded]; rfl, by rw [padTo_size, size], fun m used => ?_⟩
  dsimp only
  rw [padTo_bit (by omega), bits]
  refine exists_congr fun i => and_congr_right fun inBlock => ?_
  have entry : (entries.map fun entry => pageCount pageSize entry.size).getD i 0 =
      pageCount pageSize (entries.getD i ⟨0, 0⟩).size := by
    simp [List.getD, inBlock]
  rw [entry]

/-- Bits or-ed in at positions modulo `2 ^ 32` are the values one after another exactly when no
set bit wraps. -/
theorem holdsValues_iff {bitWidth count : ℕ} {value : ℕ → UInt32} {packed : Buffer}
    (room : count * bitWidth ≤ 8 * packed.size)
    (narrow : ∀ i, i < count → (value i).toNat < 2 ^ bitWidth)
    (bits : ∀ m, m < count * bitWidth → (packed.bit m = true ↔ ∃ i, i < count ∧ ∃ c,
      c < bitWidth ∧ place bitWidth i c = m ∧ (value i).toNat.testBit c = true)) :
    HoldsValues bitWidth count value packed ↔
      ∀ i, i < count → ∀ c, c < bitWidth → 2 ^ 32 ≤ i * bitWidth + c →
        (value i).toNat.testBit c = false := by
  have inBlock : ∀ i, i < count → ∀ c, c < bitWidth → i * bitWidth + c < count * bitWidth := by
    intro i below c width
    have row : (i + 1) * bitWidth ≤ count * bitWidth := Nat.mul_le_mul_right _ below
    rw [Nat.add_mul, Nat.one_mul] at row
    omega
  constructor
  · intro held i below c width past
    rw [← ((held i below).2 c width).2, Bool.eq_false_iff]
    intro set
    obtain ⟨j, _, d, _, same, _⟩ := (bits _ (inBlock i below c width)).1 set
    have counted : place bitWidth j d < 2 ^ 32 := Nat.mod_lt _ (by omega)
    omega
  · intro clear i below
    refine ⟨narrow i below, fun c width => ?_⟩
    have used := inBlock i below c width
    refine ⟨by omega, ?_⟩
    rw [Bool.eq_iff_iff, bits _ used]
    constructor
    · rintro ⟨j, inList, d, inField, same, set⟩
      have straight : j * bitWidth + d < 2 ^ 32 := by
        by_contra past
        rw [clear j inList d inField (by omega)] at set
        cases set
      rw [place, Nat.mod_eq_of_lt straight] at same
      obtain ⟨rfl, rfl⟩ := row_unique width inField same
      exact set
    · intro set
      have straight : i * bitWidth + c < 2 ^ 32 := by
        by_contra past
        rw [clear i below c width (by omega)] at set
        cases set
      exact ⟨i, below, c, width, Nat.mod_eq_of_lt straight, set⟩

/-! ## All blocks -/

section Blocks

variable {entries : List AddressEntry} {fixedPackedSize pageSize : UInt32}

/-- The size and the bits of block `b`. -/
theorem Cut.encodeBlock_bits {granularity : UInt32} {bitWidth : UInt8}
    (cut : Cut entries granularity) (fits : granularity.toNat * bitWidth.toNat + 7 < 2 ^ 35)
    (pageSize fixedPackedSize : UInt32) {b : ℕ}
    (below : b < (numBlocksOf entries granularity).toNat) :
    ∃ block, encodeBlock entries pageSize bitWidth granularity fixedPackedSize
        (numBlocksOf entries granularity) b = .ok block ∧
      block.packed.size =
        max (if b + 1 = (numBlocksOf entries granularity).toNat then 0 else fixedPackedSize).toNat
          ((blockCount entries granularity.toNat b * bitWidth.toNat + 7) / 8) ∧
      ∀ m, m < blockCount entries granularity.toNat b * bitWidth.toNat →
        (block.packed.bit m = true ↔ ∃ i, i < blockCount entries granularity.toNat b ∧
          ∃ c, c < bitWidth.toNat ∧ place bitWidth.toNat i c = m ∧
            (blockValue entries pageSize granularity.toNat b i).toNat.testBit c = true) := by
  have inGranularity : blockCount entries granularity.toNat b ≤ granularity.toNat :=
    Nat.min_le_left _ _
  have used := Nat.mul_le_mul_right bitWidth.toNat inGranularity
  have granularityLt := granularity.toNat_lt
  obtain ⟨block, encoded, size, bits⟩ := @encodeSingleBlock_bits
    (blockEntries entries granularity.toNat b) pageSize
    (if b + 1 = (numBlocksOf entries granularity).toNat then 0 else fixedPackedSize) bitWidth
    (by rw [blockEntries_length]; omega) (by rw [blockEntries_length]; omega)
  rw [blockEntries_length] at size bits
  refine ⟨block, ?_, size, fun m inside => ?_⟩
  · rw [encodeBlock, (cut.start below).1, cut.count below]
    exact encoded
  · rw [bits m inside]
    refine exists_congr fun i => and_congr_right fun inBlock => ?_
    rw [blockEntries_getD inBlock, blockValue]

/-- The column of blocks each encoded. -/
theorem encodeColumn_of_blocks (nonempty : entries ≠ []) {block : ℕ → AddressBlock}
    (encoded : ∀ b, b < (numBlocksOf entries
        (granularityOf entries fixedPackedSize pageSize)).toNat →
      encodeBlock entries pageSize (computeSharedBitWidth entries pageSize)
        (granularityOf entries fixedPackedSize pageSize) (effectivePackedSize fixedPackedSize)
        (numBlocksOf entries (granularityOf entries fixedPackedSize pageSize)) b =
          .ok (block b)) :
    encodeColumn entries fixedPackedSize pageSize =
      .ok (columnOf entries fixedPackedSize pageSize ((List.range (numBlocksOf entries
        (granularityOf entries fixedPackedSize pageSize)).toNat).map block)) := by
  rw [encodeColumn_eq nonempty, @emitRange_ok _ _ _ _ fun b => [block b]]
  · rw [List.map_eq_flatMap]
    rfl
  · intro b below
    rw [encoded b below]
    rfl

/-- Blocks that cover the records count them all. -/
theorem Covers.sum_counts {layout : AddressColumnLayout} {blocks : List AddressBlock}
    {totalRecords : UInt32} (covers : Covers layout blocks totalRecords) :
    ((List.range blocks.length).map fun b =>
      (blockRecordCount layout totalRecords (UInt32.ofNat b)).toNat).sum = totalRecords.toNat := by
  have upTo : ∀ n, n ≤ layout.numAddressBlocks.toNat →
      ((List.range n).map fun b =>
        (blockRecordCount layout totalRecords (UInt32.ofNat b)).toNat).sum =
          min (n * layout.blockGranularity.toNat) totalRecords.toNat := by
    intro n
    induction n with
    | zero => simp
    | succ n ih =>
        intro inside
        rw [List.range_succ, List.map_append, List.sum_append, ih (by omega)]
        simp only [List.map_cons, List.map_nil, List.sum_cons, List.sum_nil, Nat.add_zero]
        rw [covers.recordCount (by omega), countOf, Nat.add_mul, Nat.one_mul]
        omega
  rw [covers.length, upTo _ (Nat.le_refl _)]
  exact Nat.min_eq_right covers.upto

/-- The size a block of values takes is the fixed one, or one value is too wide for it. -/
theorem regularSize_iff (entries : List AddressEntry) (fixedPackedSize pageSize : UInt32) :
    max (effectivePackedSize fixedPackedSize).toNat
        (((granularityOf entries fixedPackedSize pageSize).toNat *
          (computeSharedBitWidth entries pageSize).toNat + 7) / 8) =
        (effectivePackedSize fixedPackedSize).toNat ↔
      (computeSharedBitWidth entries pageSize).toNat ≤
        8 * (effectivePackedSize fixedPackedSize).toNat := by
  obtain ⟨low, high⟩ := computeSharedBitWidth_spec entries pageSize
  obtain ⟨least, -⟩ := granularityOf_spec entries fixedPackedSize pageSize
  constructor
  · intro padded
    have row := Nat.mul_le_mul_right (computeSharedBitWidth entries pageSize).toNat least
    omega
  · intro wide
    have small := (effectivePackedSize fixedPackedSize).toNat_lt
    have given : effectivePackedSize fixedPackedSize ≠ 0 := by
      intro zero
      rw [zero] at wide
      simp only [UInt32.reduceToNat] at wide
      omega
    have bits : (granularityOf entries fixedPackedSize pageSize).toNat *
        (computeSharedBitWidth entries pageSize).toNat ≤
          8 * (effectivePackedSize fixedPackedSize).toNat := by
      have some : computeSharedBitWidth entries pageSize ≠ 0 := by
        intro zero
        rw [zero] at low
        exact absurd low (by decide)
      unfold granularityOf computeBlockGranularity
      rw [if_neg given, if_neg some]
      dsimp only
      split
      · simpa using wide
      · rw [UInt64.toNat_toUInt32, UInt64.toNat_div, UInt64.toNat_mul, UInt32.toNat_toUInt64,
          UInt8.toNat_toUInt64]
        simp only [UInt64.reduceToNat]
        rw [Nat.mod_eq_of_lt (show _ * 8 < _ by omega)]
        refine Nat.le_trans (Nat.mul_le_mul_right _ (Nat.mod_le _ _)) ?_
        rw [Nat.mul_comm 8]
        exact Nat.div_mul_le_self _ _
    omega

end Blocks

/-! ## The column -/

section Column

variable {entries : List AddressEntry} {fixedPackedSize pageSize : UInt32}
  {column : EncodedAddressColumn}

theorem EncodedAs.recordCount (as : EncodedAs entries fixedPackedSize pageSize column) {b : ℕ}
    (below : b < column.layout.numAddressBlocks.toNat) :
    (blockRecordCount column.layout column.totalRecords (UInt32.ofNat b)).toNat =
      blockCount entries column.layout.blockGranularity.toNat b := by
  rw [as.covers.recordCount below, countOf, blockCount, as.total]

/-- The sizes of the layout. -/
theorem EncodedAs.packedSize (as : EncodedAs entries fixedPackedSize pageSize column) {b : ℕ}
    (below : b < column.layout.numAddressBlocks.toNat) :
    (blockPackedSize column.layout (UInt32.ofNat b)).toNat =
      if b + 1 < column.layout.numAddressBlocks.toNat then
        (effectivePackedSize fixedPackedSize).toNat
      else (blockCount entries column.layout.blockGranularity.toNat b *
        column.layout.bitWidth.toNat + 7) / 8 := by
  rw [blockPackedSize_eq below]
  by_cases regular : b + 1 < column.layout.numAddressBlocks.toNat
  · rw [if_pos regular, if_pos regular, as.fixed_eq]
  · obtain rfl : b = column.layout.numAddressBlocks.toNat - 1 := by omega
    rw [if_neg regular, if_neg regular, as.last]

/-- The bytes of a block, where all blocks but the last are full. -/
theorem Cut.paddedSize {granularity : UInt32} (cut : Cut entries granularity) (bitWidth : UInt8)
    (fixedPackedSize : UInt32) {b : ℕ} (below : b < (numBlocksOf entries granularity).toNat) :
    max (if b + 1 = (numBlocksOf entries granularity).toNat then 0 else fixedPackedSize).toNat
        ((blockCount entries granularity.toNat b * bitWidth.toNat + 7) / 8) =
      if b + 1 < (numBlocksOf entries granularity).toNat then
        max fixedPackedSize.toNat ((granularity.toNat * bitWidth.toNat + 7) / 8)
      else (blockCount entries granularity.toNat b * bitWidth.toNat + 7) / 8 := by
  by_cases regular : b + 1 < (numBlocksOf entries granularity).toNat
  · have full : blockCount entries granularity.toNat b = granularity.toNat := by
      have last := (cut.start regular).2
      rw [Nat.add_mul, Nat.one_mul] at last
      rw [blockCount]
      omega
    rw [if_pos regular, if_neg (by omega), full]
  · rw [if_neg regular, if_pos (by omega)]
    exact Nat.max_eq_right (Nat.zero_le _)

theorem blockValue_lt_width (count : entries.length < 2 ^ 32) {granularity b i : ℕ}
    (inBlock : i < blockCount entries granularity b) :
    (blockValue entries pageSize granularity b i).toNat <
      2 ^ (computeSharedBitWidth entries pageSize).toNat := by
  rw [blockCount] at inBlock
  have inside : b * granularity + i < entries.length := by omega
  refine pageCount_lt_width count ?_
  rw [blockEntry, List.getD_eq_getElem _ _ inside]
  exact List.getElem_mem _

/-- A column whose block count does not wrap is consistent exactly when its regular blocks have
their size and no set bit wraps. -/
theorem encodeColumn_consistent (nonempty : entries ≠ []) (count : entries.length < 2 ^ 32)
    (blocks : entries.length + (granularityOf entries fixedPackedSize pageSize).toNat ≤ 2 ^ 32) :
    ∃ column, encodeColumn entries fixedPackedSize pageSize = .ok column ∧
      (LayoutConsistent entries pageSize column ↔ LayoutFits entries fixedPackedSize pageSize) := by
  obtain ⟨column, encoded, as⟩ := @encodeColumn_spec entries fixedPackedSize pageSize nonempty count
    blocks
  refine ⟨column, encoded, ?_⟩
  obtain ⟨least, -⟩ := granularityOf_spec entries fixedPackedSize pageSize
  have fits := granularityOf_bits entries fixedPackedSize pageSize
  have cut := cut_of_fits nonempty count least blocks
  have inhabited : Nonempty AddressBlock := ⟨⟨0, .zeros 0⟩⟩
  choose! block each size bits using fun b (below : b < (numBlocksOf entries
      (granularityOf entries fixedPackedSize pageSize)).toNat) =>
    @Cut.encodeBlock_bits entries (granularityOf entries fixedPackedSize pageSize)
      (computeSharedBitWidth entries pageSize) cut fits pageSize
      (effectivePackedSize fixedPackedSize) b below
  have whole := encodeColumn_of_blocks nonempty each
  rw [encoded] at whole
  have same := Except.ok.inj whole
  set n := (numBlocksOf entries (granularityOf entries fixedPackedSize pageSize)).toNat with nDef
  set granularity := granularityOf entries fixedPackedSize pageSize with granularityDef
  have some : 1 ≤ n := cut.some
  have blockAt : ∀ b, b < n → blockOf column b = block b := by
    intro b below
    rw [same]
    simp [blockOf, columnOf, List.getD, below]
  have length : column.blocks.length = n := by
    rw [same]
    simp [columnOf]
  have numBlocks : column.layout.numAddressBlocks.toNat = n := by rw [same]; rfl
  have bitWidth := as.bitWidth_eq
  have granularity_eq := as.granularity_eq
  rw [← granularityDef] at granularity_eq
  have counts : ∀ b, b < n →
      (blockRecordCount column.layout column.totalRecords (UInt32.ofNat b)).toNat =
        blockCount entries granularity.toNat b := by
    intro b below
    rw [as.recordCount (by omega), granularity_eq]
  have records := as.covers.sum_counts
  rw [as.total] at records
  have packedSize : ∀ b, b < n → (blockPackedSize column.layout (UInt32.ofNat b)).toNat =
      if b + 1 < n then (effectivePackedSize fixedPackedSize).toNat else
        (blockCount entries granularity.toNat b *
          (computeSharedBitWidth entries pageSize).toNat + 7) / 8 := by
    intro b below
    rw [as.packedSize (by omega), numBlocks, granularity_eq, bitWidth]
  have stored : ∀ b, b < n → (block b).packed.size =
      if b + 1 < n then max (effectivePackedSize fixedPackedSize).toNat
        ((granularity.toNat * (computeSharedBitWidth entries pageSize).toNat + 7) / 8) else
        (blockCount entries granularity.toNat b *
          (computeSharedBitWidth entries pageSize).toNat + 7) / 8 := by
    intro b below
    rw [size b below, cut.paddedSize _ _ below]
  have room : ∀ b, b < n → blockCount entries granularity.toNat b *
      (computeSharedBitWidth entries pageSize).toNat ≤ 8 * (block b).packed.size := by
    intro b below
    rw [size b below]
    omega
  have held : ∀ b, b < n →
      (HoldsValues (computeSharedBitWidth entries pageSize).toNat
        (blockCount entries granularity.toNat b) (blockValue entries pageSize granularity.toNat b)
        (block b).packed ↔ _) :=
    fun b below =>
      holdsValues_iff (room b below) (fun _ => blockValue_lt_width count) (bits b below)
  constructor
  · intro consistent
    refine ⟨blocks, ?_, fun b i inBlock => ?_⟩
    · by_cases single : entries.length ≤ granularity.toNat
      · exact .inl single
      · have first : 0 + 1 < n := by
          by_contra one
          have upto := cut.upto
          rw [← nDef, show n = 1 by omega, Nat.one_mul] at upto
          exact single upto
        have here := consistent.sizes 0 (by omega)
        rw [blockAt 0 (by omega), packedSize 0 (by omega), stored 0 (by omega), if_pos first,
          if_pos first] at here
        exact .inr ((regularSize_iff entries fixedPackedSize pageSize).1 here)
    · have below : b < n := by
        by_contra past
        have upto := cut.upto
        have row := Nat.mul_le_mul_right granularity.toNat (Nat.not_lt.1 past)
        rw [← nDef] at upto
        rw [← granularityDef, blockCount] at inBlock
        omega
      have values := consistent.values b (by omega)
      rw [counts b below, bitWidth, granularity_eq, blockAt b below] at values
      exact (held b below).1 values i inBlock
  · intro fit
    refine ⟨fun b below => ?_, records, fun b below => ?_⟩
    · rw [length] at below
      rw [blockAt b below, packedSize b below, stored b below]
      by_cases regular : b + 1 < n
      · rw [if_pos regular, if_pos regular]
        refine (regularSize_iff entries fixedPackedSize pageSize).2 (fit.sizes.resolve_left ?_)
        have second := (cut.start (show b + 1 < _ from regular)).2
        rw [Nat.add_mul, Nat.one_mul] at second
        rw [← granularityDef]
        omega
      · rw [if_neg regular, if_neg regular]
    · rw [length] at below
      rw [counts b below, bitWidth, granularity_eq, blockAt b below]
      exact (held b below).2 fun i inBlock => fit.bits b i inBlock

/-- Entries whose block count wraps, or more than a `uint32_t` counts, are not all counted. -/
theorem consistent_counts {column : EncodedAddressColumn}
    (encoded : encodeColumn entries fixedPackedSize pageSize = .ok column)
    (consistent : LayoutConsistent entries pageSize column) (nonempty : entries ≠ []) :
    entries.length < 2 ^ 32 ∧
      entries.length + (granularityOf entries fixedPackedSize pageSize).toNat ≤ 2 ^ 32 := by
  have positive : 0 < entries.length := List.length_pos_iff.2 nonempty
  have records := consistent.records
  have lost : column.blocks ≠ [] := by
    intro none
    rw [none] at records
    simp at records
    omega
  by_cases uncounted : countedEntries entries = []
  · exact absurd (encodeColumn_uncounted uncounted encoded).1 lost
  · by_cases fits : (countedEntries entries).length +
        (granularityOf (countedEntries entries) fixedPackedSize pageSize).toNat ≤ 2 ^ 32
    · rw [encodeColumn_counted uncounted fits] at encoded
      obtain ⟨column', encoded', as⟩ := encodeColumn_spec uncounted (countedEntries_lt entries) fits
      obtain rfl := Except.ok.inj (encoded.symm.trans encoded')
      rw [as.covers.sum_counts, as.total] at records
      have small := countedEntries_lt entries
      have all : countedEntries entries = entries := by
        rw [countedEntries]
        refine List.take_of_length_le ?_
        rw [← countedEntries_length]
        omega
      rw [all] at fits small
      exact ⟨small, fits⟩
    · exact absurd (encodeColumn_lost uncounted fits encoded).1 lost

end Column

/-- **A column's layout agrees with its blocks exactly where its counts fit, a value fits a
block, and no set bit wraps.** -/
theorem layout_consistent_iff (entries : List AddressEntry) (fixedPackedSize pageSize : UInt32)
    (_pages : 1 ≤ pageSize.toNat) :
    (∃ column, encodeColumn entries fixedPackedSize pageSize = .ok column ∧
      LayoutConsistent entries pageSize column) ↔
      entries = [] ∨ LayoutFits entries fixedPackedSize pageSize := by
  by_cases empty : entries = []
  · refine iff_of_true ⟨_, by rw [empty]; rfl, ⟨fun b below => ?_, ?_, fun b below => ?_⟩⟩
      (.inl empty)
    · exact absurd below (Nat.not_lt_zero b)
    · rw [empty]
      rfl
    · exact absurd below (Nat.not_lt_zero b)
  · constructor
    · rintro ⟨column, encoded, consistent⟩
      obtain ⟨count, blocks⟩ := consistent_counts encoded consistent empty
      obtain ⟨column', encoded', exact_⟩ := encodeColumn_consistent empty count blocks
      obtain rfl := Except.ok.inj (encoded.symm.trans encoded')
      exact .inr (exact_.1 consistent)
    · rintro (none | fits)
      · exact absurd none empty
      · obtain ⟨least, -⟩ := granularityOf_spec entries fixedPackedSize pageSize
        have blocks := fits.blocks
        obtain ⟨column, encoded, exact_⟩ := encodeColumn_consistent empty (by omega) blocks
        exact ⟨column, encoded, exact_.2 fits⟩

/-- The law on three records in blocks of two. -/
theorem layout_consistent_iff_three_records :
    (∃ column, encodeColumn [⟨0, 4096⟩, ⟨4096, 8192⟩, ⟨12288, 4096⟩] 1 1024 = .ok column ∧
      LayoutConsistent [⟨0, 4096⟩, ⟨4096, 8192⟩, ⟨12288, 4096⟩] 1024 column) ↔
      ([⟨0, 4096⟩, ⟨4096, 8192⟩, ⟨12288, 4096⟩] : List AddressEntry) = [] ∨
        LayoutFits [⟨0, 4096⟩, ⟨4096, 8192⟩, ⟨12288, 4096⟩] 1 1024 :=
  layout_consistent_iff [⟨0, 4096⟩, ⟨4096, 8192⟩, ⟨12288, 4096⟩] 1 1024 (by decide)

/-- A value of nine bits takes two bytes, where the layout says that a regular block has one. -/
theorem wide_value_overflows_block :
    ¬ ∃ column, encodeColumn [⟨0, 256⟩, ⟨256, 1⟩] 1 1 = .ok column ∧
      LayoutConsistent [⟨0, 256⟩, ⟨256, 1⟩] 1 column := by
  rintro ⟨column, encoded, consistent⟩
  obtain ⟨column', encoded', exact_⟩ := @encodeColumn_consistent [⟨0, 256⟩, ⟨256, 1⟩] 1 1
    (by decide) (by decide) (by decide)
  obtain rfl := Except.ok.inj (encoded.symm.trans encoded')
  have sizes := (exact_.1 consistent).sizes
  revert sizes
  decide

end VecFetch.Storage
