/-
# Storage.AddressEncode -- what encoding an address column gives

A block gives its entries back exactly when the page counts read back are right
(`addresses_iff`).  `EncodedAs` says what `Encode` leaves in each block: the first page,
and for each field the or of everything written to its places.
-/
import VecFetch.Storage.AddressDecode
import Mathlib.Data.Nat.Prime.Basic

namespace VecFetch.Storage

open VecFetch.Theory VecFetch.Simd VecFetch.Codec VecFetch.Query

set_option autoImplicit false

/-! ## One block against its entries -/

section Block

variable {pageSize : UInt32} {entry : AddressEntry}

/-- A product of pages and page size that wraps past 64 bits is no aligned offset whose
page is below `2 ^ 32`. -/
theorem pages_of_wrapped {page offset pages : ℕ} (pos : 0 < page) (small : page < 2 ^ 32)
    (aligned : page ∣ offset) (bound : offset / page < 2 ^ 32) (few : pages < 2 ^ 33)
    (wrapped : pages * page % 2 ^ 64 = offset) : pages * page = offset := by
  obtain ⟨q, rfl⟩ := aligned
  rw [Nat.mul_div_cancel_left q pos] at bound
  have below : pages * page < 2 ^ 33 * 2 ^ 32 := Nat.mul_lt_mul_of_lt_of_lt few small
  by_cases inRange : pages * page < 2 ^ 64
  · rwa [Nat.mod_eq_of_lt inRange] at wrapped
  · -- then the page size divides `2 ^ 64`, and one of the two factors is too large
    have sum : pages * page = page * q + 2 ^ 64 := by omega
    have divides : page ∣ 2 ^ 64 := by
      rw [← Nat.dvd_add_right (Nat.dvd_mul_right page q), ← sum]
      exact Nat.dvd_mul_left page pages
    obtain ⟨k, atMost, power⟩ := (Nat.dvd_prime_pow Nat.prime_two).1 divides
    have exponent : k < 32 := by
      by_contra high
      have := Nat.pow_le_pow_right (show 0 < 2 by decide) (show 32 ≤ k by omega)
      omega
    have split : 2 ^ 64 = page * 2 ^ (64 - k) := by
      rw [power, ← Nat.pow_add]
      congr 1
      omega
    have cofactor : 2 ^ 33 ≤ 2 ^ (64 - k) :=
      Nat.pow_le_pow_right (by decide) (by omega)
    rw [split, ← Nat.mul_add, Nat.mul_comm pages] at sum
    have := Nat.eq_of_mul_eq_mul_left pos sum
    omega

theorem addressOf_eq_iff {base before pages : UInt32} (pos : 0 < pageSize.toNat)
    (aligned : pageSize.toNat ∣ entry.offset.toNat)
    (bound : entry.offset.toNat / pageSize.toNat < 2 ^ 32) :
    addressOf pageSize base before pages = entry ↔
      (base.toNat + before.toNat) * pageSize.toNat = entry.offset.toNat ∧
        pages.toNat * pageSize.toNat % 2 ^ 32 = entry.size.toNat := by
  have baseLt := base.toNat_lt
  have beforeLt := before.toNat_lt
  have pageLt := pageSize.toNat_lt
  have offset : ((base.toUInt64 + before.toUInt64) * pageSize.toUInt64).toNat =
      (base.toNat + before.toNat) * pageSize.toNat % 2 ^ 64 := by
    rw [UInt64.toNat_mul, UInt64.toNat_add, UInt32.toNat_toUInt64, UInt32.toNat_toUInt64,
      UInt32.toNat_toUInt64, Nat.mod_mul_mod]
  have size : (pages.toUInt64 * pageSize.toUInt64).toUInt32.toNat =
      pages.toNat * pageSize.toNat % 2 ^ 32 := by
    rw [UInt64.toNat_toUInt32, UInt64.toNat_mul, UInt32.toNat_toUInt64, UInt32.toNat_toUInt64]
    exact Nat.mod_mod_of_dvd _ (by decide)
  obtain ⟨entryOffset, entrySize⟩ := entry
  rw [addressOf, AddressEntry.mk.injEq, ← UInt64.toNat_inj, ← UInt32.toNat_inj, offset, size]
  constructor
  · intro ⟨wrapped, sizes⟩
    exact ⟨pages_of_wrapped pos pageLt aligned bound (by omega) wrapped, sizes⟩
  · intro ⟨exact_, sizes⟩
    refine ⟨?_, sizes⟩
    rw [exact_]
    exact Nat.mod_eq_of_lt entryOffset.toNat_lt

/-- The entries are on page boundaries, each starts where the one before ends, and their
pages have 32-bit numbers. -/
structure Paged (pageSize : UInt32) (count : ℕ) (entry : ℕ → AddressEntry) : Prop where
  offset_aligned : ∀ i, i < count → pageSize.toNat ∣ (entry i).offset.toNat
  size_aligned : ∀ i, i < count → pageSize.toNat ∣ (entry i).size.toNat
  contiguous : ∀ i, i + 1 < count →
    (entry (i + 1)).offset.toNat = (entry i).offset.toNat + (entry i).size.toNat
  pages : ∀ i, i < count → (entry i).offset.toNat / pageSize.toNat < 2 ^ 32

/-- The sizes read back: exact in pages, but for the last entry's only in bytes modulo
`2 ^ 32`. -/
def SizesKept (pageSize : UInt32) (count : ℕ) (entry : ℕ → AddressEntry) (pages : ℕ → ℕ) :
    Prop :=
  ∀ i, i < count → pages i * pageSize.toNat % 2 ^ 32 = (entry i).size.toNat ∧
    (i + 1 < count → pages i * pageSize.toNat = (entry i).size.toNat)

theorem sizesKept_congr {count : ℕ} {entry : ℕ → AddressEntry} {pages pages' : ℕ → ℕ}
    (same : ∀ i, i < count → pages i = pages' i) :
    SizesKept pageSize count entry pages ↔ SizesKept pageSize count entry pages' := by
  refine forall_congr' fun i => forall_congr' fun below => ?_
  rw [same i below]

theorem prefixSum_toNat_succ (v : ℕ → UInt32) (i : ℕ) :
    (prefixSum v (i + 1)).toNat = ((prefixSum v i).toNat + (v i).toNat) % 2 ^ 32 := by
  rw [prefixSum, UInt32.toNat_add]

/-- **A block gives its entries back exactly when its sizes are kept.** -/
theorem addresses_iff {count : ℕ} {entries : ℕ → AddressEntry} {base : UInt32} {v : ℕ → UInt32}
    (pos : 0 < pageSize.toNat) (paged : Paged pageSize count entries)
    (first : base.toNat = (entries 0).offset.toNat / pageSize.toNat) :
    (∀ i, i < count → addressOf pageSize base (prefixSum v i) (v i) = entries i) ↔
      SizesKept pageSize count entries fun i => (v i).toNat := by
  have each : ∀ i, i < count →
      (addressOf pageSize base (prefixSum v i) (v i) = entries i ↔
        (base.toNat + (prefixSum v i).toNat) * pageSize.toNat = (entries i).offset.toNat ∧
          (v i).toNat * pageSize.toNat % 2 ^ 32 = (entries i).size.toNat) := by
    intro i below
    exact addressOf_eq_iff pos (paged.offset_aligned i below) (paged.pages i below)
  constructor
  · intro same i below
    obtain ⟨here, size⟩ := (each i below).1 (same i below)
    refine ⟨size, fun more => ?_⟩
    obtain ⟨next, -⟩ := (each (i + 1) more).1 (same (i + 1) more)
    obtain ⟨k, pages⟩ := paged.size_aligned i below
    rw [paged.contiguous i more, pages, ← here, Nat.mul_comm pageSize.toNat, ← Nat.add_mul] at next
    have sum := Nat.eq_of_mul_eq_mul_right pos next
    have step := prefixSum_toNat_succ v i
    have small := (v i).toNat_lt
    have bound := (prefixSum v (i + 1)).toNat_lt
    rw [pages, Nat.mul_comm pageSize.toNat]
    congr 1
    dsimp only
    omega
  · intro kept
    have offsets : ∀ i, i < count →
        (base.toNat + (prefixSum v i).toNat) * pageSize.toNat = (entries i).offset.toNat := by
      intro i
      induction i with
      | zero =>
          intro below
          rw [prefixSum, first]
          exact Nat.div_mul_cancel (paged.offset_aligned 0 below)
      | succ i ih =>
          intro more
          have here := ih (by omega)
          have size := (kept i (by omega)).2 more
          have next := paged.contiguous i more
          dsimp only at size
          rw [← here, ← size, ← Nat.add_mul] at next
          have bound := paged.pages (i + 1) more
          rw [next, Nat.mul_div_cancel _ pos] at bound
          rw [next, prefixSum_toNat_succ, Nat.mod_eq_of_lt (by omega), Nat.add_assoc]
    intro i below
    exact (each i below).2 ⟨offsets i below, (kept i below).1⟩

end Block

/-! ## What the encoder gives -/

section Encoder

/-- Bit `b` of field `i` as it is read back: set if any field of the block wrote a set bit
to its place. -/
def sharedBit (pages : ℕ → UInt32) (count bitWidth i b : ℕ) : Bool :=
  decide (∃ j, j < count ∧ ∃ b', b' < bitWidth ∧
    place bitWidth j b' = place bitWidth i b ∧ (pages j).toNat.testBit b' = true)

/-- The page count read back for field `i`. -/
def keptPages (pages : ℕ → UInt32) (count bitWidth i : ℕ) : ℕ :=
  Nat.ofBits fun b : Fin bitWidth => sharedBit pages count bitWidth i b

/-- The packed size of a regular block; none given means the default. -/
def effectivePackedSize (fixedPackedSize : UInt32) : UInt32 :=
  if fixedPackedSize = 0 then kDefaultFixedPackedSize else fixedPackedSize

/-- The records of a regular block. -/
def granularityOf (entries : List AddressEntry) (fixedPackedSize pageSize : UInt32) : UInt32 :=
  computeBlockGranularity (effectivePackedSize fixedPackedSize)
    (computeSharedBitWidth entries pageSize)

theorem computeSharedBitWidth_spec (entries : List AddressEntry) (pageSize : UInt32) :
    1 ≤ (computeSharedBitWidth entries pageSize).toNat ∧
      (computeSharedBitWidth entries pageSize).toNat ≤ 32 := by
  unfold computeSharedBitWidth
  split
  · decide
  · dsimp only
    split
    · decide
    · obtain ⟨low, high, -⟩ := computeMinBitWidth_spec
        ((entries.map fun entry => pageCount pageSize entry.size).take
          (UInt32.ofNat (entries.map fun entry => pageCount pageSize entry.size).length).toNat)
      exact ⟨low, high⟩

theorem computeBlockGranularity_spec {fixedPackedSize : UInt32} {bitWidth : UInt8}
    (given : fixedPackedSize ≠ 0) (low : 1 ≤ bitWidth.toNat) (high : bitWidth.toNat ≤ 32) :
    1 ≤ (computeBlockGranularity fixedPackedSize bitWidth).toNat ∧
      (computeBlockGranularity fixedPackedSize bitWidth).toNat * bitWidth.toNat ≤
        max (fixedPackedSize.toNat * 8) 32 := by
  have some : bitWidth ≠ 0 := by
    intro none
    rw [none] at low
    exact absurd low (by decide)
  have quotient : ((fixedPackedSize.toUInt64 * 8) / bitWidth.toUInt64).toNat =
      fixedPackedSize.toNat * 8 / bitWidth.toNat := by
    have := fixedPackedSize.toNat_lt
    rw [UInt64.toNat_div, UInt64.toNat_mul, UInt32.toNat_toUInt64, UInt8.toNat_toUInt64]
    simp only [UInt64.reduceToNat]
    rw [Nat.mod_eq_of_lt (by omega)]
  have wide : ((fixedPackedSize.toUInt64 * 8) / bitWidth.toUInt64).toUInt32.toNat *
      bitWidth.toNat ≤ fixedPackedSize.toNat * 8 := by
    rw [UInt64.toNat_toUInt32, quotient]
    exact Nat.le_trans (Nat.mul_le_mul_right _ (Nat.mod_le _ _)) (Nat.div_mul_le_self _ _)
  unfold computeBlockGranularity
  rw [if_neg given, if_neg some]
  dsimp only
  split
  · refine ⟨by decide, ?_⟩
    simp only [UInt32.reduceToNat]
    omega
  · rename_i least
    rw [UInt32.lt_iff_toNat_lt] at least
    simp only [UInt32.reduceToNat] at least
    exact ⟨by omega, by omega⟩

theorem granularityOf_spec (entries : List AddressEntry) (fixedPackedSize pageSize : UInt32) :
    1 ≤ (granularityOf entries fixedPackedSize pageSize).toNat ∧
      (granularityOf entries fixedPackedSize pageSize).toNat *
        (computeSharedBitWidth entries pageSize).toNat ≤
          max ((effectivePackedSize fixedPackedSize).toNat * 8) 32 := by
  obtain ⟨low, high⟩ := computeSharedBitWidth_spec entries pageSize
  refine computeBlockGranularity_spec ?_ low high
  unfold effectivePackedSize
  split
  · decide
  · assumption

/-- A block's bits fit the byte count, a `uint32_t`. -/
theorem granularityOf_bits (entries : List AddressEntry) (fixedPackedSize pageSize : UInt32) :
    (granularityOf entries fixedPackedSize pageSize).toNat *
      (computeSharedBitWidth entries pageSize).toNat + 7 < 2 ^ 35 := by
  have bits := (granularityOf_spec entries fixedPackedSize pageSize).2
  have := (effectivePackedSize fixedPackedSize).toNat_lt
  omega

theorem padTo_size_le (size : ℕ) (b : Buffer) : b.size ≤ (padTo size b).size := by
  unfold padTo
  split
  · exact Nat.le_of_lt (by assumption)
  · exact Nat.le_refl _

theorem padTo_bit {size m : ℕ} {b : Buffer} (inside : m < 8 * b.size) :
    (padTo size b).bit m = b.bit m := by
  unfold padTo
  split
  · simp [Buffer.bit, show m / 8 < b.size by omega]
  · rfl

theorem keptPages_congr {pages pages' : ℕ → UInt32} {count bitWidth i : ℕ}
    (same : ∀ j, j < count → pages j = pages' j) :
    keptPages pages count bitWidth i = keptPages pages' count bitWidth i := by
  unfold keptPages sharedBit
  congr 1
  funext bit
  congr 1
  refine propext (exists_congr fun j => and_congr_right fun inSub => ?_)
  rw [same j inSub]

/-- What `EncodeSingleBlock` gives: the first page and, for each field, the pages that
are read back. -/
theorem encodeSingleBlock_spec {entries : List AddressEntry} {pageSize paddedSize : UInt32}
    {bitWidth : UInt8} (count : entries.length < 2 ^ 32) (small : bitWidth.toNat ≤ 32)
    (fits : entries.length * bitWidth.toNat + 7 < 2 ^ 35) :
    ∃ block, encodeSingleBlock entries pageSize bitWidth paddedSize = .ok block ∧
      block.baseOffset =
        ((entries.getD 0 ⟨0, 0⟩).offset / pageSize.toUInt64).toUInt32 ∧
      entries.length * bitWidth.toNat ≤ 8 * block.packed.size ∧
      (paddedSize = 0 → block.packed.size = (entries.length * bitWidth.toNat + 7) / 8) ∧
      ∀ i, i < entries.length → (fieldValue block.packed bitWidth i).toNat =
        keptPages (fun j => pageCount pageSize (entries.getD j ⟨0, 0⟩).size) entries.length
          bitWidth.toNat i := by
  obtain ⟨packed, encoded, size, bits⟩ := @encode_spec
    (entries.map fun entry => pageCount pageSize entry.size) bitWidth (by simpa using count)
    (by simpa using fits)
  rw [List.length_map] at size bits
  have padded := padTo_size_le paddedSize.toNat packed
  refine ⟨_, by rw [encodeSingleBlock, encoded]; rfl, rfl, by dsimp only; omega, ?_, ?_⟩
  · intro none
    rw [none, ← size]
    simp [padTo]
  · intro i below
    have inside := fun b (width : b < bitWidth.toNat) =>
      @place_lt bitWidth.toNat entries.length i b below width
    rw [@fieldValue_congr _ packed bitWidth i fun b width =>
      padTo_bit (by have := inside b width; omega)]
    apply Nat.eq_of_testBit_eq
    intro b
    rw [fieldValue_testBit small, keptPages]
    by_cases width : b < bitWidth.toNat
    · rw [Nat.testBit_ofBits_lt _ _ width, decide_eq_true width, Bool.true_and, sharedBit,
        Bool.eq_iff_iff, bits, decide_eq_true_iff]
      refine exists_congr fun j => and_congr_right fun inBlock => ?_
      have entry : (entries.map fun entry => pageCount pageSize entry.size).getD j 0 =
          pageCount pageSize (entries.getD j ⟨0, 0⟩).size := by
        simp [List.getD, inBlock]
      rw [entry]
    · rw [Nat.testBit_ofBits_ge _ _ (by omega), decide_eq_false width, Bool.false_and]

variable (entries : List AddressEntry) (fixedPackedSize pageSize : UInt32)

/-- The records of block `b`. -/
def blockCount (granularity : ℕ) (b : ℕ) : ℕ :=
  min granularity (entries.length - b * granularity)

/-- Entry `i` of block `b`. -/
def blockEntry (granularity : ℕ) (b i : ℕ) : AddressEntry :=
  entries.getD (b * granularity + i) ⟨0, 0⟩

/-- The pages read back for entry `i` of block `b`. -/
def blockPages (granularity : ℕ) (b i : ℕ) : ℕ :=
  keptPages (fun j => pageCount pageSize (blockEntry entries granularity b j).size)
    (blockCount entries granularity b) (computeSharedBitWidth entries pageSize).toNat i

/-- What `Encode` gives where the block count does not wrap. -/
structure EncodedAs (column : EncodedAddressColumn) : Prop where
  pageSize_eq : column.layout.pageSize = pageSize
  bitWidth_eq : column.layout.bitWidth = computeSharedBitWidth entries pageSize
  granularity_eq : column.layout.blockGranularity =
    granularityOf entries fixedPackedSize pageSize
  fixed_eq : column.layout.fixedPackedSize = effectivePackedSize fixedPackedSize
  covers : Covers column.layout column.blocks column.totalRecords
  total : column.totalRecords.toNat = entries.length
  base : ∀ b, b < column.layout.numAddressBlocks.toNat →
    (column.blocks.getD b ⟨0, .zeros 0⟩).baseOffset =
      ((blockEntry entries column.layout.blockGranularity.toNat b 0).offset /
        pageSize.toUInt64).toUInt32
  holds : ∀ b, b < column.layout.numAddressBlocks.toNat →
    HoldsFields column.layout (blockCount entries column.layout.blockGranularity.toNat b)
      (column.blocks.getD b ⟨0, .zeros 0⟩)
  fields : ∀ b, b < column.layout.numAddressBlocks.toNat →
    ∀ i, i < blockCount entries column.layout.blockGranularity.toNat b →
      (fieldValue (column.blocks.getD b ⟨0, .zeros 0⟩).packed column.layout.bitWidth i).toNat =
        blockPages entries pageSize column.layout.blockGranularity.toNat b i
  last : column.layout.lastPackedSize.toNat =
    (blockCount entries column.layout.blockGranularity.toNat
      (column.layout.numAddressBlocks.toNat - 1) * column.layout.bitWidth.toNat + 7) / 8

variable {entries fixedPackedSize pageSize}

theorem numBlocks_toNat {n granularity : UInt32} (some : 1 ≤ n.toNat)
    (least : 1 ≤ granularity.toNat) :
    ((n + granularity - 1) / granularity).toNat =
      if n.toNat + granularity.toNat ≤ 2 ^ 32 then
        (n.toNat + granularity.toNat - 1) / granularity.toNat else 0 := by
  have small := n.toNat_lt
  have small' := granularity.toNat_lt
  have sum : (n + granularity - 1).toNat = (n.toNat + granularity.toNat - 1) % 2 ^ 32 := by
    rw [UInt32.toNat_sub, UInt32.toNat_add]
    simp only [UInt32.reduceToNat]
    omega
  rw [UInt32.toNat_div, sum]
  split
  · rw [Nat.mod_eq_of_lt (by omega)]
  · exact Nat.div_eq_of_lt (by omega)

/-- The blocks `Encode` cuts. -/
def numBlocksOf (entries : List AddressEntry) (granularity : UInt32) : UInt32 :=
  (UInt32.ofNat entries.length + granularity - 1) / granularity

/-- The column `Encode` returns around its blocks. -/
def columnOf (entries : List AddressEntry) (fixedPackedSize pageSize : UInt32)
    (blocks : List AddressBlock) : EncodedAddressColumn :=
  { layout :=
      { pageSize := pageSize
        bitWidth := computeSharedBitWidth entries pageSize
        blockGranularity := granularityOf entries fixedPackedSize pageSize
        fixedPackedSize := effectivePackedSize fixedPackedSize
        lastPackedSize := (blocks.getLast?.map fun b => UInt32.ofNat b.packed.size).getD 0
        numAddressBlocks := numBlocksOf entries (granularityOf entries fixedPackedSize pageSize) }
    blocks := blocks
    totalRecords := UInt32.ofNat entries.length }

theorem encodeColumn_eq (nonempty : entries ≠ []) :
    encodeColumn entries fixedPackedSize pageSize =
      (emitRange (fun b => (encodeBlock entries pageSize (computeSharedBitWidth entries pageSize)
          (granularityOf entries fixedPackedSize pageSize) (effectivePackedSize fixedPackedSize)
          (numBlocksOf entries (granularityOf entries fixedPackedSize pageSize)) b).map
            fun block => [block])
        (numBlocksOf entries (granularityOf entries fixedPackedSize pageSize)).toNat).map
          (columnOf entries fixedPackedSize pageSize) := by
  unfold encodeColumn
  rw [if_neg (by simpa using nonempty)]
  rfl

/-- A block count that wraps is zero. -/
theorem encodeColumn_wrapped (nonempty : entries ≠ []) (count : entries.length < 2 ^ 32)
    (wraps : ¬ entries.length + (granularityOf entries fixedPackedSize pageSize).toNat ≤ 2 ^ 32)
    {column : EncodedAddressColumn}
    (encoded : encodeColumn entries fixedPackedSize pageSize = .ok column) :
    column.layout.numAddressBlocks = 0 ∧ column.totalRecords ≠ 0 := by
  have length : (UInt32.ofNat entries.length).toNat = entries.length := by
    rw [UInt32.toNat_ofNat', Nat.mod_eq_of_lt count]
  have some : 1 ≤ entries.length := List.length_pos_iff.2 nonempty
  obtain ⟨least, -⟩ := granularityOf_spec entries fixedPackedSize pageSize
  have none := @numBlocks_toNat (UInt32.ofNat entries.length)
    (granularityOf entries fixedPackedSize pageSize) (by omega) least
  rw [length, if_neg wraps] at none
  rw [encodeColumn_eq nonempty, numBlocksOf, none] at encoded
  rw [← Except.ok.inj encoded]
  refine ⟨UInt32.toNat_inj.1 none, fun zero => ?_⟩
  have := congrArg UInt32.toNat zero
  rw [columnOf, length] at this
  simp only [UInt32.reduceToNat] at this
  omega

/-- Where the blocks are cut, when their count does not wrap. -/
structure Cut (entries : List AddressEntry) (granularity : UInt32) : Prop where
  some : 1 ≤ (numBlocksOf entries granularity).toNat
  before : ((numBlocksOf entries granularity).toNat - 1) * granularity.toNat < entries.length
  upto : entries.length ≤ (numBlocksOf entries granularity).toNat * granularity.toNat
  small : entries.length < 2 ^ 32
  length : (UInt32.ofNat entries.length).toNat = entries.length

theorem cut_of_fits {granularity : UInt32} (nonempty : entries ≠ [])
    (count : entries.length < 2 ^ 32) (least : 1 ≤ granularity.toNat)
    (blocks : entries.length + granularity.toNat ≤ 2 ^ 32) : Cut entries granularity := by
  have length : (UInt32.ofNat entries.length).toNat = entries.length := by
    rw [UInt32.toNat_ofNat', Nat.mod_eq_of_lt count]
  have some : 1 ≤ entries.length := List.length_pos_iff.2 nonempty
  have num : (numBlocksOf entries granularity).toNat =
      (entries.length + granularity.toNat - 1) / granularity.toNat := by
    rw [numBlocksOf, numBlocks_toNat (by omega) least, length, if_pos blocks]
  have rows := Nat.div_add_mod (entries.length + granularity.toNat - 1) granularity.toNat
  have inRow := Nat.mod_lt (entries.length + granularity.toNat - 1) least
  rw [← num, Nat.mul_comm] at rows
  have someBlocks : 1 ≤ (numBlocksOf entries granularity).toNat := by
    rw [num]
    exact (Nat.one_le_div_iff least).2 (by omega)
  have lastRow : (numBlocksOf entries granularity).toNat * granularity.toNat =
      ((numBlocksOf entries granularity).toNat - 1) * granularity.toNat + granularity.toNat := by
    rw [← Nat.succ_mul]
    congr 1
    omega
  exact ⟨someBlocks, by omega, by omega, count, length⟩

/-- Block `b` starts at entry `b * granularity`. -/
theorem Cut.start {granularity : UInt32} (cut : Cut entries granularity) {b : ℕ}
    (below : b < (numBlocksOf entries granularity).toNat) :
    (UInt32.ofNat b * granularity).toNat = b * granularity.toNat ∧
      b * granularity.toNat < entries.length := by
  have row := Nat.mul_le_mul_right granularity.toNat
    (show b ≤ (numBlocksOf entries granularity).toNat - 1 by omega)
  have before := cut.before
  have small := cut.small
  have numSmall := (numBlocksOf entries granularity).toNat_lt
  refine ⟨?_, by omega⟩
  rw [UInt32.toNat_mul, UInt32.toNat_ofNat', Nat.mod_eq_of_lt (by omega : b < 2 ^ 32)]
  exact Nat.mod_eq_of_lt (by omega)

theorem Cut.count {granularity : UInt32} (cut : Cut entries granularity) {b : ℕ}
    (below : b < (numBlocksOf entries granularity).toNat) :
    (min granularity (UInt32.ofNat entries.length - UInt32.ofNat b * granularity)).toNat =
      blockCount entries granularity.toNat b := by
  obtain ⟨start, inEntries⟩ := cut.start below
  have order : UInt32.ofNat b * granularity ≤ UInt32.ofNat entries.length := by
    rw [UInt32.le_iff_toNat_le, start, cut.length]
    omega
  rw [min_toNat, UInt32.toNat_sub_of_le _ _ order, start, cut.length, blockCount]

theorem Cut.blockCount_pos {granularity : UInt32} (cut : Cut entries granularity)
    (least : 1 ≤ granularity.toNat) {b : ℕ}
    (below : b < (numBlocksOf entries granularity).toNat) :
    0 < blockCount entries granularity.toNat b := by
  have := (cut.start below).2
  rw [blockCount]
  omega

/-- The entries of block `b`. -/
def blockEntries (entries : List AddressEntry) (granularity b : ℕ) : List AddressEntry :=
  (entries.drop (b * granularity)).take (blockCount entries granularity b)

@[simp] theorem blockEntries_length (granularity b : ℕ) :
    (blockEntries entries granularity b).length = blockCount entries granularity b := by
  rw [blockEntries, List.length_take, List.length_drop, blockCount]
  omega

theorem blockEntries_getD {granularity b i : ℕ} (below : i < blockCount entries granularity b) :
    (blockEntries entries granularity b).getD i ⟨0, 0⟩ = blockEntry entries granularity b i := by
  simp [blockEntries, blockEntry, List.getD, below]

/-- What block `b` is encoded as. -/
theorem Cut.encodeBlock_spec {granularity : UInt32} {bitWidth : UInt8}
    (cut : Cut entries granularity) (least : 1 ≤ granularity.toNat)
    (small : bitWidth.toNat ≤ 32) (fits : granularity.toNat * bitWidth.toNat + 7 < 2 ^ 35)
    (fixedPackedSize : UInt32) {b : ℕ}
    (below : b < (numBlocksOf entries granularity).toNat) :
    ∃ block, encodeBlock entries pageSize bitWidth granularity fixedPackedSize
        (numBlocksOf entries granularity) b = .ok block ∧
      block.baseOffset = ((blockEntry entries granularity.toNat b 0).offset /
        pageSize.toUInt64).toUInt32 ∧
      blockCount entries granularity.toNat b * bitWidth.toNat ≤ 8 * block.packed.size ∧
      (b + 1 = (numBlocksOf entries granularity).toNat → block.packed.size =
        (blockCount entries granularity.toNat b * bitWidth.toNat + 7) / 8) ∧
      ∀ i, i < blockCount entries granularity.toNat b →
        (fieldValue block.packed bitWidth i).toNat =
          keptPages (fun j => pageCount pageSize (blockEntry entries granularity.toNat b j).size)
            (blockCount entries granularity.toNat b) bitWidth.toNat i := by
  have inGranularity : blockCount entries granularity.toNat b ≤ granularity.toNat :=
    Nat.min_le_left _ _
  have bits := Nat.mul_le_mul_right bitWidth.toNat inGranularity
  have someEntry := cut.blockCount_pos least below
  have granularityLt := granularity.toNat_lt
  obtain ⟨block, encoded, base, room, unpadded, fields⟩ := @encodeSingleBlock_spec
    (blockEntries entries granularity.toNat b) pageSize
    (if b + 1 = (numBlocksOf entries granularity).toNat then 0 else fixedPackedSize) bitWidth
    (by rw [blockEntries_length]; omega) small (by rw [blockEntries_length]; omega)
  rw [blockEntries_length] at room unpadded fields
  refine ⟨block, ?_, ?_, room, fun isLast => unpadded (if_pos isLast), fun i inBlock => ?_⟩
  · rw [encodeBlock, (cut.start below).1, cut.count below]
    exact encoded
  · rw [base, blockEntries_getD someEntry]
  · rw [fields i inBlock]
    refine keptPages_congr fun j inSub => ?_
    rw [blockEntries_getD inSub]

theorem encodeColumn_spec (nonempty : entries ≠ []) (count : entries.length < 2 ^ 32)
    (blocks : entries.length + (granularityOf entries fixedPackedSize pageSize).toNat ≤ 2 ^ 32) :
    ∃ column, encodeColumn entries fixedPackedSize pageSize = .ok column ∧
      EncodedAs entries fixedPackedSize pageSize column := by
  obtain ⟨-, high⟩ := computeSharedBitWidth_spec entries pageSize
  obtain ⟨least, -⟩ := granularityOf_spec entries fixedPackedSize pageSize
  have fits := granularityOf_bits entries fixedPackedSize pageSize
  have cut := cut_of_fits nonempty count least blocks
  have inhabited : Nonempty AddressBlock := ⟨⟨0, .zeros 0⟩⟩
  choose! block encoded base room unpadded fields using fun b
    (below : b < (numBlocksOf entries
      (granularityOf entries fixedPackedSize pageSize)).toNat) =>
    @Cut.encodeBlock_spec entries pageSize (granularityOf entries fixedPackedSize pageSize)
      (computeSharedBitWidth entries pageSize) cut least high fits
      (effectivePackedSize fixedPackedSize) b below
  set n := (numBlocksOf entries (granularityOf entries fixedPackedSize pageSize)).toNat with nDef
  have some : 1 ≤ n := cut.some
  have blockAt : ∀ b, b < n →
      ((List.range n).map block).getD b ⟨0, .zeros 0⟩ = block b := by
    intro b below
    simp [List.getD, below]
  refine ⟨columnOf entries fixedPackedSize pageSize ((List.range n).map block), ?_, ?_⟩
  · rw [encodeColumn_eq nonempty, ← nDef, @emitRange_ok _ _ _ _ fun b => [block b]]
    · rw [List.map_eq_flatMap]
      rfl
    · intro b below
      rw [encoded b below]
      rfl
  · refine ⟨rfl, rfl, rfl, rfl, ⟨by simp [columnOf, nDef], least, ?_, ?_⟩, cut.length, ?_, ?_, ?_, ?_⟩
    · exact Nat.lt_of_lt_of_eq cut.before cut.length.symm
    · exact Nat.le_trans (Nat.le_of_eq cut.length) cut.upto
    · intro b below
      rw [show (columnOf entries fixedPackedSize pageSize ((List.range n).map block)).blocks =
        (List.range n).map block from rfl, blockAt b below]
      exact base b below
    · intro b below
      rw [show (columnOf entries fixedPackedSize pageSize ((List.range n).map block)).blocks =
        (List.range n).map block from rfl, blockAt b below]
      exact room b below
    · intro b below i inBlock
      rw [show (columnOf entries fixedPackedSize pageSize ((List.range n).map block)).blocks =
        (List.range n).map block from rfl, blockAt b below]
      exact fields b below i inBlock
    · have last : ((List.range n).map block).getLast? = Option.some (block (n - 1)) := by
        rw [List.getLast?_eq_getElem?]
        simp [show n - 1 < n by omega]
      have size := unpadded (n - 1) (by omega) (by omega)
      have bits := Nat.mul_le_mul_right (computeSharedBitWidth entries pageSize).toNat
        (show blockCount entries (granularityOf entries fixedPackedSize pageSize).toNat (n - 1) ≤
          (granularityOf entries fixedPackedSize pageSize).toNat from Nat.min_le_left _ _)
      change (((((List.range n).map block).getLast?.map fun b =>
        UInt32.ofNat b.packed.size).getD 0)).toNat = _
      rw [last, Option.map_some, Option.getD_some, size, UInt32.toNat_ofNat']
      exact Nat.mod_eq_of_lt (by omega)

end Encoder

end VecFetch.Storage
