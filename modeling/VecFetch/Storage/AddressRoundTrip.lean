/-
# Storage.AddressRoundTrip -- when decoding an address column gives its entries back

A size is read back as the or of everything `Encode` wrote to its places, and the page
counts, the block count and the scratch sizes are `uint32_t`, so the round trip holds
exactly where none of these wraps into another value (`decode_encode_iff`).  At ordinary
sizes only the page count can (`roundTripFits_iff_of_modest`).
-/
import VecFetch.Storage.AddressEncode

namespace VecFetch.Storage

open VecFetch.Theory VecFetch.Simd VecFetch.Codec VecFetch.Query

set_option autoImplicit false

/-! ## The round trip -/

section RoundTrip

/-- Decoding what was encoded gives the entries back, in order. -/
def RoundTrip (build : Build) (entries : List AddressEntry) (fixedPackedSize pageSize : UInt32) :
    Prop :=
  (encodeColumn entries fixedPackedSize pageSize).bind (decodeColumn build) = .ok entries

instance (build : Build) (entries : List AddressEntry) (fixedPackedSize pageSize : UInt32) :
    Decidable (RoundTrip build entries fixedPackedSize pageSize) :=
  inferInstanceAs (Decidable (_ = _))

/-- The blocks that are decoded eight at a time: all but a last one that is short or
whose packed bytes are not of the regular size. -/
def regularOf (entries : List AddressEntry) (fixedPackedSize pageSize : UInt32) : ℕ :=
  let granularity := (granularityOf entries fixedPackedSize pageSize).toNat
  let blocks := (entries.length + granularity - 1) / granularity
  if entries.length % granularity = 0 ∧
      (granularity * (computeSharedBitWidth entries pageSize).toNat + 7) / 8 =
        (effectivePackedSize fixedPackedSize).toNat then blocks
  else blocks - 1

/-- The bits of block `b`. -/
def blockBits (entries : List AddressEntry) (fixedPackedSize pageSize : UInt32) (b : ℕ) : ℕ :=
  blockCount entries (granularityOf entries fixedPackedSize pageSize).toNat b *
    (computeSharedBitWidth entries pageSize).toNat

/-- Nothing that the codec counts in 32 bits wraps into another value. -/
structure RoundTripFits (entries : List AddressEntry) (fixedPackedSize pageSize : UInt32) :
    Prop where
  count : entries.length < 2 ^ 32
  blocks : entries.length + (granularityOf entries fixedPackedSize pageSize).toNat ≤ 2 ^ 32
  streams : regularOf entries fixedPackedSize pageSize = 0 ∨
    (granularityOf entries fixedPackedSize pageSize).toNat < 2 ^ 29
  batches : regularOf entries fixedPackedSize pageSize + 8 ≤ 2 ^ 32
  /-- Where the bits of a block have numbers below `2 ^ 32`, no page count wraps. -/
  pageCounts : ∀ b, b * (granularityOf entries fixedPackedSize pageSize).toNat < entries.length →
    blockBits entries fixedPackedSize pageSize b ≤ 2 ^ 32 →
      ∀ i, i < blockCount entries (granularityOf entries fixedPackedSize pageSize).toNat b →
        let size :=
          (blockEntry entries (granularityOf entries fixedPackedSize pageSize).toNat b i).size
        size = 0 ∨ size.toNat + pageSize.toNat ≤ 2 ^ 32
  /-- Where bits meet, they still make up the sizes. -/
  meeting : ∀ b, b * (granularityOf entries fixedPackedSize pageSize).toNat < entries.length →
    2 ^ 32 < blockBits entries fixedPackedSize pageSize b →
      SizesKept pageSize
        (blockCount entries (granularityOf entries fixedPackedSize pageSize).toNat b)
        (blockEntry entries (granularityOf entries fixedPackedSize pageSize).toNat b)
        (blockPages entries pageSize (granularityOf entries fixedPackedSize pageSize).toNat b)

variable {entries : List AddressEntry} {fixedPackedSize pageSize : UInt32}

theorem flatMap_blockEntries (entries : List AddressEntry) (granularity n : ℕ) :
    (List.range n).flatMap (blockEntries entries granularity) =
      entries.take (n * granularity) := by
  induction n with
  | zero => simp
  | succ n ih =>
      rw [List.range_succ, List.flatMap_append, List.flatMap_singleton, ih, Nat.add_mul,
        Nat.one_mul, List.take_add, blockEntries]
      congr 1
      rw [List.take_eq_take_iff, List.length_drop, blockCount]
      omega

theorem Paged.block (paged : Paged pageSize entries.length fun i => entries.getD i ⟨0, 0⟩)
    (granularity b : ℕ) : Paged pageSize (blockCount entries granularity b)
      (blockEntry entries granularity b) := by
  have inside : ∀ i, i < blockCount entries granularity b →
      b * granularity + i < entries.length := by
    intro i below
    rw [blockCount] at below
    omega
  exact ⟨fun i below => paged.offset_aligned _ (inside i below),
    fun i below => paged.size_aligned _ (inside i below),
    fun i below => paged.contiguous _ (inside (i + 1) below),
    fun i below => paged.pages _ (inside i below)⟩

/-! ## Blocks of at most `2 ^ 32` bits -/

theorem pageCount_toNat {size : UInt32} (pos : 0 < pageSize.toNat)
    (aligned : pageSize.toNat ∣ size.toNat) : (pageCount pageSize size).toNat =
      if size.toNat + pageSize.toNat ≤ 2 ^ 32 then size.toNat / pageSize.toNat else 0 := by
  have sizeLt := size.toNat_lt
  have pageLt := pageSize.toNat_lt
  have sum : (size + pageSize - 1).toNat = (size.toNat + pageSize.toNat - 1) % 2 ^ 32 := by
    rw [UInt32.toNat_sub, UInt32.toNat_add]
    simp only [UInt32.reduceToNat]
    omega
  rw [pageCount, UInt32.toNat_div, sum]
  split
  · obtain ⟨k, eq⟩ := aligned
    rw [Nat.mod_eq_of_lt (by omega), eq, Nat.mul_div_cancel_left k pos,
      show pageSize.toNat * k + pageSize.toNat - 1 = pageSize.toNat - 1 + pageSize.toNat * k by
        omega, Nat.add_mul_div_left _ _ pos, Nat.div_eq_of_lt (by omega), Nat.zero_add]
  · exact Nat.div_eq_of_lt (by omega)

/-- The shared width holds every page count. -/
theorem pageCount_lt_width (count : entries.length < 2 ^ 32) {entry : AddressEntry}
    (mem : entry ∈ entries) : (pageCount pageSize entry.size).toNat <
      2 ^ (computeSharedBitWidth entries pageSize).toNat := by
  have nonempty : entries ≠ [] := List.ne_nil_of_mem mem
  have all : (entries.map fun entry => pageCount pageSize entry.size).take
      (UInt32.ofNat (entries.map fun entry => pageCount pageSize entry.size).length).toNat =
        entries.map fun entry => pageCount pageSize entry.size := by
    rw [List.length_map, UInt32.toNat_ofNat', Nat.mod_eq_of_lt count]
    exact List.take_of_length_le (by simp)
  obtain ⟨low, -, fits⟩ :=
    computeMinBitWidth_spec (entries.map fun entry => pageCount pageSize entry.size)
  have some : computeMinBitWidth (entries.map fun entry => pageCount pageSize entry.size)
      0xFFFFFFFF ≠ 0 := by
    intro none
    rw [none] at low
    exact absurd low (by decide)
  unfold computeSharedBitWidth
  rw [if_neg (by simpa using nonempty)]
  dsimp only
  rw [all, if_neg some]
  exact fits _ (List.mem_map_of_mem mem)

/-- Where a block's bits have numbers below `2 ^ 32`, its fields lie apart. -/
theorem keptPages_eq {pages : ℕ → UInt32} {count bitWidth i : ℕ}
    (bits : count * bitWidth ≤ 2 ^ 32) (below : i < count)
    (width : (pages i).toNat < 2 ^ bitWidth) :
    keptPages pages count bitWidth i = (pages i).toNat := by
  apply Nat.eq_of_testBit_eq
  intro b
  rw [keptPages]
  by_cases inField : b < bitWidth
  · rw [Nat.testBit_ofBits_lt _ _ inField, sharedBit, Bool.eq_iff_iff, decide_eq_true_iff]
    constructor
    · rintro ⟨j, inBlock, b', inField', same, set⟩
      rw [place_eq bits inBlock inField', place_eq bits below inField] at same
      obtain ⟨rfl, rfl⟩ := row_unique inField inField' same
      exact set
    · intro set
      exact ⟨i, below, b, inField, rfl, set⟩
  · rw [Nat.testBit_ofBits_ge _ _ (by omega), testBit_of_le width (by omega)]

/-- In a block of at most `2 ^ 32` bits a size is kept unless its page count wraps. -/
theorem sizesKept_iff (pos : 0 < pageSize.toNat) (count : entries.length < 2 ^ 32)
    (paged : Paged pageSize entries.length fun i => entries.getD i ⟨0, 0⟩) {granularity b : ℕ}
    (bits : blockCount entries granularity b *
      (computeSharedBitWidth entries pageSize).toNat ≤ 2 ^ 32) :
    SizesKept pageSize (blockCount entries granularity b) (blockEntry entries granularity b)
        (blockPages entries pageSize granularity b) ↔
      ∀ i, i < blockCount entries granularity b →
        (blockEntry entries granularity b i).size = 0 ∨
          (blockEntry entries granularity b i).size.toNat + pageSize.toNat ≤ 2 ^ 32 := by
  have inside : ∀ i, i < blockCount entries granularity b →
      blockEntry entries granularity b i ∈ entries := by
    intro i below
    rw [blockCount] at below
    rw [blockEntry, List.getD_eq_getElem _ _ (by omega)]
    exact List.getElem_mem _
  have pages : ∀ i, i < blockCount entries granularity b →
      blockPages entries pageSize granularity b i =
        (pageCount pageSize (blockEntry entries granularity b i).size).toNat := by
    intro i below
    exact keptPages_eq bits below (pageCount_lt_width count (inside i below))
  have aligned := (paged.block granularity b).size_aligned
  have product : ∀ i, i < blockCount entries granularity b →
      (blockEntry entries granularity b i).size.toNat / pageSize.toNat * pageSize.toNat =
        (blockEntry entries granularity b i).size.toNat :=
    fun i below => Nat.div_mul_cancel (aligned i below)
  rw [sizesKept_congr pages]
  constructor
  · intro kept i below
    by_contra wraps
    rw [not_or] at wraps
    have size := (kept i below).1
    dsimp only at size
    rw [pageCount_toNat pos (aligned i below), if_neg wraps.2, Nat.zero_mul] at size
    exact wraps.1 (UInt32.toNat_inj.1 size.symm)
  · intro fits i below
    have exact_ : (pageCount pageSize (blockEntry entries granularity b i).size).toNat *
        pageSize.toNat = (blockEntry entries granularity b i).size.toNat := by
      rw [pageCount_toNat pos (aligned i below)]
      rcases fits i below with zero | small
      · rw [zero]
        split <;> simp
      · rw [if_pos small, product i below]
    dsimp only
    rw [exact_]
    exact ⟨Nat.mod_eq_of_lt (UInt32.toNat_lt _), fun _ => rfl⟩

/-- The sizes of a block are kept where no page count wraps, or where bits meet and agree. -/
theorem sizesKept_split_iff (pos : 0 < pageSize.toNat) (count : entries.length < 2 ^ 32)
    (paged : Paged pageSize entries.length fun i => entries.getD i ⟨0, 0⟩) {b : ℕ} :
    SizesKept pageSize
        (blockCount entries (granularityOf entries fixedPackedSize pageSize).toNat b)
        (blockEntry entries (granularityOf entries fixedPackedSize pageSize).toNat b)
        (blockPages entries pageSize (granularityOf entries fixedPackedSize pageSize).toNat b) ↔
      (blockBits entries fixedPackedSize pageSize b ≤ 2 ^ 32 →
        ∀ i, i < blockCount entries (granularityOf entries fixedPackedSize pageSize).toNat b →
          (blockEntry entries (granularityOf entries fixedPackedSize pageSize).toNat b i).size = 0 ∨
          (blockEntry entries (granularityOf entries fixedPackedSize pageSize).toNat b
            i).size.toNat + pageSize.toNat ≤ 2 ^ 32) ∧
      (2 ^ 32 < blockBits entries fixedPackedSize pageSize b →
        SizesKept pageSize
          (blockCount entries (granularityOf entries fixedPackedSize pageSize).toNat b)
          (blockEntry entries (granularityOf entries fixedPackedSize pageSize).toNat b)
          (blockPages entries pageSize (granularityOf entries fixedPackedSize pageSize).toNat b)) := by
  constructor
  · intro kept
    exact ⟨fun apart => (sizesKept_iff pos count paged apart).1 kept, fun _ => kept⟩
  · rintro ⟨apart, meeting⟩
    by_cases short : blockBits entries fixedPackedSize pageSize b ≤ 2 ^ 32
    · exact (sizesKept_iff pos count paged short).2 (apart short)
    · exact meeting (Nat.lt_of_not_le short)

/-! ## Encoded columns -/

namespace EncodedAs

variable {column : EncodedAddressColumn}

theorem numBlocks (as : EncodedAs entries fixedPackedSize pageSize column) :
    column.layout.numAddressBlocks.toNat =
      (entries.length + (granularityOf entries fixedPackedSize pageSize).toNat - 1) /
        (granularityOf entries fixedPackedSize pageSize).toNat := by
  have before := as.covers.before
  have upto := as.covers.upto
  have some := as.covers.some
  have least := as.covers.granularity
  rw [as.total, as.granularity_eq] at before upto
  rw [as.granularity_eq] at least
  have row : column.layout.numAddressBlocks.toNat *
      (granularityOf entries fixedPackedSize pageSize).toNat =
      (column.layout.numAddressBlocks.toNat - 1) *
        (granularityOf entries fixedPackedSize pageSize).toNat +
          (granularityOf entries fixedPackedSize pageSize).toNat := by
    rw [← Nat.succ_mul]
    congr 1
    omega
  refine (Nat.div_eq_of_lt_le ?_ ?_).symm
  · omega
  · rw [Nat.succ_mul]
    omega

/-- The code's own count of regular blocks. -/
theorem regular (as : EncodedAs entries fixedPackedSize pageSize column) :
    (regularBlocks column.layout column.totalRecords).toNat =
      regularOf entries fixedPackedSize pageSize := by
  have before := as.covers.before
  have upto := as.covers.upto
  have some := as.covers.some
  have tail := as.covers.tailCount
  have last := as.last
  have numBlocks := as.numBlocks
  have least := as.covers.granularity
  have row : column.layout.numAddressBlocks.toNat * column.layout.blockGranularity.toNat =
      (column.layout.numAddressBlocks.toNat - 1) * column.layout.blockGranularity.toNat +
        column.layout.blockGranularity.toNat := by
    rw [← Nat.succ_mul]
    congr 1
    omega
  have separate : SeparateTail column.layout column.totalRecords ↔
      ¬ (entries.length % column.layout.blockGranularity.toNat = 0 ∧
        (column.layout.blockGranularity.toNat * column.layout.bitWidth.toNat + 7) / 8 =
          column.layout.fixedPackedSize.toNat) := by
    rw [as.total] at before upto tail
    have remainder : entries.length % column.layout.blockGranularity.toNat =
        (entries.length - (column.layout.numAddressBlocks.toNat - 1) *
          column.layout.blockGranularity.toNat) % column.layout.blockGranularity.toNat := by
      conv_lhs => rw [show entries.length = entries.length -
        (column.layout.numAddressBlocks.toNat - 1) * column.layout.blockGranularity.toNat +
          (column.layout.numAddressBlocks.toNat - 1) * column.layout.blockGranularity.toNat by
            omega, Nat.add_mul_mod_self_right]
    unfold SeparateTail
    rw [UInt32.lt_iff_toNat_lt, tail, ne_eq, ← UInt32.toNat_inj, last]
    by_cases short : entries.length - (column.layout.numAddressBlocks.toNat - 1) *
        column.layout.blockGranularity.toNat < column.layout.blockGranularity.toNat
    · rw [Nat.mod_eq_of_lt short] at remainder
      refine iff_of_true (.inl short) fun both => ?_
      omega
    · have whole : entries.length - (column.layout.numAddressBlocks.toNat - 1) *
          column.layout.blockGranularity.toNat = column.layout.blockGranularity.toNat := by omega
      have full : blockCount entries column.layout.blockGranularity.toNat
          (column.layout.numAddressBlocks.toNat - 1) =
            column.layout.blockGranularity.toNat := by
        rw [blockCount, whole, Nat.min_self]
      rw [whole, Nat.mod_self] at remainder
      simp [short, remainder, full]
  have numPos := as.covers.pred_toNat
  rw [← as.granularity_eq] at numBlocks
  unfold regularBlocks regularOf
  dsimp only
  rw [← as.granularity_eq, ← as.bitWidth_eq, ← as.fixed_eq, ← numBlocks]
  by_cases together : entries.length % column.layout.blockGranularity.toNat = 0 ∧
      (column.layout.blockGranularity.toNat * column.layout.bitWidth.toNat + 7) / 8 =
        column.layout.fixedPackedSize.toNat
  · rw [if_pos together, if_neg fun tail => separate.1 tail together]
  · rw [if_neg together, if_pos (separate.2 together), numPos]

/-- The blocks' entries are the entries exactly when every block keeps its sizes. -/
theorem decodedBlocks_iff (as : EncodedAs entries fixedPackedSize pageSize column)
    (pos : 0 < pageSize.toNat)
    (paged : Paged pageSize entries.length fun i => entries.getD i ⟨0, 0⟩) :
    decodedBlocks column.layout column.blocks column.totalRecords
        column.layout.numAddressBlocks.toNat = entries ↔
      ∀ b, b < column.layout.numAddressBlocks.toNat →
        SizesKept pageSize (blockCount entries column.layout.blockGranularity.toNat b)
          (blockEntry entries column.layout.blockGranularity.toNat b)
          (blockPages entries pageSize column.layout.blockGranularity.toNat b) := by
  have counts : ∀ b, countOf column.layout column.totalRecords b =
      blockCount entries column.layout.blockGranularity.toNat b := by
    intro b
    rw [countOf, blockCount, as.total]
  have upto := as.covers.upto
  have before := as.covers.before
  rw [as.total] at upto before
  have cut : entries = (List.range column.layout.numAddressBlocks.toNat).flatMap
      (blockEntries entries column.layout.blockGranularity.toNat) := by
    rw [flatMap_blockEntries, List.take_of_length_le upto]
  conv_lhs => rhs; rw [cut]
  rw [decodedBlocks, flatMap_range_inj fun b _ => by rw [decodedBlock_length, counts,
    blockEntries_length]]
  refine forall_congr' fun b => forall_congr' fun below => ?_
  have first : (column.blocks.getD b ⟨0, .zeros 0⟩).baseOffset.toNat =
      (blockEntry entries column.layout.blockGranularity.toNat b 0).offset.toNat /
        pageSize.toNat := by
    rw [as.base b below, UInt64.toNat_toUInt32, UInt64.toNat_div, UInt32.toNat_toUInt64]
    have row := Nat.mul_le_mul_right column.layout.blockGranularity.toNat
      (show b ≤ column.layout.numAddressBlocks.toNat - 1 by omega)
    exact Nat.mod_eq_of_lt (paged.pages _ (by omega))
  have blockPaged := paged.block column.layout.blockGranularity.toNat b
  rw [counts, ← sizesKept_congr fun i inBlock => as.fields b below i inBlock,
    ← addresses_iff pos blockPaged first]
  constructor
  · intro same i inBlock
    have here : (decodedBlock column.layout (column.blocks.getD b ⟨0, .zeros 0⟩)
        (blockCount entries column.layout.blockGranularity.toNat b)).getD i ⟨0, 0⟩ =
          blockEntry entries column.layout.blockGranularity.toNat b i := by
      rw [same, blockEntries_getD inBlock]
    rw [← here, ← as.pageSize_eq]
    simp [decodedBlock, List.getD, inBlock]
  · intro each
    refine List.ext_getElem (by rw [decodedBlock_length, blockEntries_length]) ?_
    intro i inDecoded inEntries
    have inBlock : i < blockCount entries column.layout.blockGranularity.toNat b := by
      rwa [decodedBlock_length] at inDecoded
    have here := each i inBlock
    rw [← blockEntries_getD inBlock, List.getD_eq_getElem _ _ inEntries] at here
    rw [← here, ← as.pageSize_eq]
    simp [decodedBlock]

end EncodedAs

theorem decodeBatchBlocks_length {build : Build} {layout : AddressColumnLayout}
    {blocks : List AddressBlock} {totalRecords : UInt32} {out : List AddressEntry}
    (ok : decodeBatchBlocks build layout blocks totalRecords = .ok out) :
    out.length = totalRecords.toNat := by
  unfold decodeBatchBlocks at ok
  split at ok
  · cases ok
  · split at ok
    · split at ok
      · cases ok
      · rename_i zero
        obtain rfl : totalRecords = 0 := by simpa using zero
        rw [← Except.ok.inj ok]
        rfl
    · split at ok
      · cases ok
      · dsimp only at ok
        rw [Except.bind.eq_def] at ok
        split at ok
        · cases ok
        · split at ok
          · rw [Except.bind.eq_def] at ok
            split at ok
            · cases ok
            · split at ok
              · cases ok
              · split at ok
                · cases ok
                · rename_i counted
                  rw [← Except.ok.inj ok, List.length_append]
                  omega
          · split at ok
            · cases ok
            · rename_i counted
              rw [← Except.ok.inj ok]
              omega

theorem decodeBatchBlocks_none {build : Build} {layout : AddressColumnLayout}
    {blocks : List AddressBlock} {totalRecords : UInt32} (none : layout.numAddressBlocks = 0)
    (some : totalRecords ≠ 0) (out : List AddressEntry) :
    decodeBatchBlocks build layout blocks totalRecords ≠ .ok out := by
  intro ok
  unfold decodeBatchBlocks at ok
  split at ok
  · cases ok
  · cases ok

theorem regularOf_nil (fixedPackedSize pageSize : UInt32) :
    regularOf [] fixedPackedSize pageSize = 0 := by
  obtain ⟨least, -⟩ := granularityOf_spec [] fixedPackedSize pageSize
  have none : (0 + (granularityOf [] fixedPackedSize pageSize).toNat - 1) /
      (granularityOf [] fixedPackedSize pageSize).toNat = 0 := Nat.div_eq_of_lt (by omega)
  unfold regularOf
  dsimp only [List.length_nil]
  rw [none]
  split <;> rfl

/-- **The round trip holds exactly where nothing wraps into another value.** -/
theorem decode_encode_iff (build : Build) (entries : List AddressEntry)
    (fixedPackedSize pageSize : UInt32) (pos : 0 < pageSize.toNat)
    (paged : Paged pageSize entries.length fun i => entries.getD i ⟨0, 0⟩) :
    RoundTrip build entries fixedPackedSize pageSize ↔
      RoundTripFits entries fixedPackedSize pageSize := by
  by_cases empty : entries = []
  · subst empty
    refine iff_of_true rfl ⟨by simp, ?_, .inl (regularOf_nil _ _), ?_, ?_, ?_⟩
    · have := (granularityOf [] fixedPackedSize pageSize).toNat_lt
      simp only [List.length_nil]
      omega
    · rw [regularOf_nil]
      decide
    · intro b inside
      exact absurd inside (by simp)
    · intro b inside
      exact absurd inside (by simp)
  · constructor
    · intro same
      unfold RoundTrip at same
      cases encoded : encodeColumn entries fixedPackedSize pageSize with
      | error e =>
          rw [encoded] at same
          cases same
      | ok column =>
          rw [encoded] at same
          have decoded : decodeBatchBlocks build column.layout column.blocks
              column.totalRecords = .ok entries := same
          have count : entries.length < 2 ^ 32 := by
            rw [decodeBatchBlocks_length decoded]
            exact column.totalRecords.toNat_lt
          have blocks : entries.length +
              (granularityOf entries fixedPackedSize pageSize).toNat ≤ 2 ^ 32 := by
            by_contra wraps
            obtain ⟨none, some⟩ := encodeColumn_wrapped empty count wraps encoded
            exact decodeBatchBlocks_none none some entries decoded
          obtain ⟨column', encoded', as⟩ := encodeColumn_spec empty count blocks
          obtain rfl := Except.ok.inj (encoded.symm.trans encoded')
          obtain ⟨streams, batches⟩ := as.covers.bounds_of_ok build decoded
          obtain ⟨-, high⟩ := computeSharedBitWidth_spec entries pageSize
          have whole := as.covers.decode_eq build (by rw [as.bitWidth_eq]; exact high) streams
            batches (by rw [as.total, as.granularity_eq]; exact blocks) (by
              intro b below
              rw [countOf, as.total]
              exact as.holds b below)
          rw [decoded] at whole
          have kept := (as.decodedBlocks_iff pos paged).1 (Except.ok.inj whole).symm
          rw [as.regular, as.granularity_eq] at streams
          rw [as.regular] at batches
          have upto := as.covers.upto
          rw [as.total, as.granularity_eq] at upto
          rw [as.granularity_eq] at kept
          have sizes := fun b inside => (sizesKept_split_iff pos count paged).1
            (kept b (Nat.lt_of_mul_lt_mul_right (Nat.lt_of_lt_of_le inside upto)))
          exact ⟨count, blocks, streams, batches, fun b inside => (sizes b inside).1,
            fun b inside => (sizes b inside).2⟩
    · intro fits
      obtain ⟨column, encoded, as⟩ := encodeColumn_spec empty fits.count fits.blocks
      obtain ⟨-, high⟩ := computeSharedBitWidth_spec entries pageSize
      have streams := fits.streams
      rw [← as.regular, ← as.granularity_eq] at streams
      have batches := fits.batches
      rw [← as.regular] at batches
      have decoded := as.covers.decode_eq build (by rw [as.bitWidth_eq]; exact high) streams
        batches (by rw [as.total, as.granularity_eq]; exact fits.blocks) (by
          intro b below
          rw [countOf, as.total]
          exact as.holds b below)
      have before := as.covers.before
      rw [as.total, as.granularity_eq] at before
      have kept := (as.decodedBlocks_iff pos paged).2 fun b below => by
        have row := Nat.mul_le_mul_right (granularityOf entries fixedPackedSize pageSize).toNat
          (show b ≤ column.layout.numAddressBlocks.toNat - 1 by omega)
        have sizes := (sizesKept_split_iff pos fits.count paged).2
          ⟨fits.pageCounts b (by omega), fits.meeting b (by omega)⟩
        rwa [← as.granularity_eq] at sizes
      rw [kept] at decoded
      unfold RoundTrip
      rw [encoded]
      exact decoded

/-- The law on two adjacent records. -/
theorem decode_encode_iff_two_records :
    RoundTrip .avx2 [⟨4096, 4096⟩, ⟨8192, 8192⟩] 64 4096 ↔
      RoundTripFits [⟨4096, 4096⟩, ⟨8192, 8192⟩] 64 4096 := by
  refine decode_encode_iff .avx2 _ 64 4096 (by decide) ⟨by decide, by decide, ?_, by decide⟩
  intro i more
  obtain rfl : i = 0 := by
    have : i + 1 < 2 := more
    omega
  rfl

/-- With pages of three bytes, a record of `2 ^ 32 - 1` bytes comes back empty: its
rounded-up page count wraps to zero. -/
theorem largest_size_comes_back_empty :
    (Paged 3 1 fun i => [(⟨0, 4294967295⟩ : AddressEntry)].getD i ⟨0, 0⟩) ∧
      ∀ build, (encodeColumn [⟨0, 4294967295⟩] 64 3).bind (decodeColumn build) =
        .ok [⟨0, 0⟩] ∧ ¬ RoundTrip build [⟨0, 4294967295⟩] 64 3 := by
  refine ⟨⟨by decide, by decide, by intro i more; omega, by decide⟩, fun build => ?_⟩
  cases build <;> decide

/-! ## Ordinary sizes -/

theorem regularOf_le (entries : List AddressEntry) (fixedPackedSize pageSize : UInt32) :
    regularOf entries fixedPackedSize pageSize ≤ entries.length := by
  obtain ⟨least, -⟩ := granularityOf_spec entries fixedPackedSize pageSize
  by_cases empty : entries = []
  · subst empty
    rw [regularOf_nil]
    exact Nat.zero_le _
  · have some : 1 ≤ entries.length := List.length_pos_iff.2 empty
    have blocks : (entries.length + (granularityOf entries fixedPackedSize pageSize).toNat - 1) /
        (granularityOf entries fixedPackedSize pageSize).toNat ≤ entries.length := by
      rw [show entries.length + (granularityOf entries fixedPackedSize pageSize).toNat - 1 =
        entries.length - 1 + (granularityOf entries fixedPackedSize pageSize).toNat by omega,
        Nat.add_div_right _ least]
      have := Nat.div_le_self (entries.length - 1)
        (granularityOf entries fixedPackedSize pageSize).toNat
      omega
    unfold regularOf
    dsimp only
    split
    · exact blocks
    · omega

/-- **With regular blocks below 64 MiB and at most `2 ^ 31` records, only the page count
of a size can wrap.** -/
theorem roundTripFits_iff_of_modest (entries : List AddressEntry)
    (fixedPackedSize pageSize : UInt32) (modest : fixedPackedSize.toNat < 2 ^ 26)
    (count : entries.length ≤ 2 ^ 31) :
    RoundTripFits entries fixedPackedSize pageSize ↔
      ∀ entry ∈ entries, entry.size = 0 ∨ entry.size.toNat + pageSize.toNat ≤ 2 ^ 32 := by
  obtain ⟨low, -⟩ := computeSharedBitWidth_spec entries pageSize
  obtain ⟨least, bits⟩ := granularityOf_spec entries fixedPackedSize pageSize
  have effective : (effectivePackedSize fixedPackedSize).toNat < 2 ^ 26 := by
    unfold effectivePackedSize
    split
    · decide
    · exact modest
  have granularity := Nat.le_mul_of_pos_right
    (granularityOf entries fixedPackedSize pageSize).toNat low
  have regular := regularOf_le entries fixedPackedSize pageSize
  have apart : ∀ b, blockBits entries fixedPackedSize pageSize b ≤ 2 ^ 32 := by
    intro b
    have := Nat.mul_le_mul_right (computeSharedBitWidth entries pageSize).toNat
      (show blockCount entries (granularityOf entries fixedPackedSize pageSize).toNat b ≤
        (granularityOf entries fixedPackedSize pageSize).toNat from Nat.min_le_left _ _)
    rw [blockBits]
    omega
  constructor
  · intro fits entry mem
    obtain ⟨i, inside, rfl⟩ := List.getElem_of_mem mem
    have row := Nat.div_add_mod i (granularityOf entries fixedPackedSize pageSize).toNat
    rw [Nat.mul_comm] at row
    have column := Nat.mod_lt i least
    have inBlock := fits.pageCounts
      (i / (granularityOf entries fixedPackedSize pageSize).toNat) (by omega) (apart _)
      (i % (granularityOf entries fixedPackedSize pageSize).toNat) (by
        rw [blockCount]
        omega)
    rw [blockEntry, row, List.getD_eq_getElem _ _ inside] at inBlock
    exact inBlock
  · intro fits
    refine ⟨by omega, by omega, .inr (by omega), by omega, fun b _ _ i below => ?_,
      fun b _ meets => absurd (apart b) (Nat.not_le_of_lt meets)⟩
    rw [blockCount] at below
    refine fits _ ?_
    rw [blockEntry, List.getD_eq_getElem _ _ (by omega)]
    exact List.getElem_mem _

end RoundTrip

end VecFetch.Storage
