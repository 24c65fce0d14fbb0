/-
# Storage.AddressDecode -- what decoding an address column gives

Decoding rebuilds each block from its first page and the sizes at its fields' places
(`decodedBlock`).  The regular blocks are decoded eight at a time and the last one by
itself, which makes no difference (`Covers.decode_eq`) as long as the scratch vectors and
the batch counter, sized and counted in 32 bits, are large enough
(`Covers.bounds_of_ok`).
-/
import VecFetch.Storage.AddressColumn

namespace VecFetch.Storage

open VecFetch.Theory VecFetch.Simd VecFetch.Codec VecFetch.Query

set_option autoImplicit false

/-! ## What the decoders give -/

section Decoders

variable (build : Build) {layout : AddressColumnLayout}

/-- The entries a block stands for. -/
def decodedBlock (layout : AddressColumnLayout) (block : AddressBlock) (count : ℕ) :
    List AddressEntry :=
  (List.range count).map fun i =>
    addressOf layout.pageSize block.baseOffset
      (prefixSum (fieldValue block.packed layout.bitWidth) i)
      (fieldValue block.packed layout.bitWidth i)

@[simp] theorem decodedBlock_length (block : AddressBlock) (count : ℕ) :
    (decodedBlock layout block count).length = count := by simp [decodedBlock]

/-- The entries of regular blocks. -/
def decodedRegular (layout : AddressColumnLayout) (blocks : List AddressBlock) :
    List AddressEntry :=
  blocks.flatMap fun block => decodedBlock layout block layout.blockGranularity.toNat

theorem decodedRegular_append (blocks blocks' : List AddressBlock) :
    decodedRegular layout (blocks ++ blocks') =
      decodedRegular layout blocks ++ decodedRegular layout blocks' := List.flatMap_append

@[simp] theorem decodedRegular_length (blocks : List AddressBlock) :
    (decodedRegular layout blocks).length = blocks.length * layout.blockGranularity.toNat := by
  induction blocks with
  | nil => simp [decodedRegular]
  | cons block blocks ih =>
      rw [← List.singleton_append, decodedRegular_append, List.length_append, ih]
      simp [decodedRegular, Nat.add_mul, Nat.add_comm]

/-- A block with room for `count` fields. -/
def HoldsFields (layout : AddressColumnLayout) (count : ℕ) (block : AddressBlock) : Prop :=
  count * layout.bitWidth.toNat ≤ 8 * block.packed.size

theorem unpackBlock_eq {count : ℕ} {block : AddressBlock} (small : layout.bitWidth.toNat ≤ 32)
    (countFits : count < 2 ^ 32) (holds : HoldsFields layout count block) :
    unpackBlock build layout count block =
      .ok ((List.range count).map (fieldValue block.packed layout.bitWidth)) := by
  rw [unpackBlock, @emitRange_ok _ _ _ _ fun i => [fieldValue block.packed layout.bitWidth i]]
  · rw [List.map_eq_flatMap]
  · intro i below
    rw [unpackValue_eq build small countFits below holds]
    rfl

theorem fields_getD {bitWidth : UInt8} {packed : Buffer} {count i : ℕ} (below : i < count) :
    ((List.range count).map (fieldValue packed bitWidth)).getD i 0 =
      fieldValue packed bitWidth i := by
  simp [List.getD, below]

theorem decodeSingleBlock_eq {block : AddressBlock} {count : UInt32}
    (small : layout.bitWidth.toNat ≤ 32) (room : count.toNat + 8 < 2 ^ 32)
    (holds : HoldsFields layout count.toNat block) :
    decodeSingleBlock build layout block count = .ok (decodedBlock layout block count.toNat) := by
  unfold decodeSingleBlock
  by_cases none : count = 0
  · rw [if_pos none, none]
    rfl
  · have aligned : ¬ ((count + 7) / 8 * 8 < count ∨ build ≠ .scalar ∧ count = 0xFFFFFFF8) := by
      have sum : (count + 7).toNat = count.toNat + 7 := by
        rw [UInt32.toNat_add]
        exact Nat.mod_eq_of_lt (by simp only [UInt32.reduceToNat]; omega)
      rw [UInt32.lt_iff_toNat_lt, UInt32.toNat_mul, UInt32.toNat_div, sum, ← UInt32.toNat_inj]
      simp only [UInt32.reduceToNat]
      omega
    rw [if_neg none]
    dsimp only
    rw [if_neg aligned, unpackBlock_eq build small count.toNat_lt holds]
    simp only [Except.map, decodedBlock]
    congr 1
    refine List.map_congr_left fun i mem => ?_
    have below := List.mem_range.1 mem
    rw [exclusivePrefixSum_eq, fields_getD below]
    congr 1
    refine prefixSum_congr fun j before => ?_
    exact fields_getD (by omega)

theorem unpackStreams_eq {blocks : List AddressBlock} (small : layout.bitWidth.toNat ≤ 32)
    (holds : ∀ block ∈ blocks, HoldsFields layout layout.blockGranularity.toNat block) :
    unpackStreams build layout blocks = .ok (blocks.map fun block =>
      (List.range layout.blockGranularity.toNat).map
        (fieldValue block.packed layout.bitWidth)) := by
  induction blocks with
  | nil => rfl
  | cons block blocks ih =>
      rw [unpackStreams, unpackBlock_eq build small layout.blockGranularity.toNat_lt
        (holds block List.mem_cons_self), ih fun b mem => holds b (List.mem_cons_of_mem _ mem)]
      rfl

theorem streams_fit {granularity : UInt32} :
    (granularity * kMultiStreamWidth).toNat < 8 * granularity.toNat ↔
      2 ^ 29 ≤ granularity.toNat := by
  have := granularity.toNat_lt
  rw [UInt32.toNat_mul, kMultiStreamWidth]
  simp only [UInt32.reduceToNat]
  omega

theorem decodeMultiStream_eq {blocks : List AddressBlock} (small : layout.bitWidth.toNat ≤ 32)
    (width : blocks.length ≤ 8) (streams : layout.blockGranularity.toNat < 2 ^ 29)
    (holds : ∀ block ∈ blocks, HoldsFields layout layout.blockGranularity.toNat block) :
    decodeMultiStream build layout blocks =
      .ok (decodedRegular layout blocks) := by
  have aligned : ¬ (layout.blockGranularity + 7) / 8 * 8 < layout.blockGranularity := by
    have sum : (layout.blockGranularity + 7).toNat = layout.blockGranularity.toNat + 7 := by
      rw [UInt32.toNat_add]
      exact Nat.mod_eq_of_lt (by simp only [UInt32.reduceToNat]; omega)
    rw [UInt32.lt_iff_toNat_lt, UInt32.toNat_mul, UInt32.toNat_div, sum]
    simp only [UInt32.reduceToNat]
    omega
  have fits : ¬ (layout.blockGranularity * kMultiStreamWidth).toNat <
      8 * layout.blockGranularity.toNat := by
    rw [streams_fit]
    omega
  unfold decodeMultiStream
  dsimp only
  rw [if_neg aligned, unpackStreams_eq build small holds]
  simp only [Except.bind]
  rw [if_neg fits]
  congr 1
  rw [decodedRegular, flatMap_getD blocks _ ⟨0, .zeros 0⟩]
  refine List.flatMap_congr fun k mem => ?_
  have used := List.mem_range.1 mem
  refine List.map_congr_left fun j mem => ?_
  have below := List.mem_range.1 mem
  have stream : ∀ j, j < layout.blockGranularity.toNat → (((blocks.map fun block =>
      (List.range layout.blockGranularity.toNat).map
        (fieldValue block.packed layout.bitWidth)).getD k []).getD j 0) =
      fieldValue (blocks.getD k ⟨0, .zeros 0⟩).packed layout.bitWidth j := by
    intro j below
    simp [List.getD, used, below]
  rw [streamPrefixSums_eq build _ _ _ used width, stream j below]
  congr 1
  refine prefixSum_congr fun i before => ?_
  exact stream i (by omega)

/-! ## The batches -/

theorem decodeMultiStream_length {blocks : List AddressBlock} {entries : List AddressEntry}
    (ok : decodeMultiStream build layout blocks = .ok entries) :
    entries.length = blocks.length * layout.blockGranularity.toNat := by
  unfold decodeMultiStream at ok
  dsimp only at ok
  split at ok
  · cases ok
  · cases unpacked : unpackStreams build layout blocks with
    | error e =>
        rw [unpacked] at ok
        cases ok
    | ok streams =>
        rw [unpacked] at ok
        simp only [Except.bind] at ok
        split at ok
        · cases ok
        · rw [← Except.ok.inj ok]
          exact flatMap_range_length fun i _ => by simp

/-- Regular blocks so large that the interleaved vectors are too small. -/
theorem decodeMultiStream_outOfBounds (blocks : List AddressBlock)
    (large : 2 ^ 29 ≤ layout.blockGranularity.toNat) (entries : List AddressEntry) :
    decodeMultiStream build layout blocks ≠ .ok entries := by
  intro ok
  unfold decodeMultiStream at ok
  dsimp only at ok
  split at ok
  · cases ok
  · cases unpacked : unpackStreams build layout blocks with
    | error e =>
        rw [unpacked] at ok
        cases ok
    | ok streams =>
        rw [unpacked] at ok
        simp only [Except.bind, if_pos (streams_fit.2 large)] at ok
        cases ok

theorem min_toNat (a b : UInt32) : (min a b).toNat = min a.toNat b.toNat := by
  have order : a ≤ b ↔ a.toNat ≤ b.toNat := UInt32.le_iff_toNat_le
  by_cases below : a ≤ b
  · rw [show min a b = a from if_pos below]
    exact (Nat.min_eq_left (order.1 below)).symm
  · rw [show min a b = b from if_neg below]
    rw [order] at below
    exact (Nat.min_eq_right (by omega)).symm

/-- The blocks of one batch. -/
theorem batchBlocks_toNat {batchStart numRegular : UInt32} (below : batchStart < numRegular) :
    (min kMultiStreamWidth (numRegular - batchStart)).toNat =
      min 8 (numRegular.toNat - batchStart.toNat) := by
  rw [min_toNat, UInt32.toNat_sub_of_le _ _ (UInt32.le_of_lt below)]
  rfl

/-- The batches decode the regular blocks one after the other. -/
theorem decodeBatches_eq {blocks : List AddressBlock} {numRegular totalRecords : UInt32}
    {fuel : ℕ} {batchStart : UInt32} {out : List AddressEntry}
    (small : layout.bitWidth.toNat ≤ 32)
    (streams : numRegular = 0 ∨ layout.blockGranularity.toNat < 2 ^ 29)
    (batches : numRegular.toNat + 8 ≤ 2 ^ 32) (given : numRegular.toNat ≤ blocks.length)
    (room : numRegular.toNat * layout.blockGranularity.toNat ≤ totalRecords.toNat)
    (holds : ∀ block ∈ blocks.take numRegular.toNat,
      HoldsFields layout layout.blockGranularity.toNat block)
    (started : 0 < fuel) (enough : numRegular.toNat < batchStart.toNat + fuel)
    (sofar : out = decodedRegular layout (blocks.take (min batchStart.toNat numRegular.toNat))) :
    decodeBatches build layout blocks numRegular totalRecords fuel batchStart out =
      .ok (decodedRegular layout (blocks.take numRegular.toNat)) := by
  induction fuel generalizing batchStart out with
  | zero => omega
  | succ fuel ih =>
      rw [decodeBatches]
      by_cases more : batchStart < numRegular
      · have below := UInt32.lt_iff_toNat_lt.1 more
        have some : numRegular ≠ 0 := by
          intro none
          rw [none] at below
          exact absurd below (by simp)
        have before : min batchStart.toNat numRegular.toNat = batchStart.toNat := by omega
        have next : (batchStart + kMultiStreamWidth).toNat = batchStart.toNat + 8 := by
          rw [UInt32.toNat_add, kMultiStreamWidth]
          exact Nat.mod_eq_of_lt (by simp only [UInt32.reduceToNat]; omega)
        rw [if_pos more]
        dsimp only
        rw [batchBlocks_toNat more]
        set batch := (blocks.drop batchStart.toNat).take
          (min 8 (numRegular.toNat - batchStart.toNat)) with batchDef
        have joined : blocks.take batchStart.toNat ++ batch =
            blocks.take (min (batchStart.toNat + 8) numRegular.toNat) := by
          rw [batchDef, ← List.take_add]
          congr 1
          omega
        have length : batch.length = min 8 (numRegular.toNat - batchStart.toNat) := by
          rw [batchDef, List.length_take, List.length_drop]
          omega
        have inBatch : ∀ block ∈ batch, HoldsFields layout layout.blockGranularity.toNat block := by
          intro block mem
          have inJoined := List.mem_append_right (blocks.take batchStart.toNat) mem
          rw [joined] at inJoined
          exact holds block (List.take_subset_take_left blocks (by omega) inJoined)
        rw [decodeMultiStream_eq build small (by omega) (streams.resolve_left some) inBatch]
        simp only [Except.bind]
        have written : out ++ decodedRegular layout batch = decodedRegular layout
            (blocks.take (min (batchStart.toNat + 8) numRegular.toNat)) := by
          rw [sofar, before, ← decodedRegular_append, joined]
        have fits : ¬ totalRecords.toNat < out.length + (decodedRegular layout batch).length := by
          rw [← List.length_append, written, decodedRegular_length, List.length_take]
          have := Nat.mul_le_mul_right layout.blockGranularity.toNat
            (show min (min (batchStart.toNat + 8) numRegular.toNat) blocks.length ≤
              numRegular.toNat by omega)
          omega
        rw [if_neg fits]
        exact ih (by omega) (by omega) (by rw [written, next])
      · rw [if_neg more, sofar]
        have past : numRegular.toNat ≤ batchStart.toNat := by
          rw [UInt32.lt_iff_toNat_lt] at more
          omega
        rw [Nat.min_eq_right past]

/-- What a round of the loop that ends well did. -/
theorem decodeBatches_step {blocks : List AddressBlock} {numRegular totalRecords : UInt32}
    {fuel : ℕ} {batchStart : UInt32} {out res : List AddressEntry}
    (ok : decodeBatches build layout blocks numRegular totalRecords fuel batchStart out = .ok res)
    (more : batchStart < numRegular) :
    ∃ fuel' entries, fuel = fuel' + 1 ∧
      decodeMultiStream build layout ((blocks.drop batchStart.toNat).take
        (min 8 (numRegular.toNat - batchStart.toNat))) = .ok entries ∧
      out.length + entries.length ≤ totalRecords.toNat ∧
      decodeBatches build layout blocks numRegular totalRecords fuel'
        (batchStart + kMultiStreamWidth) (out ++ entries) = .ok res := by
  cases fuel with
  | zero => cases ok
  | succ fuel =>
      rw [decodeBatches, if_pos more] at ok
      dsimp only at ok
      rw [batchBlocks_toNat more] at ok
      cases decoded : decodeMultiStream build layout ((blocks.drop batchStart.toNat).take
          (min 8 (numRegular.toNat - batchStart.toNat))) with
      | error e =>
          rw [decoded] at ok
          cases ok
      | ok entries =>
          rw [decoded] at ok
          simp only [Except.bind] at ok
          by_cases tooMany : totalRecords.toNat < out.length + entries.length
          · rw [if_pos tooMany] at ok
            cases ok
          · rw [if_neg tooMany] at ok
            exact ⟨fuel, entries, rfl, rfl, by omega, ok⟩

/-- The batch counter must not wrap: a second pass over the blocks has no room. -/
theorem decodeBatches_bound {blocks : List AddressBlock} {numRegular totalRecords : UInt32}
    {fuel : ℕ} {batchStart : UInt32} {out res : List AddressEntry}
    (given : numRegular.toNat ≤ blocks.length) (some : 0 < layout.blockGranularity.toNat)
    (more : batchStart < numRegular) (whole : 8 ∣ batchStart.toNat)
    (written : out.length = batchStart.toNat * layout.blockGranularity.toNat)
    (ok : decodeBatches build layout blocks numRegular totalRecords fuel batchStart out = .ok res) :
    numRegular.toNat + 8 ≤ 2 ^ 32 := by
  induction fuel generalizing batchStart out with
  | zero => cases ok
  | succ fuel ih =>
      obtain ⟨fuel', entries, same, decoded, room, rest⟩ := decodeBatches_step build ok more
      obtain rfl : fuel = fuel' := by omega
      have below := UInt32.lt_iff_toNat_lt.1 more
      have length := decodeMultiStream_length build decoded
      rw [List.length_take, List.length_drop,
        Nat.min_eq_left (by omega : min 8 (numRegular.toNat - batchStart.toNat) ≤ _)] at length
      have next : (batchStart + kMultiStreamWidth).toNat = (batchStart.toNat + 8) % 2 ^ 32 := by
        rw [UInt32.toNat_add, kMultiStreamWidth]
        rfl
      have written' : (out ++ entries).length =
          (batchStart.toNat + min 8 (numRegular.toNat - batchStart.toNat)) *
            layout.blockGranularity.toNat := by
        rw [List.length_append, written, length, Nat.add_mul]
      by_cases wraps : batchStart.toNat + 8 < 2 ^ 32
      · rw [Nat.mod_eq_of_lt wraps] at next
        by_cases again : batchStart.toNat + 8 < numRegular.toNat
        · refine ih (UInt32.lt_iff_toNat_lt.2 (by omega)) (by omega) ?_ rest
          rw [written', next, Nat.min_eq_left (by omega)]
        · omega
      · have bound := batchStart.toNat_lt
        have start : (batchStart + kMultiStreamWidth).toNat = 0 := by omega
        obtain ⟨_, entries', -, decoded', room', -⟩ :=
          decodeBatches_step build rest (UInt32.lt_iff_toNat_lt.2 (by rw [start]; omega))
        have length' := decodeMultiStream_length build decoded'
        rw [start, List.length_take, List.length_drop,
          show min (min 8 (numRegular.toNat - 0)) (blocks.length - 0) = 8 by omega] at length'
        rw [written', length', ← Nat.add_mul] at room'
        have small := totalRecords.toNat_lt
        have large := Nat.le_mul_of_pos_right (batchStart.toNat +
          min 8 (numRegular.toNat - batchStart.toNat) + 8) some
        omega

/-! ## All blocks -/

/-- `has_separate_tail`. -/
def SeparateTail (layout : AddressColumnLayout) (totalRecords : UInt32) : Prop :=
  blockRecordCount layout totalRecords (layout.numAddressBlocks - 1) < layout.blockGranularity ∨
    layout.lastPackedSize ≠ layout.fixedPackedSize

instance (layout : AddressColumnLayout) (totalRecords : UInt32) :
    Decidable (SeparateTail layout totalRecords) := inferInstanceAs (Decidable (_ ∨ _))

/-- `num_regular_blocks`. -/
def regularBlocks (layout : AddressColumnLayout) (totalRecords : UInt32) : UInt32 :=
  if SeparateTail layout totalRecords then layout.numAddressBlocks - 1
  else layout.numAddressBlocks

/-- The blocks cover the records: all but the last are whole, and the last is not empty. -/
structure Covers (layout : AddressColumnLayout) (blocks : List AddressBlock)
    (totalRecords : UInt32) : Prop where
  length : blocks.length = layout.numAddressBlocks.toNat
  granularity : 0 < layout.blockGranularity.toNat
  before : (layout.numAddressBlocks.toNat - 1) * layout.blockGranularity.toNat <
    totalRecords.toNat
  upto : totalRecords.toNat ≤
    layout.numAddressBlocks.toNat * layout.blockGranularity.toNat

theorem Covers.some {blocks : List AddressBlock} {totalRecords : UInt32}
    (covers : Covers layout blocks totalRecords) : 0 < layout.numAddressBlocks.toNat := by
  have before := covers.before
  have upto := covers.upto
  by_contra none
  rw [show layout.numAddressBlocks.toNat = 0 by omega, Nat.zero_mul] at upto
  omega

theorem Covers.pred_toNat {blocks : List AddressBlock} {totalRecords : UInt32}
    (covers : Covers layout blocks totalRecords) :
    (layout.numAddressBlocks - 1).toNat = layout.numAddressBlocks.toNat - 1 := by
  have := covers.some
  exact UInt32.toNat_sub_of_le _ _
    (UInt32.le_iff_toNat_le.2 (by simp only [UInt32.reduceToNat]; omega))

/-- The records of the last block. -/
theorem Covers.tailCount {blocks : List AddressBlock} {totalRecords : UInt32}
    (covers : Covers layout blocks totalRecords) :
    (blockRecordCount layout totalRecords (layout.numAddressBlocks - 1)).toNat =
      totalRecords.toNat -
        (layout.numAddressBlocks.toNat - 1) * layout.blockGranularity.toNat := by
  have some := covers.some
  have before := covers.before
  have pred := covers.pred_toNat
  have small := totalRecords.toNat_lt
  have last : layout.numAddressBlocks - 1 + 1 = layout.numAddressBlocks := by simp
  have product : ((layout.numAddressBlocks - 1).toUInt64 *
      layout.blockGranularity.toUInt64).toNat =
      (layout.numAddressBlocks.toNat - 1) * layout.blockGranularity.toNat := by
    rw [UInt64.toNat_mul, UInt32.toNat_toUInt64, UInt32.toNat_toUInt64, pred]
    exact Nat.mod_eq_of_lt (by omega)
  unfold blockRecordCount
  rw [if_neg (by rw [UInt32.le_iff_toNat_le]; omega),
    if_neg (by intro none; rw [none] at some; exact absurd some (by simp)), last,
    if_neg (by rw [UInt32.lt_iff_toNat_lt]; omega)]
  dsimp only
  rw [if_neg (by rw [UInt64.le_iff_toNat_le, product, UInt32.toNat_toUInt64]; omega)]
  have narrowed : ((layout.numAddressBlocks - 1).toUInt64 *
      layout.blockGranularity.toUInt64).toUInt32.toNat =
      (layout.numAddressBlocks.toNat - 1) * layout.blockGranularity.toNat := by
    rw [UInt64.toNat_toUInt32, product]
    exact Nat.mod_eq_of_lt (by omega)
  rw [UInt32.toNat_sub_of_le _ _ (by rw [UInt32.le_iff_toNat_le, narrowed]; omega), narrowed]

theorem Covers.regular_le {blocks : List AddressBlock} {totalRecords : UInt32}
    (covers : Covers layout blocks totalRecords) :
    (regularBlocks layout totalRecords).toNat ≤ blocks.length := by
  rw [covers.length, regularBlocks]
  split
  · rw [covers.pred_toNat]
    omega
  · exact Nat.le_refl _

theorem Covers.regular_room {blocks : List AddressBlock} {totalRecords : UInt32}
    (covers : Covers layout blocks totalRecords) :
    (regularBlocks layout totalRecords).toNat * layout.blockGranularity.toNat ≤
      totalRecords.toNat := by
  have before := covers.before
  unfold regularBlocks
  split
  · rw [covers.pred_toNat]
    omega
  · rename_i together
    have tail := covers.tailCount
    have whole : ¬ blockRecordCount layout totalRecords (layout.numAddressBlocks - 1) <
        layout.blockGranularity := fun short => together (.inl short)
    rw [UInt32.lt_iff_toNat_lt, tail] at whole
    have split : layout.numAddressBlocks.toNat * layout.blockGranularity.toNat =
        (layout.numAddressBlocks.toNat - 1) * layout.blockGranularity.toNat +
          layout.blockGranularity.toNat := by
      rw [← Nat.succ_mul]
      congr 1
      have := covers.some
      omega
    omega

/-- `DecodeBatchBlocks` past its checks. -/
theorem Covers.decode {blocks : List AddressBlock} {totalRecords : UInt32}
    (covers : Covers layout blocks totalRecords) :
    decodeBatchBlocks build layout blocks totalRecords =
      (decodeBatches build layout blocks (regularBlocks layout totalRecords) totalRecords
        (totalRecords.toNat + 1) 0 []).bind fun out =>
          if SeparateTail layout totalRecords then
            (decodeSingleBlock build layout (blocks.getLastD ⟨0, .zeros 0⟩)
              (blockRecordCount layout totalRecords (layout.numAddressBlocks - 1))).bind
              fun tail =>
                if totalRecords.toNat < out.length + tail.length then .error .outOfBounds
                else if out.length + tail.length ≠ totalRecords.toNat then
                  Status.corruption "Decoded address count mismatch"
                else .ok (out ++ tail)
          else if out.length ≠ totalRecords.toNat then
            Status.corruption "Decoded address count mismatch"
          else .ok out := by
  have some := covers.some
  have granularity := covers.granularity
  unfold decodeBatchBlocks
  rw [if_neg (by rw [covers.length]; simp),
    if_neg (by intro none; rw [none] at some; exact absurd some (by simp)),
    if_neg (by intro none; rw [none] at granularity; exact absurd granularity (by simp))]
  rfl

/-- A decode that ends well had regular blocks small and few enough. -/
theorem Covers.bounds_of_ok {blocks : List AddressBlock} {totalRecords : UInt32}
    (covers : Covers layout blocks totalRecords) {res : List AddressEntry}
    (ok : decodeBatchBlocks build layout blocks totalRecords = .ok res) :
    ((regularBlocks layout totalRecords).toNat = 0 ∨ layout.blockGranularity.toNat < 2 ^ 29) ∧
      (regularBlocks layout totalRecords).toNat + 8 ≤ 2 ^ 32 := by
  rw [covers.decode build] at ok
  cases batches : decodeBatches build layout blocks (regularBlocks layout totalRecords)
      totalRecords (totalRecords.toNat + 1) 0 [] with
  | error e =>
      rw [batches] at ok
      cases ok
  | ok out =>
      by_cases none : (regularBlocks layout totalRecords).toNat = 0
      · exact ⟨.inl none, by omega⟩
      · have more : 0 < regularBlocks layout totalRecords := by
          rw [UInt32.lt_iff_toNat_lt]
          simpa using Nat.pos_of_ne_zero none
        refine ⟨.inr ?_, decodeBatches_bound build covers.regular_le covers.granularity more
          (by simp) (by simp) batches⟩
        obtain ⟨_, entries, -, decoded, -⟩ := decodeBatches_step build batches more
        by_contra large
        exact decodeMultiStream_outOfBounds build _ (by omega) entries decoded

/-- The records of block `b`. -/
def countOf (layout : AddressColumnLayout) (totalRecords : UInt32) (b : ℕ) : ℕ :=
  min layout.blockGranularity.toNat (totalRecords.toNat - b * layout.blockGranularity.toNat)

/-- The entries of the first `n` blocks. -/
def decodedBlocks (layout : AddressColumnLayout) (blocks : List AddressBlock)
    (totalRecords : UInt32) (n : ℕ) : List AddressEntry :=
  (List.range n).flatMap fun b =>
    decodedBlock layout (blocks.getD b ⟨0, .zeros 0⟩) (countOf layout totalRecords b)

theorem Covers.decodedRegular_eq {blocks : List AddressBlock} {totalRecords : UInt32}
    (covers : Covers layout blocks totalRecords) :
    decodedRegular layout (blocks.take (regularBlocks layout totalRecords).toNat) =
      decodedBlocks layout blocks totalRecords (regularBlocks layout totalRecords).toNat := by
  have given := covers.regular_le
  have room := covers.regular_room
  rw [decodedRegular, flatMap_getD _ _ ⟨0, .zeros 0⟩, List.length_take, Nat.min_eq_left given]
  refine List.flatMap_congr fun b mem => ?_
  have below := List.mem_range.1 mem
  have whole : countOf layout totalRecords b = layout.blockGranularity.toNat := by
    have next := Nat.mul_le_mul_right layout.blockGranularity.toNat
      (show b + 1 ≤ (regularBlocks layout totalRecords).toNat by omega)
    rw [Nat.add_mul, Nat.one_mul] at next
    rw [countOf]
    omega
  rw [whole]
  congr 1
  simp [List.getD, below]

/-- **The decoded column is its blocks' entries in order.** -/
theorem Covers.decode_eq {blocks : List AddressBlock} {totalRecords : UInt32}
    (covers : Covers layout blocks totalRecords) (small : layout.bitWidth.toNat ≤ 32)
    (streams : (regularBlocks layout totalRecords).toNat = 0 ∨
      layout.blockGranularity.toNat < 2 ^ 29)
    (batches : (regularBlocks layout totalRecords).toNat + 8 ≤ 2 ^ 32)
    (tail : totalRecords.toNat + layout.blockGranularity.toNat ≤ 2 ^ 32)
    (holds : ∀ b, b < layout.numAddressBlocks.toNat →
      HoldsFields layout (countOf layout totalRecords b) (blocks.getD b ⟨0, .zeros 0⟩)) :
    decodeBatchBlocks build layout blocks totalRecords =
      .ok (decodedBlocks layout blocks totalRecords layout.numAddressBlocks.toNat) := by
  have some := covers.some
  have granularity := covers.granularity
  have before := covers.before
  have upto := covers.upto
  have given := covers.regular_le
  have room := covers.regular_room
  have lastRow : layout.numAddressBlocks.toNat * layout.blockGranularity.toNat =
      (layout.numAddressBlocks.toNat - 1) * layout.blockGranularity.toNat +
        layout.blockGranularity.toNat := by
    rw [← Nat.succ_mul]
    congr 1
    omega
  have count_le := Nat.le_mul_of_pos_right (regularBlocks layout totalRecords).toNat granularity
  have regularHolds : ∀ block ∈ blocks.take (regularBlocks layout totalRecords).toNat,
      HoldsFields layout layout.blockGranularity.toNat block := by
    intro block mem
    obtain ⟨b, below, rfl⟩ := List.mem_take_iff_getElem.1 mem
    have next := Nat.mul_le_mul_right layout.blockGranularity.toNat
      (show b + 1 ≤ (regularBlocks layout totalRecords).toNat by omega)
    rw [Nat.add_mul, Nat.one_mul] at next
    have held := holds b (by rw [covers.length] at below given; omega)
    rw [countOf, Nat.min_eq_left (by omega)] at held
    have here : blocks.getD b ⟨0, .zeros 0⟩ = blocks[b] := by
      simp [List.getD, show b < blocks.length by omega]
    rwa [here] at held
  rw [covers.decode build, decodeBatches_eq build small
    (streams.imp_left fun none => UInt32.toNat_inj.1 (by simpa using none)) batches given room
    regularHolds (by omega) (by simp only [UInt32.reduceToNat]; omega)
    (by simp [decodedRegular]), covers.decodedRegular_eq]
  simp only [Except.bind]
  have regularLength : (decodedBlocks layout blocks totalRecords
      (regularBlocks layout totalRecords).toNat).length =
      (regularBlocks layout totalRecords).toNat * layout.blockGranularity.toNat := by
    rw [← covers.decodedRegular_eq, decodedRegular_length, List.length_take,
      Nat.min_eq_left given]
  by_cases separate : SeparateTail layout totalRecords
  · have regular : (regularBlocks layout totalRecords).toNat =
        layout.numAddressBlocks.toNat - 1 := by
      rw [regularBlocks, if_pos separate, covers.pred_toNat]
    have tailCount := covers.tailCount
    have lastCount : countOf layout totalRecords (layout.numAddressBlocks.toNat - 1) =
        (blockRecordCount layout totalRecords (layout.numAddressBlocks - 1)).toNat := by
      rw [countOf, tailCount]
      omega
    have last : blocks.getLastD ⟨0, .zeros 0⟩ =
        blocks.getD (layout.numAddressBlocks.toNat - 1) ⟨0, .zeros 0⟩ := by
      rw [← covers.length, List.getLastD_eq_getLast?, List.getLast?_eq_getElem?]
      rfl
    have lastHolds := holds (layout.numAddressBlocks.toNat - 1) (by omega)
    rw [lastCount, ← last] at lastHolds
    have whole : decodedBlocks layout blocks totalRecords layout.numAddressBlocks.toNat =
        decodedBlocks layout blocks totalRecords (regularBlocks layout totalRecords).toNat ++
          decodedBlock layout (blocks.getLastD ⟨0, .zeros 0⟩)
            (blockRecordCount layout totalRecords (layout.numAddressBlocks - 1)).toNat := by
      conv_lhs => rw [show layout.numAddressBlocks.toNat =
        layout.numAddressBlocks.toNat - 1 + 1 by omega]
      rw [regular, decodedBlocks, List.range_succ, List.flatMap_append, List.flatMap_singleton,
        lastCount, ← last]
      rfl
    rw [if_pos separate, decodeSingleBlock_eq build small (by omega) lastHolds]
    simp only
    rw [regularLength, decodedBlock_length, tailCount, regular, if_neg (by omega),
      if_neg (by omega), ← tailCount, ← regular, ← whole]
  · have regular : (regularBlocks layout totalRecords).toNat =
        layout.numAddressBlocks.toNat := by
      rw [regularBlocks, if_neg separate]
    rw [regular] at room
    rw [if_neg separate, regularLength, regular, if_neg (by omega)]

end Decoders

end VecFetch.Storage
