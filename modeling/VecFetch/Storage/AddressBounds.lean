/-
# Storage.AddressBounds -- when a batched decode stays inside its buffers

`DecodeBatchBlocks` decodes the regular blocks before it compares counts, so a layout whose
regular blocks hold more than the records writes past its output, and nothing compares a
block's bytes with what `BitUnpack` reads of it.  What must hold of the layout and the
blocks is `BatchesInside`, and it is exactly what must hold.
-/
import VecFetch.Storage.AddressDecode

namespace VecFetch.Storage

open VecFetch.Theory VecFetch.Simd VecFetch.Codec VecFetch.Query

set_option autoImplicit false

/-! ## The bytes of a block -/

/-- The bytes `BitUnpack` reads for `count` fields: bit positions are a `uint32_t`. -/
def bytesRead (count : ℕ) (bitWidth : UInt8) : ℕ :=
  (min (count * bitWidth.toNat) (2 ^ 32) + 7) / 8

theorem bytesRead_le_iff {count : ℕ} {bitWidth : UInt8} {size : ℕ} :
    bytesRead count bitWidth ≤ size ↔
      ∀ i, i < count → ∀ b, b < bitWidth.toNat → place bitWidth.toNat i b / 8 < size := by
  constructor
  · intro fits i below b width
    have inside := place_lt below width
    have wrapped : place bitWidth.toNat i b < 2 ^ 32 := Nat.mod_lt _ (by decide)
    rw [bytesRead] at fits
    omega
  · intro inside
    rw [bytesRead]
    by_cases none : count * bitWidth.toNat = 0
    · omega
    · -- the last position read is that of a field and a bit
      have positive : 0 < bitWidth.toNat := Nat.pos_of_ne_zero (right_ne_zero_of_mul none)
      set last := min (count * bitWidth.toNat) (2 ^ 32) - 1 with final
      have below : last / bitWidth.toNat < count := by
        apply (Nat.div_lt_iff_lt_mul positive).2
        omega
      have read := inside _ below _ (Nat.mod_lt last positive)
      have position : place bitWidth.toNat (last / bitWidth.toNat) (last % bitWidth.toNat) =
          last := by
        rw [place, Nat.div_add_mod']
        exact Nat.mod_eq_of_lt (by omega)
      rw [position] at read
      omega

/-- A load that succeeds is inside. -/
theorem inside_of_load {packed : Buffer} {off n : ℕ} {bytes : ℕ → UInt8}
    (loaded : packed.load off n = some bytes) : off + n ≤ packed.size := by
  by_contra outside
  rw [Buffer.load_outside (by omega)] at loaded
  cases loaded

/-- A value that was read had its bytes inside. -/
theorem readBits_inside {packed : Buffer} {bitWidth fuel val bitsRead start v : ℕ}
    {curBit : UInt32} (enough : bitWidth ≤ fuel + bitsRead)
    (position : curBit.toNat = (start + bitsRead) % 2 ^ 32)
    (ok : readBits packed bitWidth fuel val bitsRead curBit = some v) {b : ℕ}
    (after : bitsRead ≤ b) (width : b < bitWidth) :
    (start + b) % 2 ^ 32 / 8 < packed.size := by
  induction fuel generalizing val bitsRead curBit with
  | zero => omega
  | succ fuel ih =>
      rw [readBits, if_pos (by omega)] at ok
      dsimp only at ok
      cases loaded : packed.load (curBit.toNat / 8) 1 with
      | none =>
          rw [loaded] at ok
          cases ok
      | some bytes =>
          rw [loaded, Option.bind_some] at ok
          have small := curBit.toNat_lt
          have inside := inside_of_load loaded
          by_cases inChunk : b < bitsRead + min (bitWidth - bitsRead) (8 - curBit.toNat % 8)
          · have here : (start + b) % 2 ^ 32 = curBit.toNat + (b - bitsRead) := by
              have split : start + b = start + bitsRead + (b - bitsRead) := by omega
              rw [split, Nat.add_mod, ← position, Nat.add_mod_mod]
              exact Nat.mod_eq_of_lt (by omega)
            omega
          · refine ih ?_ ?_ ok (by omega)
            · omega
            · rw [add_ofNat_toNat, position, Nat.mod_add_mod, Nat.add_assoc]

theorem unpackScalar_inside {packed : Buffer} {bitWidth : UInt8} {i : ℕ} :
    (∃ v, unpackScalar packed bitWidth i = some v) ↔
      ∀ b, b < bitWidth.toNat → place bitWidth.toNat i b / 8 < packed.size := by
  constructor
  · rintro ⟨v, ok⟩ b width
    obtain ⟨n, read, _⟩ := Option.map_eq_some_iff.1 ok
    exact readBits_inside (by omega) (by rw [UInt32.toNat_ofNat', Nat.add_zero]) read
      (Nat.zero_le b) width
  · intro inside
    obtain ⟨v, read, _⟩ := @readBits_spec packed bitWidth.toNat bitWidth.toNat 0 0
      (i * bitWidth.toNat) (UInt32.ofNat (i * bitWidth.toNat)) (by omega) (by omega)
      (by rw [UInt32.toNat_ofNat', Nat.add_zero]) inside (by simp)
    exact ⟨UInt32.ofNat v, by rw [unpackScalar, read, Option.map_some]⟩

/-- **What `BitUnpack` reads**, in every build. -/
theorem unpackValue_inside (build : Build) {packed : Buffer} {bitWidth : UInt8} {count : ℕ}
    (countFits : count < 2 ^ 32) :
    (∀ i, i < count → ∃ v, unpackValue build packed bitWidth count i = some v) ↔
      bytesRead count bitWidth ≤ packed.size := by
  have scalar : (∀ i, i < count → ∃ v, unpackScalar packed bitWidth i = some v) ↔
      bytesRead count bitWidth ≤ packed.size := by
    rw [bytesRead_le_iff]
    exact forall₂_congr fun _ _ => unpackScalar_inside
  have oneBit : bitWidth = 1 → bytesRead count bitWidth = (count + 7) / 8 := by
    rintro rfl
    rw [bytesRead, show (1 : UInt8).toNat = 1 from rfl]
    omega
  cases build with
  | scalar => exact scalar
  | avx2 =>
      by_cases one : bitWidth = 1
      · simp only [unpackValue, one, if_true, unpack1BitAvx2]
        rw [← one, oneBit one]
        constructor
        · intro read
          by_cases none : count = 0
          · omega
          · obtain ⟨v, ok⟩ := read (count - 1) (by omega)
            split at ok
            · obtain ⟨bytes, loaded, _⟩ := Option.map_eq_some_iff.1 ok
              have inside := inside_of_load loaded
              omega
            · obtain ⟨bytes, loaded, _⟩ := Option.map_eq_some_iff.1 ok
              have inside := inside_of_load loaded
              omega
        · intro fits i below
          split
          · rw [Buffer.load_inside (by omega)]
            exact ⟨_, rfl⟩
          · rw [Buffer.load_inside (by omega)]
            exact ⟨_, rfl⟩
      · simp only [unpackValue, one, if_false]
        exact scalar
  | avx512 =>
      by_cases one : bitWidth = 1
      · simp only [unpackValue, one, if_true, unpack1BitAvx512]
        rw [← one, oneBit one]
        constructor
        · intro read
          by_cases none : count = 0
          · omega
          · obtain ⟨v, ok⟩ := read (count - 1) (by omega)
            split at ok
            · obtain ⟨bytes, loaded, _⟩ := Option.map_eq_some_iff.1 ok
              have inside := inside_of_load loaded
              omega
            · obtain ⟨bytes, loaded, _⟩ := Option.map_eq_some_iff.1 ok
              have inside := inside_of_load loaded
              omega
        · intro fits i below
          split
          · rw [Buffer.load_inside (by omega)]
            exact ⟨_, rfl⟩
          · rw [Buffer.load_inside (by omega)]
            exact ⟨_, rfl⟩
      · simp only [unpackValue, one, if_false]
        exact scalar

/-! ## The decoders -/

section Decoders

variable (build : Build) {layout : AddressColumnLayout}

/-- A call whose only failure is an access outside. -/
def OnlyOutside {α : Type} (r : Result α) : Prop := ∀ e, r = .error e → e = .outOfBounds

theorem emitRange_onlyOutside {α : Type} {body : ℕ → Result (List α)} {n : ℕ}
    (each : ∀ i, OnlyOutside (body i)) : OnlyOutside (emitRange body n) := by
  induction n with
  | zero =>
      intro e failed
      cases failed
  | succ n ih =>
      intro e failed
      rw [emitRange] at failed
      cases before : emitRange body n with
      | error e' =>
          rw [before] at failed
          cases failed
          exact ih e before
      | ok out =>
          rw [before] at failed
          cases here : body n with
          | error e' =>
              rw [Except.bind, here] at failed
              cases failed
              exact each n e here
          | ok part =>
              rw [Except.bind, here] at failed
              cases failed

theorem unpackBlock_onlyOutside (count : ℕ) (block : AddressBlock) :
    OnlyOutside (unpackBlock build layout count block) := by
  apply emitRange_onlyOutside
  intro i e failed
  cases read : unpackValue build block.packed layout.bitWidth count i with
  | none =>
      rw [read] at failed
      cases failed
      rfl
  | some v =>
      rw [read] at failed
      cases failed

theorem unpackBlock_inside {count : ℕ} (countFits : count < 2 ^ 32) (block : AddressBlock) :
    (∃ sizes, unpackBlock build layout count block = .ok sizes) ↔
      bytesRead count layout.bitWidth ≤ block.packed.size := by
  rw [← unpackValue_inside build countFits]
  constructor
  · rintro ⟨sizes, ok⟩ i below
    obtain ⟨parts, each, _⟩ := emitRange_parts ok
    have here := each i below
    cases read : unpackValue build block.packed layout.bitWidth count i with
    | none =>
        rw [read] at here
        cases here
    | some v => exact ⟨v, rfl⟩
  · intro read
    choose! value values using read
    refine ⟨_, @emitRange_ok _ _ _ _ (fun i => [value i]) fun i below => ?_⟩
    rw [values i below]
    rfl

/-- The longest block `DecodeSingleBlock` decodes: its scratch vectors and the AVX2 prefix
sums count in a `uint32_t`. -/
def longestBlock : Build → ℕ
  | .scalar => 2 ^ 32 - 8
  | _ => 2 ^ 32 - 9

/-- **A single block** is decoded if it is not too long and holds its bytes. -/
theorem decodeSingleBlock_inside (block : AddressBlock) (recordCount : UInt32) :
    (∃ entries, decodeSingleBlock build layout block recordCount = .ok entries) ↔
      (0 < recordCount.toNat → recordCount.toNat ≤ longestBlock build ∧
        bytesRead recordCount.toNat layout.bitWidth ≤ block.packed.size) := by
  have fits := recordCount.toNat_lt
  have sum : ((recordCount + 7) / 8 * 8).toNat =
      (recordCount.toNat + 7) % 2 ^ 32 / 8 * 8 := by
    rw [UInt32.toNat_mul, UInt32.toNat_div, UInt32.toNat_add]
    simp only [UInt32.reduceToNat]
    omega
  have long : ((recordCount + 7) / 8 * 8 < recordCount ∨
      build ≠ .scalar ∧ recordCount = 0xFFFFFFF8) ↔ longestBlock build < recordCount.toNat := by
    rw [UInt32.lt_iff_toNat_lt, sum, ← UInt32.toNat_inj]
    simp only [UInt32.reduceToNat]
    cases build with
    | scalar =>
        simp only [longestBlock, ne_eq, not_true_eq_false, false_and, or_false]
        omega
    | avx2 | avx512 =>
        simp only [longestBlock, ne_eq, reduceCtorEq, not_false_eq_true, true_and]
        omega
  unfold decodeSingleBlock
  by_cases none : recordCount = 0
  · rw [if_pos none, none]
    simp
  · have some : 0 < recordCount.toNat := by
      apply Nat.pos_of_ne_zero
      intro zero
      exact none (UInt32.toNat_inj.1 zero)
    rw [if_neg none]
    dsimp only
    rw [← unpackBlock_inside build fits]
    by_cases tooLong : longestBlock build < recordCount.toNat
    · rw [if_pos (long.2 tooLong)]
      constructor
      · rintro ⟨entries, failed⟩
        cases failed
      · intro both
        exact absurd (both some).1 (Nat.not_le.2 tooLong)
    · rw [if_neg fun outside => tooLong (long.1 outside)]
      constructor
      · rintro ⟨entries, ok⟩ _
        cases unpacked : unpackBlock build layout recordCount.toNat block with
        | error e =>
            rw [unpacked] at ok
            cases ok
        | ok sizes => exact ⟨Nat.not_lt.1 tooLong, sizes, rfl⟩
      · intro both
        obtain ⟨_, sizes, unpacked⟩ := both some
        rw [unpacked]
        exact ⟨_, rfl⟩

theorem decodeSingleBlock_onlyOutside (block : AddressBlock) (recordCount : UInt32) :
    OnlyOutside (decodeSingleBlock build layout block recordCount) := by
  intro e failed
  unfold decodeSingleBlock at failed
  dsimp only at failed
  split at failed
  · cases failed
  · split at failed
    · cases failed
      rfl
    · cases unpacked : unpackBlock build layout recordCount.toNat block with
      | error e' =>
          rw [unpacked] at failed
          cases failed
          exact unpackBlock_onlyOutside build _ _ _ unpacked
      | ok sizes =>
          rw [unpacked] at failed
          cases failed

theorem decodeSingleBlock_length {block : AddressBlock} {recordCount : UInt32}
    {entries : List AddressEntry}
    (ok : decodeSingleBlock build layout block recordCount = .ok entries) :
    entries.length = recordCount.toNat := by
  unfold decodeSingleBlock at ok
  dsimp only at ok
  split at ok
  · rename_i none
    cases ok
    rw [none]
    rfl
  · split at ok
    · cases ok
    · cases unpacked : unpackBlock build layout recordCount.toNat block with
      | error e =>
          rw [unpacked] at ok
          cases ok
      | ok sizes =>
          rw [unpacked] at ok
          cases ok
          rw [List.length_map, List.length_range]

theorem unpackStreams_inside (blocks : List AddressBlock) :
    (∃ streams, unpackStreams build layout blocks = .ok streams) ↔
      ∀ block ∈ blocks,
        bytesRead layout.blockGranularity.toNat layout.bitWidth ≤ block.packed.size := by
  induction blocks with
  | nil => exact ⟨fun _ block mem => absurd mem List.not_mem_nil, fun _ => ⟨[], rfl⟩⟩
  | cons block blocks ih =>
      rw [List.forall_mem_cons, ← ih,
        ← unpackBlock_inside build layout.blockGranularity.toNat_lt block]
      constructor
      · rintro ⟨streams, ok⟩
        rw [unpackStreams] at ok
        cases first : unpackBlock build layout layout.blockGranularity.toNat block with
        | error e =>
            rw [first] at ok
            cases ok
        | ok sizes =>
            rw [first] at ok
            cases rest : unpackStreams build layout blocks with
            | error e =>
                rw [rest] at ok
                cases ok
            | ok streams => exact ⟨⟨sizes, rfl⟩, streams, rfl⟩
      · rintro ⟨⟨sizes, first⟩, streams, rest⟩
        rw [unpackStreams, first, rest]
        exact ⟨_, rfl⟩

theorem unpackStreams_onlyOutside (blocks : List AddressBlock) :
    OnlyOutside (unpackStreams build layout blocks) := by
  induction blocks with
  | nil =>
      intro e failed
      cases failed
  | cons block blocks ih =>
      intro e failed
      rw [unpackStreams] at failed
      cases first : unpackBlock build layout layout.blockGranularity.toNat block with
      | error e' =>
          rw [first] at failed
          cases failed
          exact unpackBlock_onlyOutside build _ _ _ first
      | ok sizes =>
          rw [first] at failed
          cases rest : unpackStreams build layout blocks with
          | error e' =>
              rw [rest] at failed
              cases failed
              exact ih e rest
          | ok streams =>
              rw [rest] at failed
              cases failed

/-- **A batch of regular blocks** is decoded if the interleaved vectors are long enough and
each block holds its bytes. -/
theorem decodeMultiStream_inside (blocks : List AddressBlock) :
    (∃ entries, decodeMultiStream build layout blocks = .ok entries) ↔
      layout.blockGranularity.toNat < 2 ^ 29 ∧ ∀ block ∈ blocks,
        bytesRead layout.blockGranularity.toNat layout.bitWidth ≤ block.packed.size := by
  rw [← unpackStreams_inside build blocks]
  constructor
  · rintro ⟨entries, ok⟩
    constructor
    · by_contra large
      exact decodeMultiStream_outOfBounds build blocks (by omega) entries ok
    · unfold decodeMultiStream at ok
      dsimp only at ok
      split at ok
      · cases ok
      · cases unpacked : unpackStreams build layout blocks with
        | error e =>
            rw [unpacked] at ok
            cases ok
        | ok streams => exact ⟨streams, rfl⟩
  · rintro ⟨small, streams, unpacked⟩
    have sum : (layout.blockGranularity + 7).toNat = layout.blockGranularity.toNat + 7 := by
      rw [UInt32.toNat_add]
      exact Nat.mod_eq_of_lt (by simp only [UInt32.reduceToNat]; omega)
    have aligned : ¬ (layout.blockGranularity + 7) / 8 * 8 < layout.blockGranularity := by
      rw [UInt32.lt_iff_toNat_lt, UInt32.toNat_mul, UInt32.toNat_div, sum]
      simp only [UInt32.reduceToNat]
      omega
    unfold decodeMultiStream
    dsimp only
    rw [if_neg aligned, unpacked]
    simp only [Except.bind]
    rw [if_neg (by rw [streams_fit]; omega)]
    exact ⟨_, rfl⟩

theorem decodeMultiStream_onlyOutside (blocks : List AddressBlock) :
    OnlyOutside (decodeMultiStream build layout blocks) := by
  intro e failed
  unfold decodeMultiStream at failed
  dsimp only at failed
  split at failed
  · cases failed
    rfl
  · cases unpacked : unpackStreams build layout blocks with
    | error e' =>
        rw [unpacked] at failed
        cases failed
        exact unpackStreams_onlyOutside build _ _ unpacked
    | ok streams =>
        rw [unpacked] at failed
        simp only [Except.bind] at failed
        split at failed
        · cases failed
          rfl
        · cases failed

variable {blocks : List AddressBlock} {numRegular totalRecords : UInt32}

theorem decodeBatches_onlyOutside {fuel : ℕ} {batchStart : UInt32} {out : List AddressEntry} :
    OnlyOutside (decodeBatches build layout blocks numRegular totalRecords fuel batchStart out) := by
  induction fuel generalizing batchStart out with
  | zero =>
      intro e failed
      cases failed
      rfl
  | succ fuel ih =>
      intro e failed
      rw [decodeBatches] at failed
      split at failed
      · dsimp only at failed
        cases decoded : decodeMultiStream build layout ((blocks.drop batchStart.toNat).take
            (min kMultiStreamWidth (numRegular - batchStart)).toNat) with
        | error e' =>
            rw [decoded] at failed
            cases failed
            exact decodeMultiStream_onlyOutside build _ _ decoded
        | ok entries =>
            rw [decoded] at failed
            simp only [Except.bind] at failed
            split at failed
            · cases failed
              rfl
            · exact ih e failed
      · cases failed

/-- What is needed of the regular blocks from `batchStart` on. -/
structure RegularInside (layout : AddressColumnLayout) (blocks : List AddressBlock)
    (numRegular totalRecords : UInt32) (batchStart written : ℕ) : Prop where
  streams : layout.blockGranularity.toNat < 2 ^ 29
  bytes : ∀ b, batchStart ≤ b → b < numRegular.toNat →
    bytesRead layout.blockGranularity.toNat layout.bitWidth ≤
      (blocks.getD b ⟨0, .zeros 0⟩).packed.size
  room : written + (numRegular.toNat - batchStart) * layout.blockGranularity.toNat ≤
    totalRecords.toNat

/-- The blocks of a batch. -/
theorem mem_batch {start count : ℕ} (given : start + count ≤ blocks.length)
    {P : AddressBlock → Prop} :
    (∀ block ∈ (blocks.drop start).take count, P block) ↔
      ∀ b, start ≤ b → b < start + count → P (blocks.getD b ⟨0, .zeros 0⟩) := by
  constructor
  · intro each b low high
    apply each
    rw [List.mem_take_iff_getElem]
    refine ⟨b - start, by rw [List.length_drop]; omega, ?_⟩
    rw [List.getElem_drop, List.getD_eq_getElem?_getD, List.getElem?_eq_getElem (by omega)]
    simp [show start + (b - start) = b by omega]
  · intro each block mem
    obtain ⟨i, below, rfl⟩ := List.mem_take_iff_getElem.1 mem
    rw [List.length_drop] at below
    have here := each (start + i) (by omega) (by omega)
    rwa [List.getD_eq_getElem?_getD, List.getElem?_eq_getElem (by omega), Option.getD_some,
      ← List.getElem_drop] at here

section Loop

variable (batches : numRegular.toNat + 8 ≤ 2 ^ 32) (given : numRegular.toNat ≤ blocks.length)
  {fuel : ℕ} {batchStart : UInt32} {out : List AddressEntry}

include batches

/-- The batch counter does not wrap. -/
theorem nextBatch_toNat (more : batchStart < numRegular) :
    (batchStart + kMultiStreamWidth).toNat = batchStart.toNat + 8 := by
  have below := UInt32.lt_iff_toNat_lt.1 more
  rw [UInt32.toNat_add, kMultiStreamWidth]
  exact Nat.mod_eq_of_lt (by simp only [UInt32.reduceToNat]; omega)

include given

/-- **A loop that ends well** had what it needs. -/
theorem decodeBatches_needs {res : List AddressEntry}
    (ok : decodeBatches build layout blocks numRegular totalRecords fuel batchStart out = .ok res)
    (more : batchStart < numRegular) :
    RegularInside layout blocks numRegular totalRecords batchStart.toNat out.length := by
  induction fuel generalizing batchStart out with
  | zero => cases ok
  | succ fuel ih =>
      have below := UInt32.lt_iff_toNat_lt.1 more
      have next := nextBatch_toNat batches more
      obtain ⟨fuel', entries, same, decoded, room, tail⟩ := decodeBatches_step build ok more
      obtain rfl : fuel = fuel' := by omega
      obtain ⟨streams, bytes⟩ := (decodeMultiStream_inside build _).1 ⟨entries, decoded⟩
      rw [mem_batch (by omega)] at bytes
      have length := decodeMultiStream_length build decoded
      rw [List.length_take, List.length_drop,
        Nat.min_eq_left (by omega : min 8 (numRegular.toNat - batchStart.toNat) ≤ _)] at length
      have rest : (numRegular.toNat - batchStart.toNat) * layout.blockGranularity.toNat =
          min 8 (numRegular.toNat - batchStart.toNat) * layout.blockGranularity.toNat +
            (numRegular.toNat - (batchStart.toNat + 8)) * layout.blockGranularity.toNat := by
        rw [← Nat.add_mul]
        congr 1
        omega
      by_cases last : batchStart.toNat + 8 < numRegular.toNat
      · obtain ⟨_, bytes', room'⟩ := ih tail (by rw [UInt32.lt_iff_toNat_lt, next]; exact last)
        rw [next] at bytes' room'
        rw [List.length_append, length] at room'
        refine ⟨streams, ?_, by omega⟩
        intro b low high
        rcases Nat.lt_or_ge b (batchStart.toNat + 8) with early | late
        · exact bytes b low (by omega)
        · exact bytes' b late high
      · refine ⟨streams, fun b low high => bytes b low (by omega), ?_⟩
        rw [rest, show numRegular.toNat - (batchStart.toNat + 8) = 0 by omega]
        omega

/-- **A loop that has what it needs** ends well. -/
theorem decodeBatches_runs (started : 0 < fuel) (enough : numRegular.toNat < batchStart.toNat + fuel)
    (needs : batchStart < numRegular →
      RegularInside layout blocks numRegular totalRecords batchStart.toNat out.length) :
    ∃ res, decodeBatches build layout blocks numRegular totalRecords fuel batchStart out =
      .ok res := by
  induction fuel generalizing batchStart out with
  | zero => omega
  | succ fuel ih =>
      by_cases more : batchStart < numRegular
      · have below := UInt32.lt_iff_toNat_lt.1 more
        have next := nextBatch_toNat batches more
        obtain ⟨streams, bytes, room⟩ := needs more
        obtain ⟨entries, decoded⟩ := (decodeMultiStream_inside build
          ((blocks.drop batchStart.toNat).take (min 8 (numRegular.toNat - batchStart.toNat)))).2 (by
            rw [mem_batch (by omega)]
            exact ⟨streams, fun b low high => bytes b low (by omega)⟩)
        have length := decodeMultiStream_length build decoded
        rw [List.length_take, List.length_drop,
          Nat.min_eq_left (by omega : min 8 (numRegular.toNat - batchStart.toNat) ≤ _)] at length
        have rest : (numRegular.toNat - batchStart.toNat) * layout.blockGranularity.toNat =
            min 8 (numRegular.toNat - batchStart.toNat) * layout.blockGranularity.toNat +
              (numRegular.toNat - (batchStart.toNat + 8)) * layout.blockGranularity.toNat := by
          rw [← Nat.add_mul]
          congr 1
          omega
        rw [decodeBatches, if_pos more]
        dsimp only
        rw [batchBlocks_toNat more, decoded]
        simp only [Except.bind]
        rw [if_neg (by omega)]
        apply ih (by omega) (by omega)
        intro again
        rw [next]
        refine ⟨streams, fun b low high => bytes b (by omega) high, ?_⟩
        rw [List.length_append, length]
        omega
      · rw [decodeBatches, if_neg more]
        exact ⟨out, rfl⟩

/-- The loop writes its blocks' entries. -/
theorem decodeBatches_length {res : List AddressEntry}
    (ok : decodeBatches build layout blocks numRegular totalRecords fuel batchStart out = .ok res) :
    res.length = out.length +
      (numRegular.toNat - batchStart.toNat) * layout.blockGranularity.toNat := by
  induction fuel generalizing batchStart out with
  | zero => cases ok
  | succ fuel ih =>
      by_cases more : batchStart < numRegular
      · have below := UInt32.lt_iff_toNat_lt.1 more
        obtain ⟨fuel', entries, same, decoded, _, tail⟩ := decodeBatches_step build ok more
        obtain rfl : fuel = fuel' := by omega
        have length := decodeMultiStream_length build decoded
        rw [List.length_take, List.length_drop, Nat.min_eq_left (by omega)] at length
        rw [ih tail, List.length_append, length, nextBatch_toNat batches more, Nat.add_assoc,
          ← Nat.add_mul]
        congr 2
        omega
      · rw [decodeBatches, if_neg more] at ok
        cases ok
        have past : numRegular.toNat ≤ batchStart.toNat := by
          rw [UInt32.lt_iff_toNat_lt] at more
          omega
        rw [Nat.sub_eq_zero_of_le past, Nat.zero_mul, Nat.add_zero]

end Loop

end Decoders

/-! ## `DecodeBatchBlocks` -/

section Batch

variable (build : Build) {layout : AddressColumnLayout} {blocks : List AddressBlock}
  {totalRecords : UInt32}

/-- What a batched decode needs to stay inside: its whole blocks but the last hold no more
than the records, the batch counter and the interleaved vectors do not wrap, and each block
holds the bytes that are read of it. -/
structure BatchesInside (build : Build) (layout : AddressColumnLayout) (blocks : List AddressBlock)
    (totalRecords : UInt32) : Prop where
  room : (layout.numAddressBlocks.toNat - 1) * layout.blockGranularity.toNat ≤ totalRecords.toNat
  streams : 0 < (regularBlocks layout totalRecords).toNat →
    layout.blockGranularity.toNat < 2 ^ 29
  batches : (regularBlocks layout totalRecords).toNat + 8 ≤ 2 ^ 32
  regular : ∀ b, b < (regularBlocks layout totalRecords).toNat →
    bytesRead layout.blockGranularity.toNat layout.bitWidth ≤
      (blocks.getD b ⟨0, .zeros 0⟩).packed.size
  tail : SeparateTail layout totalRecords →
    (layout.numAddressBlocks.toNat - 1) * layout.blockGranularity.toNat < totalRecords.toNat →
      totalRecords.toNat - (layout.numAddressBlocks.toNat - 1) * layout.blockGranularity.toNat ≤
          longestBlock build ∧
        bytesRead (totalRecords.toNat -
            (layout.numAddressBlocks.toNat - 1) * layout.blockGranularity.toNat) layout.bitWidth ≤
          (blocks.getLastD ⟨0, .zeros 0⟩).packed.size

/-- The call returns an error, or as many entries as asked for; nothing is read or written
outside. -/
def DecodesInside (build : Build) (layout : AddressColumnLayout) (blocks : List AddressBlock)
    (totalRecords : UInt32) : Prop :=
  decodeBatchBlocks build layout blocks totalRecords ≠ .error .outOfBounds ∧
    ∀ entries, decodeBatchBlocks build layout blocks totalRecords = .ok entries →
      entries.length = totalRecords.toNat

theorem inside_ok {entries : List AddressEntry} {n : ℕ} (length : entries.length = n) :
    (Except.ok entries : Result (List AddressEntry)) ≠ .error .outOfBounds ∧
      ∀ entries', (Except.ok entries : Result (List AddressEntry)) = .ok entries' →
        entries'.length = n := by
  constructor
  · intro failed
    cases failed
  · intro entries' same
    cases same
    exact length

theorem inside_corruption (message : String) (n : ℕ) :
    (Status.corruption message : Result (List AddressEntry)) ≠ .error .outOfBounds ∧
      ∀ entries, (Status.corruption message : Result (List AddressEntry)) = .ok entries →
        entries.length = n := by
  constructor
  · intro failed
    cases failed
  · intro entries same
    cases same

theorem lastBlock_toNat (some : 0 < layout.numAddressBlocks.toNat) :
    (layout.numAddressBlocks - 1).toNat = layout.numAddressBlocks.toNat - 1 :=
  UInt32.toNat_sub_of_le _ _ (UInt32.le_iff_toNat_le.2 (by simp only [UInt32.reduceToNat]; omega))

/-- `tail_count`, whatever the layout. -/
theorem tailCount_toNat (some : 0 < layout.numAddressBlocks.toNat) :
    (blockRecordCount layout totalRecords (layout.numAddressBlocks - 1)).toNat =
      totalRecords.toNat -
        (layout.numAddressBlocks.toNat - 1) * layout.blockGranularity.toNat := by
  have pred := lastBlock_toNat some
  have small := totalRecords.toNat_lt
  have last : layout.numAddressBlocks - 1 + 1 = layout.numAddressBlocks := by simp
  have few := layout.numAddressBlocks.toNat_lt
  have granularity := layout.blockGranularity.toNat_lt
  have bound : (layout.numAddressBlocks.toNat - 1) * layout.blockGranularity.toNat < 2 ^ 64 := by
    calc (layout.numAddressBlocks.toNat - 1) * layout.blockGranularity.toNat
        < 2 ^ 32 * 2 ^ 32 := Nat.mul_lt_mul_of_lt_of_lt (by omega) granularity
      _ = 2 ^ 64 := by decide
  have product : ((layout.numAddressBlocks - 1).toUInt64 *
      layout.blockGranularity.toUInt64).toNat =
      (layout.numAddressBlocks.toNat - 1) * layout.blockGranularity.toNat := by
    rw [UInt64.toNat_mul, UInt32.toNat_toUInt64, UInt32.toNat_toUInt64, pred]
    exact Nat.mod_eq_of_lt bound
  unfold blockRecordCount
  rw [if_neg (by rw [UInt32.le_iff_toNat_le]; omega),
    if_neg (by intro none; rw [none] at some; exact absurd some (by simp)), last,
    if_neg (by rw [UInt32.lt_iff_toNat_lt]; omega)]
  dsimp only
  by_cases past : totalRecords.toNat ≤
      (layout.numAddressBlocks.toNat - 1) * layout.blockGranularity.toNat
  · rw [if_pos (by rw [UInt64.le_iff_toNat_le, product, UInt32.toNat_toUInt64]; omega)]
    change 0 = _
    omega
  · rw [if_neg (by rw [UInt64.le_iff_toNat_le, product, UInt32.toNat_toUInt64]; omega)]
    have narrowed : ((layout.numAddressBlocks - 1).toUInt64 *
        layout.blockGranularity.toUInt64).toUInt32.toNat =
        (layout.numAddressBlocks.toNat - 1) * layout.blockGranularity.toNat := by
      rw [UInt64.toNat_toUInt32, product]
      exact Nat.mod_eq_of_lt (by omega)
    rw [UInt32.toNat_sub_of_le _ _ (by rw [UInt32.le_iff_toNat_le, narrowed]; omega), narrowed]

theorem regularBlocks_toNat (some : 0 < layout.numAddressBlocks.toNat) :
    (regularBlocks layout totalRecords).toNat =
      if SeparateTail layout totalRecords then layout.numAddressBlocks.toNat - 1
      else layout.numAddressBlocks.toNat := by
  unfold regularBlocks
  split
  · exact lastBlock_toNat some
  · rfl

/-- `DecodeBatchBlocks` past its checks. -/
theorem decodeBatchBlocks_eq (length : blocks.length = layout.numAddressBlocks.toNat)
    (some : layout.numAddressBlocks ≠ 0) (granularity : layout.blockGranularity ≠ 0) :
    decodeBatchBlocks build layout blocks totalRecords =
      (decodeBatches build layout blocks (regularBlocks layout totalRecords) totalRecords
        (totalRecords.toNat + 1) 0 []).bind fun out =>
          if SeparateTail layout totalRecords then
            (decodeSingleBlock build layout (blocks.getLastD ⟨0, .zeros 0⟩)
              (blockRecordCount layout totalRecords (layout.numAddressBlocks - 1))).bind
              fun tail =>
                if totalRecords.toNat < out.length + tail.length then .error .outOfBounds
                else if out.length + tail.length ≠ totalRecords.toNat then
                  Status.corruption "Decoded address count mismatch"
                else .ok (out ++ tail)
          else if out.length ≠ totalRecords.toNat then
            Status.corruption "Decoded address count mismatch"
          else .ok out := by
  unfold decodeBatchBlocks
  rw [if_neg (by rw [length]; simp), if_neg some, if_neg granularity]
  rfl

theorem regularBlocks_pos : (0 : UInt32) < regularBlocks layout totalRecords ↔
    0 < (regularBlocks layout totalRecords).toNat := by
  rw [UInt32.lt_iff_toNat_lt]
  rfl

theorem regularBlocks_le (length : blocks.length = layout.numAddressBlocks.toNat)
    (some : 0 < layout.numAddressBlocks.toNat) :
    (regularBlocks layout totalRecords).toNat ≤ blocks.length := by
  rw [regularBlocks_toNat some, length]
  split <;> omega

/-- A block counted as regular is one the records reach. -/
theorem regularBlocks_whole (some : 0 < layout.numAddressBlocks.toNat)
    (positive : 0 < layout.blockGranularity.toNat)
    (together : ¬ SeparateTail layout totalRecords) :
    (regularBlocks layout totalRecords).toNat * layout.blockGranularity.toNat ≤
      totalRecords.toNat := by
  have row : layout.numAddressBlocks.toNat * layout.blockGranularity.toNat =
      (layout.numAddressBlocks.toNat - 1) * layout.blockGranularity.toNat +
        layout.blockGranularity.toNat := by
    rw [← Nat.succ_mul]
    congr 1
    omega
  have reaches : ¬ blockRecordCount layout totalRecords (layout.numAddressBlocks - 1) <
      layout.blockGranularity := fun short => together (.inl short)
  rw [UInt32.lt_iff_toNat_lt, tailCount_toNat some] at reaches
  rw [regularBlocks_toNat some, if_neg together]
  omega

/-- A call that stays inside ends its loop well, so what the loop and the tail need holds. -/
theorem batchesInside_of_inside (length : blocks.length = layout.numAddressBlocks.toNat)
    (some : layout.numAddressBlocks ≠ 0) (granularity : layout.blockGranularity ≠ 0)
    (inside : decodeBatchBlocks build layout blocks totalRecords ≠ .error .outOfBounds) :
    BatchesInside build layout blocks totalRecords := by
  have someBlocks : 0 < layout.numAddressBlocks.toNat :=
    UInt32.lt_iff_toNat_lt.1 (UInt32.pos_iff_ne_zero.2 some)
  have positive : 0 < layout.blockGranularity.toNat :=
    UInt32.lt_iff_toNat_lt.1 (UInt32.pos_iff_ne_zero.2 granularity)
  have regularCount := @regularBlocks_toNat layout totalRecords someBlocks
  have tailCount := @tailCount_toNat layout totalRecords someBlocks
  have given := @regularBlocks_le layout blocks totalRecords length someBlocks
  rw [decodeBatchBlocks_eq build length some granularity] at inside
  -- the loop ends well, or the call ends outside
  obtain ⟨out, ran⟩ : ∃ out, decodeBatches build layout blocks
      (regularBlocks layout totalRecords) totalRecords (totalRecords.toNat + 1) 0 [] =
        .ok out := by
    cases ran : decodeBatches build layout blocks (regularBlocks layout totalRecords)
        totalRecords (totalRecords.toNat + 1) 0 [] with
    | error e =>
        rw [ran, decodeBatches_onlyOutside build e ran] at inside
        exact absurd rfl inside
    | ok out => exact ⟨out, rfl⟩
  have batches : (regularBlocks layout totalRecords).toNat + 8 ≤ 2 ^ 32 := by
    by_cases none : (regularBlocks layout totalRecords).toNat = 0
    · omega
    · exact decodeBatches_bound build given positive (regularBlocks_pos.2 (Nat.pos_of_ne_zero none))
        (Nat.dvd_zero 8) (by simp) ran
  have needed : 0 < (regularBlocks layout totalRecords).toNat →
      RegularInside layout blocks (regularBlocks layout totalRecords) totalRecords 0 0 :=
    fun more => decodeBatches_needs build batches given ran (regularBlocks_pos.2 more)
  have room : (regularBlocks layout totalRecords).toNat * layout.blockGranularity.toNat ≤
      totalRecords.toNat := by
    by_cases none : (regularBlocks layout totalRecords).toNat = 0
    · rw [none, Nat.zero_mul]
      exact Nat.zero_le _
    · have fits := (needed (Nat.pos_of_ne_zero none)).room
      rwa [Nat.zero_add, Nat.sub_zero] at fits
  refine ⟨?_, fun more => (needed more).streams, batches,
    fun b below => (needed (by omega)).bytes b (Nat.zero_le b) below, ?_⟩
  · rw [regularCount] at room
    split at room
    · exact room
    · exact (Nat.mul_le_mul_right _ (Nat.sub_le _ 1)).trans room
  · intro separate reaches
    rw [ran] at inside
    simp only [Except.bind] at inside
    rw [if_pos separate] at inside
    have single := @decodeSingleBlock_inside build layout (blocks.getLastD ⟨0, .zeros 0⟩)
      (blockRecordCount layout totalRecords (layout.numAddressBlocks - 1))
    rw [tailCount] at single
    apply single.1 _ (by omega)
    cases decoded : decodeSingleBlock build layout (blocks.getLastD ⟨0, .zeros 0⟩)
        (blockRecordCount layout totalRecords (layout.numAddressBlocks - 1)) with
    | error e =>
        rw [decoded, decodeSingleBlock_onlyOutside build _ _ e decoded] at inside
        exact absurd rfl inside
    | ok tail => exact ⟨tail, rfl⟩

/-- The blocks hold as many records as asked for: the tail takes what the others leave. -/
def CountsMatch (layout : AddressColumnLayout) (totalRecords : UInt32) : Prop :=
  SeparateTail layout totalRecords ∨
    layout.numAddressBlocks.toNat * layout.blockGranularity.toNat = totalRecords.toNat

/-- A call whose buffers are as `BatchesInside` says ends well exactly if the counts match. -/
theorem BatchesInside.ends (length : blocks.length = layout.numAddressBlocks.toNat)
    (some : layout.numAddressBlocks ≠ 0) (granularity : layout.blockGranularity ≠ 0)
    (inside : BatchesInside build layout blocks totalRecords) :
    (CountsMatch layout totalRecords → ∃ entries,
        decodeBatchBlocks build layout blocks totalRecords = .ok entries ∧
          entries.length = totalRecords.toNat) ∧
      (¬ CountsMatch layout totalRecords →
        decodeBatchBlocks build layout blocks totalRecords =
          Status.corruption "Decoded address count mismatch") := by
  have someBlocks : 0 < layout.numAddressBlocks.toNat :=
    UInt32.lt_iff_toNat_lt.1 (UInt32.pos_iff_ne_zero.2 some)
  have positive : 0 < layout.blockGranularity.toNat :=
    UInt32.lt_iff_toNat_lt.1 (UInt32.pos_iff_ne_zero.2 granularity)
  have regularCount := @regularBlocks_toNat layout totalRecords someBlocks
  have tailCount := @tailCount_toNat layout totalRecords someBlocks
  have given := @regularBlocks_le layout blocks totalRecords length someBlocks
  rw [decodeBatchBlocks_eq build length some granularity, CountsMatch]
  have regularRoom : (regularBlocks layout totalRecords).toNat * layout.blockGranularity.toNat ≤
      totalRecords.toNat := by
    by_cases separate : SeparateTail layout totalRecords
    · rw [regularCount, if_pos separate]
      exact inside.room
    · exact regularBlocks_whole someBlocks positive separate
  have count := Nat.le_mul_of_pos_right (regularBlocks layout totalRecords).toNat positive
  obtain ⟨out, ran⟩ := @decodeBatches_runs build layout blocks (regularBlocks layout totalRecords)
    totalRecords inside.batches given (totalRecords.toNat + 1) 0 [] (Nat.succ_pos _)
    (by rw [show (0 : UInt32).toNat = 0 from rfl]; omega) (by
      intro more
      refine ⟨inside.streams (regularBlocks_pos.1 more),
        fun b _ below => inside.regular b below, ?_⟩
      rw [List.length_nil, Nat.zero_add, show (0 : UInt32).toNat = 0 from rfl, Nat.sub_zero]
      exact regularRoom)
  have wrote := decodeBatches_length build inside.batches given ran
  rw [List.length_nil, Nat.zero_add, show (0 : UInt32).toNat = 0 from rfl, Nat.sub_zero] at wrote
  rw [ran]
  simp only [Except.bind]
  by_cases separate : SeparateTail layout totalRecords
  · rw [if_pos separate]
    rw [regularCount, if_pos separate] at wrote
    have room := inside.room
    obtain ⟨tail, decoded⟩ := (@decodeSingleBlock_inside build layout
      (blocks.getLastD ⟨0, .zeros 0⟩)
      (blockRecordCount layout totalRecords (layout.numAddressBlocks - 1))).2 (by
        rw [tailCount]
        exact fun reaches => inside.tail separate (by omega))
    have tailLength := decodeSingleBlock_length build decoded
    rw [tailCount] at tailLength
    rw [decoded]
    simp only
    rw [if_neg (by omega), if_neg (by omega)]
    refine ⟨fun _ => ⟨_, rfl, ?_⟩, fun apart => absurd (.inl separate) apart⟩
    rw [List.length_append]
    omega
  · rw [if_neg separate, or_iff_right separate]
    rw [regularCount, if_neg separate] at wrote
    refine ⟨fun all => ⟨out, ?_, by omega⟩, fun apart => ?_⟩
    · rw [if_neg (by omega)]
    · rw [if_pos (by omega)]

/-- A call whose buffers are as `BatchesInside` says stays inside. -/
theorem BatchesInside.decodes (length : blocks.length = layout.numAddressBlocks.toNat)
    (some : layout.numAddressBlocks ≠ 0) (granularity : layout.blockGranularity ≠ 0)
    (inside : BatchesInside build layout blocks totalRecords) :
    DecodesInside build layout blocks totalRecords := by
  obtain ⟨whole, cut⟩ := inside.ends build length some granularity
  rw [DecodesInside]
  by_cases counts : CountsMatch layout totalRecords
  · obtain ⟨entries, ok, count⟩ := whole counts
    rw [ok]
    exact inside_ok count
  · rw [cut counts]
    exact inside_corruption _ _

/-- **A batched decode past its checks** stays inside exactly if its buffers are as
`BatchesInside` says. -/
theorem decode_inside_iff (length : blocks.length = layout.numAddressBlocks.toNat)
    (some : layout.numAddressBlocks ≠ 0) (granularity : layout.blockGranularity ≠ 0) :
    DecodesInside build layout blocks totalRecords ↔ BatchesInside build layout blocks totalRecords :=
  ⟨fun decodes => batchesInside_of_inside build length some granularity decodes.1,
    BatchesInside.decodes build length some granularity⟩

/-- **`DecodeBatchBlocks` stays inside** exactly if a call that passes its checks has its
layout and blocks as `BatchesInside` says. -/
theorem decodeBatchBlocks_inside_iff :
    DecodesInside build layout blocks totalRecords ↔
      (blocks.length = layout.numAddressBlocks.toNat → layout.numAddressBlocks ≠ 0 →
        layout.blockGranularity ≠ 0 → BatchesInside build layout blocks totalRecords) := by
  by_cases length : blocks.length = layout.numAddressBlocks.toNat
  · by_cases some : layout.numAddressBlocks = 0
    · refine ⟨fun _ _ more => absurd some more, fun _ => ?_⟩
      rw [DecodesInside]
      unfold decodeBatchBlocks
      rw [if_neg (by rw [length]; simp), if_pos some]
      by_cases none : totalRecords = 0
      · rw [if_neg (by rw [none]; simp), none]
        exact inside_ok rfl
      · rw [if_pos none]
        exact inside_corruption _ _
    · by_cases granularity : layout.blockGranularity = 0
      · refine ⟨fun _ _ _ more => absurd granularity more, fun _ => ?_⟩
        rw [DecodesInside]
        unfold decodeBatchBlocks
        rw [if_neg (by rw [length]; simp), if_neg some, if_pos granularity]
        exact inside_corruption _ _
      · rw [decode_inside_iff build length some granularity]
        exact ⟨fun inside _ _ _ => inside, fun inside => inside length some granularity⟩
  · refine ⟨fun _ same => absurd same length, fun _ => ?_⟩
    rw [DecodesInside]
    unfold decodeBatchBlocks
    rw [if_pos length]
    constructor
    · intro failed
      cases failed
    · intro entries same
      cases same

end Batch

/-- Two blocks of two one-bit fields. -/
def twoBlocks : AddressColumnLayout where
  pageSize := 4096
  blockGranularity := 2
  fixedPackedSize := 1
  lastPackedSize := 1
  numAddressBlocks := 2

/-- **A column of one record with two blocks** is written past its end before the counts
are compared. -/
theorem twoBlocks_outside :
    ¬ DecodesInside .avx2 twoBlocks [⟨0, .zeros 1⟩, ⟨1, .zeros 1⟩] 1 := by
  intro inside
  exact inside.1 rfl

end VecFetch.Storage
