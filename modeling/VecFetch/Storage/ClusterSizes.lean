/-
# Storage.ClusterSizes -- how many bytes a cluster's vectors take

What a unit of `WriteVectors` without an error has written is counted here, in natural
numbers (`fastScanBytes`, `exDataBytes`).  The writer counts in 32 bits, and where the
whole stays below `2 ^ 32` its counts are these (`fastScan_counted`, `exData_counted`).
-/
import VecFetch.Storage.ClusterWriter
import VecFetch.Theory.Emit

namespace VecFetch.Storage

open VecFetch.Theory VecFetch.Rabitq VecFetch.Simd VecFetch.Query

set_option autoImplicit false

/-! ## Emissions without an error -/

namespace Emission

variable {a b : Emission} {parts : List Emission}

theorem append_clean : (a.append b).error = none ↔ a.error = none ∧ b.error = none := by
  rw [append]
  cases failed : a.error with
  | none => simp
  | some failure => simp [failed]

theorem append_bytes (clean : a.error = none) : (a.append b).bytes = a.bytes ++ b.bytes := by
  rw [append, clean]

theorem all_clean : (all parts).error = none ↔ ∀ part ∈ parts, part.error = none := by
  induction parts with
  | nil => simp [all, ofBytes]
  | cons part parts ih =>
      rw [List.forall_mem_cons, ← ih]
      exact append_clean

theorem all_bytes (clean : (all parts).error = none) :
    (all parts).bytes = parts.flatMap Emission.bytes := by
  induction parts with
  | nil => rfl
  | cons part parts ih =>
      obtain ⟨first, rest⟩ := append_clean.1 clean
      rw [List.flatMap_cons, ← ih rest]
      exact append_bytes first

/-- Parts of one length. -/
theorem all_length {width : ℕ} (clean : (all parts).error = none)
    (each : ∀ part ∈ parts, part.error = none → part.bytes.length = width) :
    (all parts).bytes.length = parts.length * width := by
  rw [all_bytes clean, List.length_flatMap]
  have widths : parts.map (fun part => part.bytes.length) = parts.map fun _ => width :=
    List.map_congr_left fun part mem => each part mem (all_clean.1 clean part mem)
  rw [widths, List.map_const', List.sum_replicate, smul_eq_mul]

theorem require_bytes (holds : Bool) (message : String) : (require holds message).bytes = [] := by
  cases holds <;> rfl

theorem require_clean {holds : Bool} {message : String} :
    (require holds message).error = none ↔ holds = true := by
  cases holds <;> simp [require, ofBytes, invalid, failed]

end Emission

/-! ## FastScan blocks -/

theorem factorBytes_length (codes : List RaBitQCode) (factor : RaBitQCode → UInt32)
    (start count : ℕ) : (factorBytes codes factor start count).length = count * 4 :=
  flatMap_range_length fun _ _ => leBytes_length _ _

/-- The size of a packed block of sign bits. -/
theorem packSignBits_size {dim : ℕ} {codes : List RaBitQCode} {out : Buffer}
    (packed : packSignBitsForFastScan dim codes = some out) :
    out.size = fastScanPackedSize dim := by
  obtain ⟨out', packed', size, -⟩ := packSignBits_spec codes (packSignBits_inside packed)
  rw [packed] at packed'
  cases packed'
  exact size

theorem fastScanUnit_length {dim : UInt32} {codes : List RaBitQCode} {n : UInt32} {b : ℕ}
    (clean : (fastScanUnit dim codes n b).emission.error = none) :
    (fastScanUnit dim codes n b).emission.bytes.length = fastScanPackedSize dim.toNat + 128 := by
  simp only [fastScanUnit] at clean ⊢
  cases packed : packSignBitsForFastScan dim.toNat (blockCodes codes n b) with
  | none =>
      rw [packed] at clean
      cases clean
  | some out =>
      simp only [Emission.ofBytes, List.length_append, Buffer.toList_length,
        factorBytes_length, packSignBits_size packed]

/-- The bytes of `count` records' FastScan blocks. -/
def fastScanBytes (dim : UInt32) (count : ℕ) : ℕ :=
  (count + 31) / 32 * ((dim.toNat + 7) / 8 * 32 + 128)

/-- A record at all makes the dimension small. -/
theorem dim_small {dim : UInt32} {count : ℕ} (fits : fastScanBytes dim count < 2 ^ 32)
    (some : 0 < count) : (dim.toNat + 7) / 8 * 32 + 128 < 2 ^ 32 :=
  Nat.lt_of_le_of_lt (Nat.le_mul_of_pos_left _ (by omega)) fits

theorem count_small {dim : UInt32} {count : ℕ} (fits : fastScanBytes dim count < 2 ^ 32) :
    (count + 31) / 32 < 2 ^ 25 := by
  have blocks : (count + 31) / 32 * 128 ≤ fastScanBytes dim count :=
    Nat.mul_le_mul_left _ (by omega)
  omega

/-- The number of codes, as the writer holds it. -/
theorem ofNat_count {dim : UInt32} {count : ℕ} (fits : fastScanBytes dim count < 2 ^ 32) :
    (UInt32.ofNat count).toNat = count := by
  have small := count_small fits
  rw [UInt32.toNat_ofNat']
  omega

theorem numBlocks_counted {dim : UInt32} {count : ℕ} (fits : fastScanBytes dim count < 2 ^ 32) :
    ((UInt32.ofNat count + 31) / 32).toNat = (count + 31) / 32 := by
  have small := count_small fits
  rw [UInt32.toNat_div, UInt32.toNat_add, ofNat_count fits]
  simp only [UInt32.reduceToNat]
  omega

theorem fastScanBlockSize_counted {dim : UInt32}
    (small : (dim.toNat + 7) / 8 * 32 + 128 < 2 ^ 32) :
    (fastScanBlockSize dim).toNat = (dim.toNat + 7) / 8 * 32 + 128 ∧
      fastScanPackedSize dim.toNat = (dim.toNat + 7) / 8 * 32 := by
  have seven : (dim + 7).toNat = dim.toNat + 7 := by
    rw [UInt32.toNat_add]
    simp only [UInt32.reduceToNat]
    omega
  constructor
  · rw [fastScanBlockSize, UInt32.toNat_add, UInt32.toNat_mul, UInt32.toNat_div, seven]
    simp only [UInt32.reduceToNat]
    omega
  · rw [fastScanPackedSize]
    omega

/-- Units that write as many bytes as they advance. -/
theorem units_length {units : List WriteUnit} {width : ℕ}
    (length : ∀ unit ∈ units, unit.emission.bytes.length = width)
    (advance : ∀ unit ∈ units, unit.advance = width) :
    (units.map fun unit => unit.emission.bytes).flatten.length = units.length * width ∧
      (units.map WriteUnit.advance).sum = units.length * width := by
  induction units with
  | nil => simp
  | cons unit units ih =>
      obtain ⟨first, rest⟩ := List.forall_mem_cons.1 length
      obtain ⟨first', rest'⟩ := List.forall_mem_cons.1 advance
      obtain ⟨bytes, total⟩ := ih rest rest'
      rw [List.map_cons, List.flatten_cons, List.length_append, bytes, first, List.map_cons,
        List.sum_cons, total, first', List.length_cons, Nat.succ_mul, Nat.add_comm]
      exact ⟨rfl, rfl⟩

/-- **The FastScan region is counted.** -/
theorem fastScan_counted {dim : UInt32} {codes : List RaBitQCode}
    (fits : fastScanBytes dim codes.length < 2 ^ 32)
    (clean : ∀ unit ∈ fastScanUnits dim codes, unit.emission.error = none) :
    ((fastScanUnits dim codes).map fun unit => unit.emission.bytes).flatten.length =
        fastScanBytes dim codes.length ∧
      ((fastScanUnits dim codes).map WriteUnit.advance).sum = fastScanBytes dim codes.length := by
  have blocks : (fastScanUnits dim codes).length = (codes.length + 31) / 32 := by
    rw [fastScanUnits, List.length_map, List.length_range, numBlocks_counted fits]
  rw [fastScanBytes, ← blocks]
  by_cases some : 0 < codes.length
  · obtain ⟨size, packed⟩ := fastScanBlockSize_counted (dim_small fits some)
    refine units_length (fun unit mem => ?_) fun unit mem => ?_
    · obtain ⟨b, -, rfl⟩ := List.mem_map.1 mem
      rw [fastScanUnit_length (clean _ mem), packed]
    · obtain ⟨b, -, rfl⟩ := List.mem_map.1 mem
      exact size
  · have empty : fastScanUnits dim codes = [] := List.eq_nil_of_length_eq_zero (by omega)
    simp [empty]

/-! ## Packed magnitudes -/

section Packers

variable {abs : ℕ → UInt8} {count packedBytes : UInt32} {bits : UInt8} {packed : Buffer}

theorem packMagnitudes_size (run : exRaBitQPackMagnitudes abs count bits packedBytes = .ok packed) :
    packed.size = packedBytes.toNat := by
  simp only [exRaBitQPackMagnitudes] at run
  split at run
  · cases run
  · split at run <;> exact (packFields_of_ok run).1

theorem packDirect3_size {layout : RaBitQExDataLayout}
    (run : exRaBitQPackOfficialDirect3 abs count layout packedBytes = .ok packed) :
    packed.size = packedBytes.toNat := by
  simp only [exRaBitQPackOfficialDirect3] at run
  split at run
  · cases run
  · split at run
    · cases run
    · exact (packFields_of_ok run).1

theorem packDirectBitplanes_size
    (run : exRaBitQPackOfficialDirectBitplanes abs count bits packedBytes = .ok packed) :
    packed.size = packedBytes.toNat := by
  simp only [exRaBitQPackOfficialDirectBitplanes] at run
  split at run
  · cases run
  · split at run
    · cases run
    · exact (packFields_of_ok run).1

end Packers

theorem packed_length {message : String} {run : Except Fault Buffer} {size : ℕ}
    (sizes : ∀ {packed}, run = .ok packed → packed.size = size)
    (clean : (packedEmission message run).error = none) :
    (packedEmission message run).bytes.length = size := by
  cases run with
  | ok packed => simp [packedEmission, Emission.ofBytes, sizes rfl]
  | error fault => cases fault <;> cases clean

/-! ## Batch blocks of fixed layouts -/

section ExData

variable {config : StoreConfig} {dim : UInt32} {packs : Bool} {codes : List RaBitQCode} {n : UInt32}

theorem packFixed_length {abs : ℕ → UInt8} (clean : (packFixed config abs).error = none) :
    (packFixed config abs).bytes.length = (absLaneBytes config).toNat := by
  simp only [packFixed] at clean ⊢
  split at clean
  · next direct =>
      rw [if_pos direct]
      split at clean
      · next twoPlusOne =>
          rw [if_pos twoPlusOne]
          exact packed_length packDirect3_size clean
      · next planes =>
          rw [if_neg planes]
          exact packed_length packDirectBitplanes_size clean
  · next generic =>
      rw [if_neg generic]
      exact packed_length packMagnitudes_size clean

/-- The magnitudes of a lane's block. -/
def chunkSize (config : StoreConfig) (packs : Bool) : ℕ :=
  if packs then (absLaneBytes config).toNat else 64

theorem checkFixed_bytes {code : RaBitQCode} (clean : (checkFixed config dim code).error = none) :
    (checkFixed config dim code).bytes = [] := by
  rw [checkFixed, Emission.all_bytes clean]
  simp [Emission.require_bytes]

theorem fixedChunk_length {bb db lane : ℕ}
    (clean : (fixedChunk config dim packs codes n bb db lane).error = none) :
    (fixedChunk config dim packs codes n bb db lane).bytes.length = chunkSize config packs := by
  simp only [fixedChunk] at clean ⊢
  rw [Emission.all_bytes clean]
  simp only [List.flatMap_cons, List.flatMap_nil, List.append_nil, List.length_append]
  have cleans := Emission.all_clean.1 clean
  simp only [List.forall_mem_cons] at cleans
  obtain ⟨checked, packed, -⟩ := cleans
  have silent : (if decide (lane < validCount n bb) = true then
      checkFixed config dim (laneCode codes bb lane) else Emission.ofBytes []).bytes = [] := by
    split at checked
    · next held =>
        rw [if_pos held]
        exact checkFixed_bytes checked
    · next spare =>
        rw [if_neg spare]
        rfl
  rw [silent, List.length_nil, Nat.zero_add, chunkSize]
  cases packs with
  | true => exact packFixed_length packed
  | false => simp [Emission.ofBytes]

theorem validCount_le (n : UInt32) (bb : ℕ) : validCount n bb ≤ 8 := Nat.min_le_left _ _

theorem laneFactors_length (codes : List RaBitQCode) (factor : RaBitQCode → UInt32) (n : UInt32)
    (bb : ℕ) : (laneFactors codes factor n bb).length = 32 := by
  have below := validCount_le n bb
  rw [laneFactors, List.length_append, factorBytes_length, List.length_replicate]
  omega

theorem signChunks_length (codes : List RaBitQCode) (n : UInt32) (bb blocks : ℕ) :
    ((List.range blocks).flatMap fun db =>
      (List.range 8).flatMap (signChunk dim codes n bb db)).length = blocks * 64 :=
  flatMap_range_length fun db _ =>
    flatMap_range_length (c := 8) fun lane _ => by simp [signChunk]

/-- The bytes of a batch block whose codes have `blocks` blocks of 64 dimensions. -/
def fixedBatchSize (config : StoreConfig) (blocks : ℕ) (packs : Bool) : ℕ :=
  4 + blocks * (8 * chunkSize config packs) +
    if config.usesOfficial1PlusN then 64 else blocks * 64 + 32

theorem fixedBatch_length {bb : ℕ} (clean : (fixedBatch config dim packs codes n bb).error = none) :
    (fixedBatch config dim packs codes n bb).bytes.length =
      fixedBatchSize config (dimBlockCount dim).toNat packs := by
  simp only [fixedBatch] at clean ⊢
  have cleans := Emission.all_clean.1 clean
  simp only [List.forall_mem_cons] at cleans
  obtain ⟨-, blocksClean, -⟩ := cleans
  have blocks := @Emission.all_length _ (8 * chunkSize config packs) blocksClean (by
    intro part mem partClean
    obtain ⟨db, -, rfl⟩ := List.mem_map.1 mem
    have lanes := @Emission.all_length _ (chunkSize config packs) partClean (by
      intro part mem partClean
      obtain ⟨lane, -, rfl⟩ := List.mem_map.1 mem
      exact fixedChunk_length partClean)
    rw [lanes, List.length_map, List.length_range])
  rw [List.length_map, List.length_range] at blocks
  rw [Emission.all_bytes clean]
  simp only [List.flatMap_cons, List.flatMap_nil, List.append_nil, List.length_append, blocks,
    Emission.u32, Emission.ofBytes, leBytes_length, fixedBatchSize]
  split
  · simp only [List.length_append, laneFactors_length, Nat.add_assoc]
  · simp only [List.length_append, laneFactors_length, signChunks_length, Nat.add_assoc]

/-- The number of 64-dimension blocks of a code. -/
theorem dimBlockCount_counted (small : (dim.toNat + 7) / 8 * 32 + 128 < 2 ^ 32) :
    (dimBlockCount dim).toNat = (dim.toNat + 63) / 64 := by
  have sum : (dim + 64 - 1).toNat = dim.toNat + 63 := by
    rw [UInt32.toNat_sub, UInt32.toNat_add]
    simp only [UInt32.reduceToNat]
    omega
  rw [dimBlockCount, UInt32.toNat_div, sum]
  rfl

theorem fixedBatchBytes_counted
    (fits : fixedBatchSize config (dimBlockCount dim).toNat packs < 2 ^ 32) :
    (fixedBatchBytes config dim packs).toNat =
      fixedBatchSize config (dimBlockCount dim).toNat packs := by
  have chunk : (if packs then absLaneBytes config else 64).toNat = chunkSize config packs := by
    cases packs <;> rfl
  have few : (dimBlockCount dim).toNat < 2 ^ 26 := by
    rw [dimBlockCount, UInt32.toNat_div]
    have below := (dim + 64 - 1).toNat_lt
    simp only [UInt32.reduceToNat]
    omega
  have eight : (dimBlockCount dim * 8).toNat = (dimBlockCount dim).toNat * 8 := by
    rw [UInt32.toNat_mul]
    simp only [UInt32.reduceToNat]
    omega
  have signs : (dimBlockCount dim * 8 * 8).toNat = (dimBlockCount dim).toNat * 64 := by
    rw [UInt32.toNat_mul, eight]
    simp only [UInt32.reduceToNat]
    omega
  simp only [fixedBatchSize, fixedBatchBytes] at fits ⊢
  have magnitudes : (dimBlockCount dim * 8 * if packs then absLaneBytes config else 64).toNat =
      (dimBlockCount dim).toNat * (8 * chunkSize config packs) := by
    rw [UInt32.toNat_mul, eight, chunk, Nat.mul_assoc]
    exact Nat.mod_eq_of_lt (by omega)
  cases official : config.usesOfficial1PlusN with
  | true =>
      simp only [official, if_true, UInt32.add_zero] at fits ⊢
      rw [UInt32.toNat_add, UInt32.toNat_add, magnitudes]
      simp only [UInt32.reduceToNat, UInt32.reduceMul]
      omega
  | false =>
      simp only [official, Bool.false_eq_true, if_false] at fits ⊢
      rw [UInt32.toNat_add, UInt32.toNat_add, UInt32.toNat_add, magnitudes, signs]
      simp only [UInt32.reduceToNat, UInt32.reduceMul]
      omega

/-! ## The region of a variable layout -/

/-- Where batch block `bb` of a variable region starts; the last one ends where one more
would. -/
def variableOffset (config : StoreConfig) (dim : UInt32) (codes : List RaBitQCode) (bb : ℕ) : ℕ :=
  8 + ((codes.length + 7) / 8 + 1) * 4 + ((List.range bb).map fun k =>
    (variableBatch config dim codes (UInt32.ofNat codes.length) k).bytes.length).sum

theorem numBatchBlocks_counted {count : ℕ} (fits : fastScanBytes dim count < 2 ^ 32) :
    (numBatchBlocks (UInt32.ofNat count)).toNat = (count + 7) / 8 := by
  have small := count_small fits
  have sum : (UInt32.ofNat count + 8 - 1).toNat = count + 7 := by
    rw [UInt32.toNat_sub, UInt32.toNat_add, ofNat_count fits]
    simp only [UInt32.reduceToNat]
    omega
  rw [numBatchBlocks, UInt32.toNat_div, sum]
  rfl

/-- The batch blocks of a variable layout. -/
def variableBatches (config : StoreConfig) (dim : UInt32) (codes : List RaBitQCode) :
    List Emission :=
  let n := UInt32.ofNat codes.length
  (List.range (numBatchBlocks n).toNat).map (variableBatch config dim codes n)

theorem variableRegion_bytes (clean : (variableRegion config dim codes).error = none) :
    (Emission.all (variableBatches config dim codes)).error = none ∧
      (variableRegion config dim codes).bytes =
        leBytes 4 kVariableExRegionMagic.toNat ++
          leBytes 4 (numBatchBlocks (UInt32.ofNat codes.length)).toNat ++
          (batchOffsets (UInt32.ofNat codes.length) (variableBatches config dim codes)).flatMap
            (fun offset => leBytes 4 offset.toNat) ++
          (variableBatches config dim codes).flatMap Emission.bytes := by
  simp only [variableRegion] at clean ⊢
  split at clean
  · cases clean
  · next batches =>
      refine ⟨batches, ?_⟩
      rw [variableBatches, ← Emission.all_bytes batches]
      rfl

theorem batchOffsets_length (n : UInt32) (batches : List Emission) :
    ((batchOffsets n batches).flatMap fun offset => leBytes 4 offset.toNat).length =
      ((numBatchBlocks n).toNat + 1) * 4 := by
  rw [List.length_flatMap]
  simp only [leBytes_length, List.map_const', List.sum_replicate, smul_eq_mul, batchOffsets,
    List.length_map, List.length_range]

theorem variableRegion_length (fits : fastScanBytes dim codes.length < 2 ^ 32)
    (clean : (variableRegion config dim codes).error = none) :
    (variableRegion config dim codes).bytes.length =
      variableOffset config dim codes ((codes.length + 7) / 8) := by
  obtain ⟨-, bytes⟩ := variableRegion_bytes clean
  have blocks := numBatchBlocks_counted fits
  rw [bytes, List.length_append, List.length_append, List.length_append, batchOffsets_length,
    leBytes_length, leBytes_length, blocks, variableOffset, List.length_flatMap, variableBatches,
    List.map_map, blocks]
  rfl

/-! ## The ExData region -/

theorem entryUnit_length {code : RaBitQCode} (small : (dim.toNat + 7) / 8 * 32 + 128 < 2 ^ 32)
    (clean : (entryUnit dim code).emission.error = none) :
    (entryUnit dim code).emission.bytes.length = dim.toNat + (dim.toNat + 7) / 8 + 4 ∧
      (entryUnit dim code).advance = dim.toNat + (dim.toNat + 7) / 8 + 4 := by
  have signs : (packedSignBytes dim).toNat = (dim.toNat + 7) / 8 := by
    have seven : (dim + 7).toNat = dim.toNat + 7 := by
      rw [UInt32.toNat_add]
      simp only [UInt32.reduceToNat]
      omega
    rw [packedSignBytes, UInt32.toNat_div, seven]
    rfl
  have both : (dim + packedSignBytes dim).toNat = dim.toNat + (dim.toNat + 7) / 8 := by
    rw [UInt32.toNat_add, signs]
    omega
  constructor
  · simp only [entryUnit] at clean ⊢
    obtain ⟨required, -⟩ := Emission.append_clean.1 clean
    obtain ⟨codeLength, signLength⟩ : code.exCode.length = dim.toNat ∧
        code.exSignPacked.length = (packedSignBytes dim).toNat := by
      simpa using Emission.require_clean.1 required
    rw [Emission.append_bytes required, Emission.require_bytes]
    simp only [Emission.ofBytes, List.nil_append, List.length_append, leBytes_length, codeLength,
      signLength, signs]
  · rw [entryUnit, both]

/-- Units without an error come from behind a check that did not refuse. -/
theorem of_refuses {refuses : Prop} [Decidable refuses] {message : String}
    {units : List WriteUnit}
    (clean : ∀ unit ∈ (if refuses then [.refuse message] else units), unit.emission.error = none) :
    ¬ refuses ∧ ∀ unit ∈ units, unit.emission.error = none := by
  by_cases refused : refuses
  · rw [if_pos refused] at clean
    simp [WriteUnit.refuse, Emission.invalid, Emission.failed] at clean
  · rw [if_neg refused] at clean
    exact ⟨refused, clean⟩

/-- The units of the extra codes, if none has an error: nothing, one region, batch blocks or
entries. -/
theorem exDataUnits_clean {version : UInt32}
    (clean : ∀ unit ∈ exDataUnits config dim version codes, unit.emission.error = none) :
    (config.stage2PayloadBits = 0 ∧ exDataUnits config dim version codes = []) ∨
      config.stage2PayloadBits ≠ 0 ∧
        ((11 ≤ version ∧ (config.usesOfficial1PlusN = true ∧
            usesVariableOfficialExDataLayout config.effectiveExdataLayout = true) ∧
          exDataUnits config dim version codes =
            [⟨variableRegion config dim codes, (variableRegion config dim codes).bytes.length,
              "Failed to write variable official ExRaBitQ region"⟩]) ∨
        (11 ≤ version ∧ ¬ (config.usesOfficial1PlusN = true ∧
            usesVariableOfficialExDataLayout config.effectiveExdataLayout = true) ∧
          exDataUnits config dim version codes =
            (List.range (numBatchBlocks (UInt32.ofNat codes.length)).toNat).map fun bb =>
              ⟨fixedBatch config dim (decide (12 ≤ version)) codes (UInt32.ofNat codes.length) bb,
                (fixedBatchBytes config dim (decide (12 ≤ version))).toNat,
                "Failed to write ExRaBitQ compact block"⟩) ∨
        (¬ 11 ≤ version ∧ exDataUnits config dim version codes = codes.map (entryUnit dim))) := by
  unfold exDataUnits at clean ⊢
  dsimp only at clean ⊢
  by_cases none : config.stage2PayloadBits = 0
  · exact .inl ⟨none, if_pos none⟩
  · refine .inr ⟨none, ?_⟩
    rw [if_neg none] at clean ⊢
    obtain ⟨supported, clean⟩ := of_refuses clean
    rw [if_neg supported]
    by_cases batched : 11 ≤ version
    · rw [if_pos batched] at clean ⊢
      obtain ⟨width, clean⟩ := of_refuses clean
      rw [if_neg width]
      by_cases varies : config.usesOfficial1PlusN = true ∧
          usesVariableOfficialExDataLayout config.effectiveExdataLayout = true
      · rw [if_pos varies] at clean ⊢
        obtain ⟨nibbles, clean⟩ := of_refuses clean
        obtain ⟨pairs, clean⟩ := of_refuses clean
        obtain ⟨tiles, clean⟩ := of_refuses clean
        obtain ⟨lanes, -⟩ := of_refuses clean
        rw [if_neg nibbles, if_neg pairs, if_neg tiles, if_neg lanes]
        exact .inl ⟨batched, varies, rfl⟩
      · rw [if_neg varies]
        exact .inr (.inl ⟨batched, varies, rfl⟩)
    · rw [if_neg batched]
      exact .inr (.inr ⟨batched, rfl⟩)

/-- The bytes of the extra codes in a file of version `version`. -/
def exDataBytes (config : StoreConfig) (dim version : UInt32) (codes : List RaBitQCode) : ℕ :=
  if config.stage2PayloadBits = 0 then 0
  else if 11 ≤ version then
    if config.usesOfficial1PlusN ∧
        usesVariableOfficialExDataLayout config.effectiveExdataLayout then
      variableOffset config dim codes ((codes.length + 7) / 8)
    else
      (codes.length + 7) / 8 *
        fixedBatchSize config ((dim.toNat + 63) / 64) (decide (12 ≤ version))
  else codes.length * (dim.toNat + (dim.toNat + 7) / 8 + 4)

/-- **The ExData region is counted.** -/
theorem exData_counted {version : UInt32}
    (fits : fastScanBytes dim codes.length + exDataBytes config dim version codes < 2 ^ 32)
    (clean : ∀ unit ∈ exDataUnits config dim version codes, unit.emission.error = none) :
    ((exDataUnits config dim version codes).map fun unit => unit.emission.bytes).flatten.length =
        exDataBytes config dim version codes ∧
      ((exDataUnits config dim version codes).map WriteUnit.advance).sum =
        exDataBytes config dim version codes := by
  have region : fastScanBytes dim codes.length < 2 ^ 32 := by omega
  have blocks := numBatchBlocks_counted region
  rcases exDataUnits_clean clean with
    ⟨none, units⟩ | ⟨some, ⟨batched, varies, units⟩ | ⟨batched, fixed, units⟩ | ⟨entries, units⟩⟩
  · rw [units, exDataBytes, if_pos none]
    exact ⟨rfl, rfl⟩
  · have length := variableRegion_length region (clean _ (by rw [units]; exact List.mem_singleton.2 rfl))
    rw [units, exDataBytes, if_neg some, if_pos batched, if_pos varies]
    simpa using length
  · rw [exDataBytes, if_neg some, if_pos batched, if_neg fixed] at fits ⊢
    rcases Nat.eq_zero_or_pos codes.length with empty | present
    · rw [blocks, empty] at units
      simp [units, empty]
    · have dims := dimBlockCount_counted (dim_small region present)
      have one : fixedBatchSize config ((dim.toNat + 63) / 64) (decide (12 ≤ version)) < 2 ^ 32 := by
        have least := Nat.le_mul_of_pos_left
          (fixedBatchSize config ((dim.toNat + 63) / 64) (decide (12 ≤ version)))
          (show 0 < (codes.length + 7) / 8 by omega)
        omega
      rw [← dims] at one ⊢
      have counted := fixedBatchBytes_counted one
      have both := @units_length (exDataUnits config dim version codes) _ (fun unit mem => by
          have unitClean := clean unit mem
          rw [units] at mem
          obtain ⟨bb, -, rfl⟩ := List.mem_map.1 mem
          exact fixedBatch_length unitClean) (fun unit mem => by
          rw [units] at mem
          obtain ⟨bb, -, rfl⟩ := List.mem_map.1 mem
          exact counted)
      rwa [show (exDataUnits config dim version codes).length = (codes.length + 7) / 8 by
        rw [units, List.length_map, List.length_range, blocks]] at both
  · rw [exDataBytes, if_neg some, if_neg entries]
    rcases Nat.eq_zero_or_pos codes.length with empty | present
    · obtain rfl := List.eq_nil_of_length_eq_zero empty
      simp [units]
    · have small := dim_small region present
      have both := @units_length (exDataUnits config dim version codes) _ (fun unit mem => by
          have unitClean := clean unit mem
          rw [units] at mem
          obtain ⟨code, -, rfl⟩ := List.mem_map.1 mem
          exact (entryUnit_length small unitClean).1) (fun unit mem => by
          have unitClean := clean unit mem
          rw [units] at mem
          obtain ⟨code, -, rfl⟩ := List.mem_map.1 mem
          exact (entryUnit_length small unitClean).2)
      rwa [show (exDataUnits config dim version codes).length = codes.length by
        rw [units, List.length_map]] at both

end ExData

end VecFetch.Storage
