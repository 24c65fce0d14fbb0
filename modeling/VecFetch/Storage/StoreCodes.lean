/-
# Storage.StoreCodes -- the codes of a written cluster

The batch blocks of the extra codes are where the reader looks for them, and each record of a
loaded cluster has the code that was written, as far as the file keeps it
(`CodesHeld.loads_record`).
-/
import VecFetch.Storage.StoreLayouts

namespace VecFetch.Storage

open VecFetch.Theory VecFetch.Simd VecFetch.Rabitq

set_option autoImplicit false

/-- What a file keeps of a code, put onto what `out` has. -/
def keptCode (dim : ℕ) (config : StoreConfig) (officialXipnorm : UInt32 → UInt32 → UInt32)
    (out code : RaBitQCode) : RaBitQCode :=
  let signs := { out with
    code := signWords dim code
    bits := config.activeCodeBits
    norm := code.norm
    sumX := (signWords dim code).foldl (fun sum w => sum + UInt32.ofNat (popcount64 w)) 0 }
  if config.stage2PayloadBits = 0 then signs
  else if config.usesOfficial1PlusN then
    { signs with
      exCode := code.exCode
      exSignPacked := []
      exCodeSignFolded := true
      exFactorAdd := code.exFactorAdd
      exFactorRescale := code.exFactorRescale
      xipnorm := officialXipnorm code.norm code.exFactorRescale }
  else
    { signs with
      exCode := code.exCode
      exSignPacked := code.exSignPacked
      xipnorm := code.xipnorm }

/-! ## A batch block -/

section Batch

variable {g : ReaderGeometry} {codes : List RaBitQCode} {n : UInt32} {bb : ℕ} {b : Buffer}
variable {block : BatchBlock}

/-- The floats at the end of a batch block. -/
theorem loadFactor_ok {count k start : ℕ} {v : UInt32}
    (ends : block.offset + block.bytes.toNat = start + count * 4) (some : 4 ≤ start)
    (has : b.Has (start + k * 4) (leBytes 4 v.toNat)) (whole : count * 4 ≤ block.bytes.toNat) :
    loadFactor b block count k = .ok v := by
  have place : block.offset + block.bytes.toNat - count * 4 + 4 * k = start + k * 4 := by omega
  rw [loadFactor, if_neg (by omega), place]
  exact load32_has has

/-- A batch block that a buffer has, lanes and factors. -/
structure BatchHeld (g : ReaderGeometry) (codes : List RaBitQCode) (n : UInt32) (bb : ℕ)
    (b : Buffer) (block : BatchBlock) : Prop where
  count : b.Has block.offset (leBytes 4 (UInt32.ofNat (validCount n bb)).toNat)
  lanes : ∀ build, ∀ lane, lane < validCount n bb →
    LaneLoads build g b (laneOf block n bb lane) (laneCode codes bb lane)
  official : g.config.usesOfficial1PlusN = true → ∀ lane, lane < validCount n bb →
    let stored := ((laneOf block n bb lane).storedLanes g).toNat
    loadFactor b block (stored * 2) lane = .ok (laneCode codes bb lane).exFactorAdd ∧
      loadFactor b block (stored * 2) (stored + lane) =
        .ok (laneCode codes bb lane).exFactorRescale
  legacy : g.config.usesOfficial1PlusN = false → ∀ lane, lane < validCount n bb →
    loadFactor b block ((laneOf block n bb lane).storedLanes g).toNat lane =
      .ok (laneCode codes bb lane).xipnorm

/-- **The extra code of a record is loaded** from the batch block that has it. -/
theorem BatchHeld.loads (held : BatchHeld g codes n bb b block) {region1Size recordIdx : UInt32}
    (place : loadedBatchBlock g b region1Size (recordIdx / 8) = .ok block)
    (below : (recordIdx % 8).toNat < validCount n bb) (build : Build)
    (officialXipnorm : UInt32 → UInt32 → UInt32) (out : RaBitQCode) :
    loadBatchCode build g b region1Size officialXipnorm recordIdx out =
      .ok (if g.config.usesOfficial1PlusN then
        { out with
          exCode := (laneCode codes bb (recordIdx % 8).toNat).exCode
          exSignPacked := []
          exCodeSignFolded := true
          exFactorAdd := (laneCode codes bb (recordIdx % 8).toNat).exFactorAdd
          exFactorRescale := (laneCode codes bb (recordIdx % 8).toNat).exFactorRescale
          xipnorm := officialXipnorm out.norm
            (laneCode codes bb (recordIdx % 8).toNat).exFactorRescale }
      else
        { out with
          exCode := (laneCode codes bb (recordIdx % 8).toNat).exCode
          exSignPacked := (laneCode codes bb (recordIdx % 8).toNat).exSignPacked
          xipnorm := (laneCode codes bb (recordIdx % 8).toNat).xipnorm }) := by
  have few := validCount_le n bb
  have count : (UInt32.ofNat (validCount n bb)).toNat = validCount n bb := by
    rw [UInt32.toNat_ofNat']
    omega
  have valid : ¬ (8 < UInt32.ofNat (validCount n bb) ∨
      UInt32.ofNat (validCount n bb) ≤ recordIdx % 8) := by
    rw [UInt32.lt_iff_toNat_lt, UInt32.le_iff_toNat_le, count]
    simp only [UInt32.reduceToNat]
    omega
  obtain ⟨lane, run, exCode, exSign⟩ := held.lanes build _ below
    (resized out.exCode g.dim.toNat) rfl
  have signRoom : (if g.config.usesOfficial1PlusN then 0 else (packedSignBytes g.dim).toNat) =
      signRoom g := rfl
  simp only [loadBatchCode, place, Except.bind, load32_has held.count]
  rw [if_neg valid, signRoom]
  change Except.bind (loadLane build g b (laneOf block n bb (recordIdx % 8).toNat)
    ⟨resized out.exCode g.dim.toNat, Buffer.zeros (Storage.signRoom g),
      (laneOf block n bb (recordIdx % 8).toNat).absBase⟩) _ = _
  rw [run]
  dsimp only [Except.bind]
  rw [exCode, exSign]
  cases official : g.config.usesOfficial1PlusN with
  | true =>
      obtain ⟨add, rescale⟩ := held.official official _ below
      simp only [laneOf] at add rescale
      simp only [if_true]
      rw [add]
      dsimp only [Except.bind]
      rw [rescale]
      rfl
  | false =>
      have xipnorm := held.legacy official _ below
      simp only [laneOf] at xipnorm
      simp only [Bool.false_eq_true, if_false]
      rw [xipnorm]
      rfl

end Batch

/-! ## Batch blocks of a written file -/

section Written

variable {env : Option ℤ} {config : StoreConfig} {dim : UInt32} {codes : List RaBitQCode}
variable {bb lane : ℕ} {b : Buffer} {block : BatchBlock}

/-- A lane that holds a code. -/
theorem laneCode_found {n : UInt32} (count : n.toNat = codes.length)
    (below : lane < validCount n bb) :
    codes[8 * bb + lane]? = some (laneCode codes bb lane) := by
  rw [validCount, count] at below
  have inside : 8 * bb + lane < codes.length := by omega
  rw [laneCode, List.getD_eq_getElem?_getD, List.getElem?_eq_getElem inside]
  rfl

theorem VariableKept.extra (kept : VariableKept env config) : config.stage2PayloadBits ≠ 0 := by
  intro none
  have least := kept.bits.1
  rw [none] at least
  exact absurd least (by decide)

theorem VariableKept.batched (kept : VariableKept env config) :
    11 ≤ effectiveWriterFileVersion env config := by
  rw [kept.version]
  decide

/-- A variable batch block. -/
theorem VariableKept.batchHeld (kept : VariableKept env config) (counted : DimCounted dim)
    {n : UInt32} (count : n.toNat = codes.length)
    (clean : (variableBatch config dim codes n bb).error = none)
    (has : b.Has block.offset (variableBatch config dim codes n bb).bytes)
    (size : block.bytes.toNat = (variableBatch config dim codes n bb).bytes.length) :
    BatchHeld (fileGeometry env config dim) codes n bb b block := by
  have varying := @VariableKept.variableExBlocks _ _ dim kept
  have passed := Emission.all_clean.1 clean
  simp only [List.forall_mem_cons] at passed
  have whole := has
  rw [variableBatch, Emission.all_bytes clean, List.flatMap_cons, List.flatMap_cons,
    List.flatMap_cons, List.flatMap_singleton] at whole size
  have first : (Emission.u32 (UInt32.ofNat (validCount n bb))).bytes.length = 4 :=
    leBytes_length 4 _
  have body := whole.right.left
  have add := whole.right.right.left
  have rescale := whole.right.right.right
  rw [first] at body add rescale
  simp only [List.length_append, first, Emission.ofBytes, factorBytes_length] at size rescale
  have stored : ∀ lane, ((laneOf block n bb lane).storedLanes
      (fileGeometry env config dim)).toNat = validCount n bb := by
    intro lane
    rw [BatchLane.storedLanes, varying]
    exact laneOf_count
  refine ⟨whole.left, fun build lane below =>
    kept.loads_lane counted passed.2.1 body below build, fun _ lane below => ?_, fun legacy => ?_⟩
  · have found := laneCode_found count below
    rw [stored]
    have ends : block.offset + block.bytes.toNat = block.offset + 4 +
        (variableBody config dim codes n bb).bytes.length + validCount n bb * 2 * 4 := by
      rw [size]
      omega
    refine ⟨loadFactor_ok ends (by omega) (factor_has add below found) (by omega),
      loadFactor_ok ends (by omega) ?_ (by omega)⟩
    have here := factor_has rescale below found
    rwa [Nat.add_mul, ← Nat.add_assoc]
  · exact absurd kept.official (Bool.eq_false_iff.1 legacy)

/-- A batch block of one size. -/
theorem FixedKept.batchHeld (kept : FixedKept env config) (counted : DimCounted dim)
    {n : UInt32} (count : n.toNat = codes.length)
    (held : FixedHeld env config dim codes n bb b block.offset)
    (small : fixedBatchSize config (dimBlockCount dim).toNat
      (decide (12 ≤ effectiveWriterFileVersion env config)) < 2 ^ 32)
    (size : block.bytes.toNat = fixedBatchSize config (dimBlockCount dim).toNat
      (decide (12 ≤ effectiveWriterFileVersion env config))) :
    BatchHeld (fileGeometry env config dim) codes n bb b block := by
  have tail := held.tail
  rw [fixedBatchSize] at size
  refine ⟨held.count, fun build lane below => kept.loads_lane counted held below small build,
    fun official lane below => ?_, fun legacy lane below => ?_⟩
  · have found := laneCode_found count below
    rw [show config.usesOfficial1PlusN = true from official, if_pos rfl] at tail size
    intro stored
    rw [show stored = 8 from congrArg UInt32.toNat (kept.storedLanes _)]
    have add := tail.left
    have rescale := tail.right
    rw [laneFactors_length] at rescale
    rw [laneFactors] at add rescale
    have ends : block.offset + block.bytes.toNat = block.offset + 4 + (dimBlockCount dim).toNat *
        (8 * chunkSize config (decide (12 ≤ effectiveWriterFileVersion env config))) +
          8 * 2 * 4 := by omega
    refine ⟨loadFactor_ok ends (by omega) (factor_has add.left below found) (by omega),
      loadFactor_ok ends (by omega) ?_ (by omega)⟩
    have here := factor_has rescale.left below found
    rwa [Nat.add_mul, ← Nat.add_assoc]
  · have found := laneCode_found count below
    rw [show config.usesOfficial1PlusN = false from legacy, if_neg (by decide)] at tail size
    rw [show ((laneOf block n bb lane).storedLanes (fileGeometry env config dim)).toNat = 8 from
      congrArg UInt32.toNat (kept.storedLanes _)]
    have factors := tail.right
    rw [signChunks_length, laneFactors] at factors
    exact loadFactor_ok (by omega) (by omega) (factor_has factors.left below found) (by omega)

/-- The configuration that a writer keeps has extra bits that packers know. -/
theorem packsBits_of_kept {given : StoreConfig} (accepted : given.opened env = .ok config)
    (some : config.stage2PayloadBits ≠ 0)
    (packed : 12 ≤ effectiveWriterFileVersion env config) : PacksBits config := by
  have least : 1 ≤ config.stage2PayloadBits := by
    rw [UInt8.le_iff_toNat_le]
    have positive := UInt8.lt_iff_toNat_lt.1 (UInt8.pos_iff_ne_zero.2 some)
    simp only [UInt8.reduceToNat] at positive ⊢
    omega
  refine ⟨least, ?_⟩
  cases mode : given.usesOfficial1PlusN with
  | true =>
      obtain ⟨official, kept⟩ := opened_official mode accepted
      rw [RaBitQConfig.stage2PayloadBits, if_pos official]
      exact of_decide_eq_true kept.supported
  | false =>
      obtain ⟨legacy, kept⟩ := opened_legacy mode accepted
      rw [RaBitQConfig.stage2PayloadBits, if_neg (Bool.eq_false_iff.1 legacy)] at some ⊢
      by_cases extra : 1 < config.bits
      · rw [if_pos extra]
        have supported := not_and.1 (not_and.1 kept.supported packed) extra
        rw [Bool.not_eq_true', Bool.not_eq_false, supportsPackedStage2MagnitudeBits,
          decide_eq_true_eq] at supported
        rcases supported with two | four
        · rw [two]
          decide
        · rw [four]
          decide
      · exact absurd (if_neg extra) some

/-! ## The extra codes in place -/

/-- A buffer with the codes of a cluster, as a writer with this configuration writes them. -/
structure CodesHeld (env : Option ℤ) (config : StoreConfig) (dim : UInt32)
    (codes : List RaBitQCode) (b : Buffer) : Prop where
  kept : ∃ given : StoreConfig, given.opened env = .ok config
  dims : 0 < dim.toNat
  fits : fastScanBytes dim codes.length +
    exDataBytes config dim (effectiveWriterFileVersion env config) codes < 2 ^ 32
  signs : FastScanHeld dim codes b
  clean : ∀ unit ∈ exDataUnits config dim (effectiveWriterFileVersion env config) codes,
    unit.emission.error = none
  extra : b.Has (fastScanBytes dim codes.length)
    ((exDataUnits config dim (effectiveWriterFileVersion env config) codes).flatMap fun unit =>
      unit.emission.bytes)
  size : b.size = fastScanBytes dim codes.length +
    exDataBytes config dim (effectiveWriterFileVersion env config) codes

namespace CodesHeld

variable {i : ℕ} {region1Size : UInt32}

theorem region (held : CodesHeld env config dim codes b) :
    fastScanBytes dim codes.length < 2 ^ 32 :=
  Nat.lt_of_le_of_lt (Nat.le_add_right _ _) held.fits

theorem counted (held : CodesHeld env config dim codes b) (below : i < codes.length) :
    DimCounted dim := by
  have small := dim_small held.region (show 0 < codes.length by omega)
  refine ⟨dimBlockCount_counted small, ?_, held.dims⟩
  rw [packedSignBytes, UInt32.toNat_div, UInt32.toNat_add]
  simp only [UInt32.reduceToNat]
  omega

theorem few (held : CodesHeld env config dim codes b) : codes.length < 2 ^ 30 := by
  have small := count_small held.region
  omega

theorem index_toNat (held : CodesHeld env config dim codes b) (below : i < codes.length) :
    (UInt32.ofNat i).toNat = i :=
  UInt32.toNat_ofNat_of_lt' (Nat.lt_trans below (Nat.lt_trans held.few (by decide)))

/-- The block and the lane of a record's signs. -/
theorem signIndex (held : CodesHeld env config dim codes b) (below : i < codes.length) :
    (UInt32.ofNat i / 32).toNat = i / 32 ∧ (UInt32.ofNat i % 32).toNat = i % 32 := by
  have index := held.index_toNat below
  exact ⟨by rw [UInt32.toNat_div, index]; rfl, by rw [UInt32.toNat_mod, index]; rfl⟩

/-- The batch block and the lane of a record's extra code. -/
theorem laneIndex (held : CodesHeld env config dim codes b) (below : i < codes.length) :
    (UInt32.ofNat i / 8).toNat = i / 8 ∧ (UInt32.ofNat i % 8).toNat = i % 8 ∧
      i % 8 < validCount (UInt32.ofNat codes.length) (i / 8) := by
  have index := held.index_toNat below
  refine ⟨by rw [UInt32.toNat_div, index]; rfl, by rw [UInt32.toNat_mod, index]; rfl, ?_⟩
  rw [validCount, ofNat_count held.region]
  omega

/-- The offset of a batch block in the header of a variable region. -/
theorem batchOffset (held : CodesHeld env config dim codes b) (bb : ℕ) :
    UInt32.ofNat ((8 + (numBatchBlocks (UInt32.ofNat codes.length) + 1) * 4).toNat +
        (((variableBatches config dim codes).take bb).map fun batch => batch.bytes.length).sum) =
      UInt32.ofNat (variableOffset config dim codes
        (min bb (numBatchBlocks (UInt32.ofNat codes.length)).toNat)) := by
  have few := held.few
  have blocks := numBatchBlocks_counted held.region
  have header : (8 + (numBatchBlocks (UInt32.ofNat codes.length) + 1) * 4).toNat =
      8 + ((codes.length + 7) / 8 + 1) * 4 := by
    rw [UInt32.toNat_add, UInt32.toNat_mul, UInt32.toNat_add, blocks]
    simp only [UInt32.reduceToNat]
    omega
  rw [header, variableBatches, ← List.map_take, List.take_range, List.map_map]
  rfl

/-- The size of a cluster with a variable region. -/
theorem variable_size (held : CodesHeld env config dim codes b) (kept : VariableKept env config) :
    b.size = fastScanBytes dim codes.length +
        variableOffset config dim codes ((codes.length + 7) / 8) ∧
      b.size < 2 ^ 32 := by
  have total : exDataBytes config dim (effectiveWriterFileVersion env config) codes =
      variableOffset config dim codes ((codes.length + 7) / 8) := by
    rw [exDataBytes, if_neg kept.extra, if_pos kept.batched, if_pos ⟨kept.official, kept.varies⟩]
  exact ⟨held.size.trans (by rw [total]), by rw [held.size]; exact held.fits⟩

theorem variableOffset_toNat (held : CodesHeld env config dim codes b)
    (kept : VariableKept env config) {k : ℕ} (upTo : k ≤ (codes.length + 7) / 8) :
    (UInt32.ofNat (variableOffset config dim codes k)).toNat =
      variableOffset config dim codes k := by
  obtain ⟨size, small⟩ := held.variable_size kept
  have below := @variableOffset_mono config dim codes _ _ upTo
  exact UInt32.toNat_ofNat_of_lt' (Nat.lt_of_le_of_lt (by omega) small)

/-- The header of a variable region, as it is read, and the batch blocks after it. -/
theorem variable_region (held : CodesHeld env config dim codes b)
    (kept : VariableKept env config) :
    load32 b (fastScanBytes dim codes.length) = .ok kVariableExRegionMagic ∧
    load32 b (fastScanBytes dim codes.length + 4) =
      .ok (numBatchBlocks (UInt32.ofNat codes.length)) ∧
    (∀ k, k ≤ (codes.length + 7) / 8 → load32 b (fastScanBytes dim codes.length + 8 + 4 * k) =
      .ok (UInt32.ofNat (variableOffset config dim codes k))) ∧
    ∀ k, k < (codes.length + 7) / 8 →
      (variableBatch config dim codes (UInt32.ofNat codes.length) k).error = none ∧
      b.Has (fastScanBytes dim codes.length + variableOffset config dim codes k)
        (variableBatch config dim codes (UInt32.ofNat codes.length) k).bytes := by
  have blocks := numBatchBlocks_counted held.region
  rcases exDataUnits_clean held.clean with
    ⟨none, -⟩ | ⟨-, ⟨-, -, units⟩ | ⟨-, fixed, -⟩ | ⟨entries, -⟩⟩
  · exact absurd none kept.extra
  · have regionClean := held.clean _ (by rw [units]; exact List.mem_singleton.2 rfl)
    obtain ⟨batchesClean, bytes⟩ := variableRegion_bytes regionClean
    have whole := held.extra
    rw [units, List.flatMap_singleton, bytes, List.append_assoc, List.append_assoc] at whole
    have stored := load32_has whole.right.left
    have offsets := whole.right.right.left
    have batches := whole.right.right.right
    rw [batchOffsets_length, blocks] at batches
    simp only [leBytes_length] at stored offsets batches
    rw [batchOffsets, List.flatMap_map] at offsets
    rw [variableBatches, List.flatMap_map, blocks] at batches
    refine ⟨load32_has whole.left, stored, fun k upTo => ?_, fun k inside => ⟨?_, ?_⟩⟩
    · have here := offsets.row (show k < _ by omega) fun _ _ => leBytes_length 4 _
      rw [held.batchOffset, blocks, Nat.min_eq_left upTo] at here
      have word := load32_has here
      rwa [Nat.add_assoc _ 4 4, Nat.mul_comm k] at word
    · exact Emission.all_clean.1 batchesClean _
        (List.mem_map_of_mem (List.mem_range.2 (by omega)))
    · have batch := batches.nth inside
      have place : fastScanBytes dim codes.length + 4 + 4 + ((codes.length + 7) / 8 + 1) * 4 +
          ((List.range k).flatMap fun k =>
            (variableBatch config dim codes (UInt32.ofNat codes.length) k).bytes).length =
            fastScanBytes dim codes.length + variableOffset config dim codes k := by
        rw [List.length_flatMap, variableOffset]
        omega
      rwa [place] at batch
  · exact absurd ⟨kept.official, kept.varies⟩ fixed
  · exact absurd kept.batched entries

/-- **A batch block of a variable region** is where the header says. -/
theorem variable_batch (held : CodesHeld env config dim codes b) (kept : VariableKept env config)
    (below : i < codes.length) (region1 : region1Size.toNat = fastScanBytes dim codes.length) :
    ∃ block, loadedBatchBlock (fileGeometry env config dim) b region1Size (UInt32.ofNat i / 8) =
        .ok block ∧
      BatchHeld (fileGeometry env config dim) codes (UInt32.ofNat codes.length) (i / 8) b
        block := by
  have few := held.few
  have count := ofNat_count held.region
  have blocks := numBatchBlocks_counted held.region
  obtain ⟨blockId, -, -⟩ := held.laneIndex below
  have inside : i / 8 < (codes.length + 7) / 8 := by omega
  obtain ⟨size, fits⟩ := held.variable_size kept
  obtain ⟨magic, stored, offset, batches⟩ := held.variable_region kept
  obtain ⟨batchClean, batch⟩ := batches (i / 8) inside
  have upTo := @variableOffset_mono config dim codes _ _ (show i / 8 + 1 ≤ _ from inside)
  have next := @variableOffset_succ config dim codes (i / 8)
  have start := held.variableOffset_toNat kept (Nat.le_of_lt inside)
  have stop := held.variableOffset_toNat kept (show i / 8 + 1 ≤ _ from inside)
  have nextId : (UInt32.ofNat i / 8 + 1).toNat = i / 8 + 1 := by
    rw [UInt32.toNat_add, blockId]
    simp only [UInt32.reduceToNat]
    omega
  refine ⟨⟨fastScanBytes dim codes.length + variableOffset config dim codes (i / 8),
    UInt32.ofNat (variableOffset config dim codes (i / 8 + 1)) -
      UInt32.ofNat (variableOffset config dim codes (i / 8))⟩, ?_,
    kept.batchHeld (held.counted below) count batchClean batch ?_⟩
  · have known : ¬ (kVariableExRegionMagic ≠ kVariableExRegionMagic ∨
        numBatchBlocks (UInt32.ofNat codes.length) ≤ UInt32.ofNat i / 8) := by
      rintro (other | past)
      · exact other rfl
      · rw [UInt32.le_iff_toNat_le, blocks, blockId] at past
        omega
    have room : ¬ (UInt32.ofNat (variableOffset config dim codes (i / 8 + 1)) <
          UInt32.ofNat (variableOffset config dim codes (i / 8)) ∨
        (b.size + 2 ^ 64 - fastScanBytes dim codes.length) % 2 ^ 64 <
          (UInt32.ofNat (variableOffset config dim codes (i / 8 + 1))).toNat) := by
      rw [UInt32.lt_iff_toNat_lt, start, stop, size]
      omega
    have varying := @VariableKept.variableExBlocks _ _ dim kept
    rw [loadedBatchBlock, if_pos varying, region1]
    simp only [magic, stored, blockId, nextId, offset (i / 8) (by omega),
      offset (i / 8 + 1) inside, Except.bind]
    rw [if_neg known, if_neg room, start]
  · rw [UInt32.toNat_sub_of_le _ _ (by rw [UInt32.le_iff_toNat_le, start, stop]; omega), start,
      stop]
    omega

/-- **A batch block of one size** is where its number says. -/
theorem fixed_batch (held : CodesHeld env config dim codes b) (kept : FixedKept env config)
    (below : i < codes.length) (region1 : region1Size.toNat = fastScanBytes dim codes.length) :
    ∃ block, loadedBatchBlock (fileGeometry env config dim) b region1Size (UInt32.ofNat i / 8) =
        .ok block ∧
      BatchHeld (fileGeometry env config dim) codes (UInt32.ofNat codes.length) (i / 8) b
        block := by
  have fits := held.fits
  have count := ofNat_count held.region
  have blocks := numBatchBlocks_counted held.region
  have dims := (held.counted below).blocks
  obtain ⟨blockId, -, -⟩ := held.laneIndex below
  have inside : i / 8 < (codes.length + 7) / 8 := by omega
  rw [exDataBytes, if_neg kept.extra, if_pos kept.batched, if_neg kept.fixed, ← dims] at fits
  have one : fixedBatchSize config (dimBlockCount dim).toNat
      (decide (12 ≤ effectiveWriterFileVersion env config)) < 2 ^ 32 := by
    have least := Nat.le_mul_of_pos_left (fixedBatchSize config (dimBlockCount dim).toNat
      (decide (12 ≤ effectiveWriterFileVersion env config)))
      (show 0 < (codes.length + 7) / 8 by omega)
    omega
  have size : (fileGeometry env config dim).exrabitqBatchBlockSize.toNat =
      fixedBatchSize config (dimBlockCount dim).toNat
        (decide (12 ≤ effectiveWriterFileVersion env config)) := by
    rw [kept.batchBlockSize, fixedBatchBytes_counted one]
  rcases exDataUnits_clean held.clean with
    ⟨none, -⟩ | ⟨-, ⟨-, varies, -⟩ | ⟨-, -, units⟩ | ⟨entries, -⟩⟩
  · exact absurd none kept.extra
  · exact absurd varies kept.fixed
  · have clean : ∀ k, k < (codes.length + 7) / 8 → (fixedBatch config dim
        (decide (12 ≤ effectiveWriterFileVersion env config)) codes (UInt32.ofNat codes.length)
        k).error = none := by
      intro k before
      have each := held.clean
      rw [units, List.forall_mem_map] at each
      exact each k (List.mem_range.2 (by omega))
    have whole := held.extra
    rw [units, List.flatMap_map, blocks] at whole
    have batch := whole.row inside fun k before => fixedBatch_length (clean k (by omega))
    refine ⟨⟨fastScanBytes dim codes.length + i / 8 * fixedBatchSize config
        (dimBlockCount dim).toNat (decide (12 ≤ effectiveWriterFileVersion env config)),
      (fileGeometry env config dim).exrabitqBatchBlockSize⟩, ?_,
      kept.batchHeld (held.counted below) count (fixedBatch_held (clean _ inside) batch) one size⟩
    have fixed : ¬ (fileGeometry env config dim).variableExBlocks = true :=
      Bool.eq_false_iff.1 kept.variableExBlocks
    rw [loadedBatchBlock, if_neg fixed, region1, blockId, size]
  · exact absurd kept.batched entries

/-- What the checks of an entry say of its code. -/
theorem entryUnit_clean {code : RaBitQCode} (clean : (entryUnit dim code).emission.error = none) :
    code.exCode.length = dim.toNat ∧ code.exSignPacked.length = (packedSignBytes dim).toNat ∧
      (entryUnit dim code).emission.bytes =
        code.exCode ++ (code.exSignPacked ++ leBytes 4 code.xipnorm.toNat) := by
  obtain ⟨required, -⟩ := Emission.append_clean.1 clean
  have lengths : code.exCode.length = dim.toNat ∧
      code.exSignPacked.length = (packedSignBytes dim).toNat := by
    simpa using Emission.require_clean.1 required
  refine ⟨lengths.1, lengths.2, ?_⟩
  rw [entryUnit, Emission.append_bytes required, Emission.require_bytes, List.nil_append]
  exact List.append_assoc _ _ _

/-- **The batch block of a record**, in either layout. -/
theorem record_batch (held : CodesHeld env config dim codes b)
    (some : config.stage2PayloadBits ≠ 0) (batched : 11 ≤ effectiveWriterFileVersion env config)
    (below : i < codes.length) (region1 : region1Size.toNat = fastScanBytes dim codes.length) :
    ∃ block, loadedBatchBlock (fileGeometry env config dim) b region1Size (UInt32.ofNat i / 8) =
        .ok block ∧
      BatchHeld (fileGeometry env config dim) codes (UInt32.ofNat codes.length) (i / 8) b
        block := by
  obtain ⟨given, accepted⟩ := held.kept
  by_cases varies : config.usesOfficial1PlusN = true ∧
      usesVariableOfficialExDataLayout config.effectiveExdataLayout = true
  · have version : effectiveWriterFileVersion env config = 15 := by
      rw [effectiveWriterFileVersion, if_pos varies.1, if_pos varies.2]
    have packs := packsBits_of_kept accepted some (by rw [version]; decide)
    exact held.variable_batch ⟨varies.1, varies.2, packs⟩ below region1
  · have packs := packsBits_of_kept accepted some
    exact held.fixed_batch ⟨varies, batched, some, packs⟩ below region1

/-- The size of an entry, as the reader computes it. -/
theorem entrySize (held : CodesHeld env config dim codes b) (below : i < codes.length)
    (some : config.stage2PayloadBits ≠ 0)
    (old : ¬ 11 ≤ effectiveWriterFileVersion env config) :
    config.usesOfficial1PlusN = false ∧
      (fileGeometry env config dim).exrabitqSignBytes.toNat = (dim.toNat + 7) / 8 ∧
      (fileGeometry env config dim).exrabitqEntrySize.toNat =
        dim.toNat + (dim.toNat + 7) / 8 + 4 := by
  have legacy : ¬ config.usesOfficial1PlusN = true := by
    intro official
    exact old (UInt32.le_trans (by decide) (officialVersion official).1)
  have extra : ¬ config.bits ≤ 1 := by
    intro none
    rw [RaBitQConfig.stage2PayloadBits, if_neg legacy] at some
    exact some (if_neg (UInt8.not_lt.2 none))
  have fits := held.fits
  rw [exDataBytes, if_neg some, if_neg old] at fits
  have one := Nat.le_mul_of_pos_left (dim.toNat + (dim.toNat + 7) / 8 + 4)
    (show 0 < codes.length by omega)
  have signs : (fileGeometry env config dim).exrabitqSignBytes = packedSignBytes dim :=
    (if_neg legacy).trans ((if_neg extra).trans (if_pos (ten_le_version env config)))
  have size : (fileGeometry env config dim).exrabitqEntrySize = dim + packedSignBytes dim + 4 := by
    rw [ReaderGeometry.exrabitqEntrySize, signs]
    exact (if_neg extra).trans (if_neg old)
  have width := (held.counted below).signs
  refine ⟨Bool.eq_false_iff.2 legacy, by rw [signs, width], ?_⟩
  rw [size, UInt32.toNat_add, UInt32.toNat_add, width]
  simp only [UInt32.reduceToNat]
  omega

/-- **An entry is loaded** as it was written. -/
theorem loads_entry (held : CodesHeld env config dim codes b) {code : RaBitQCode}
    (found : codes[i]? = some code) (some : config.stage2PayloadBits ≠ 0)
    (old : ¬ 11 ≤ effectiveWriterFileVersion env config)
    (region1 : region1Size.toNat = fastScanBytes dim codes.length) (out : RaBitQCode) :
    loadEntryCode (fileGeometry env config dim) b region1Size (UInt32.ofNat i) out =
      .ok { out with
        exCode := code.exCode, exSignPacked := code.exSignPacked, xipnorm := code.xipnorm } := by
  obtain ⟨below, here⟩ := List.getElem?_eq_some_iff.1 found
  obtain ⟨legacy, signWidth, entryWidth⟩ := held.entrySize below some old
  have signs := (held.counted below).signs
  have index := held.index_toNat below
  rcases exDataUnits_clean held.clean with
    ⟨none, -⟩ | ⟨-, ⟨batched, -⟩ | ⟨batched, -⟩ | ⟨-, units⟩⟩
  · exact absurd none some
  · exact absurd batched old
  · exact absurd batched old
  · have each : ∀ code ∈ codes, (entryUnit dim code).emission.error = none := by
      intro code mem
      exact held.clean _ (by rw [units]; exact List.mem_map_of_mem mem)
    have whole := held.extra
    have split : codes = codes.take i ++ (code :: codes.drop (i + 1)) := by
      rw [← here, List.getElem_cons_drop, List.take_append_drop]
    rw [units, List.flatMap_map, split, List.flatMap_append, List.flatMap_cons, ← split] at whole
    have front : ((codes.take i).flatMap fun code => (entryUnit dim code).emission.bytes).length =
        i * (dim.toNat + (dim.toNat + 7) / 8 + 4) := by
      have small := dim_small held.region (show 0 < codes.length by omega)
      rw [List.length_flatMap, List.map_congr_left fun code mem =>
        (entryUnit_length small (each code (List.mem_of_mem_take mem))).1, List.map_const',
        List.sum_replicate, smul_eq_mul, List.length_take, Nat.min_eq_left (by omega)]
    obtain ⟨codeLength, signLength, bytes⟩ :=
      entryUnit_clean (each code (List.mem_of_getElem? found))
    have entry := whole.right.left
    rw [front, bytes] at entry
    have codePart := entry.left
    have signPart := entry.right.left
    have factor := load32_has entry.right.right
    rw [codeLength] at signPart factor
    rw [signLength, signs] at factor
    have codeInside := codePart.inside
    have signInside := signPart.inside
    rw [codeLength] at codeInside
    rw [signLength, signs] at signInside
    have codeRead : (List.range dim.toNat).map (fun j => b.byte (fastScanBytes dim codes.length +
        i * (dim.toNat + (dim.toNat + 7) / 8 + 4) + j)) = code.exCode := by
      refine bytesOf_eq (b := ⟨0, _⟩) codeLength fun j inside => ?_
      exact codePart.bytes j (by omega)
    have signRead : (List.range ((dim.toNat + 7) / 8)).map (fun j => b.byte (fastScanBytes dim
        codes.length + i * (dim.toNat + (dim.toNat + 7) / 8 + 4) + dim.toNat + j)) =
          code.exSignPacked := by
      refine bytesOf_eq (b := ⟨0, _⟩) (signLength.trans signs) fun j inside => ?_
      exact signPart.bytes j (by omega)
    have ten : 10 ≤ (fileGeometry env config dim).fileVersion := ten_le_version env config
    have dims : (fileGeometry env config dim).dim = dim := rfl
    simp only [loadEntryCode, if_pos ten, region1, index, entryWidth, signWidth, dims]
    rw [Buffer.load_inside codeInside]
    dsimp only [Result.inBounds, Except.bind]
    rw [Buffer.load_inside signInside]
    dsimp only [Except.map]
    rw [factor, codeRead, signRead]

/-! ## A record -/

variable {View Parsed : Type} {r : ClusterStoreReader View Parsed} {data : ClusterData}
variable {entry : LookupEntry} {clusterId : UInt32}

/-- A reader that has the cluster loaded. -/
structure LoadedIn (env : Option ℤ) (config : StoreConfig) (dim : UInt32)
    (codes : List RaBitQCode) (r : ClusterStoreReader View Parsed) (clusterId : UInt32)
    (entry : LookupEntry) (data : ClusterData) : Prop where
  isOpen : 0 ≤ r.fd
  geometry : r.geometry = fileGeometry env config dim
  found : r.entryOf clusterId = some entry
  loaded : r.loadedClusters clusterId = some data
  records : entry.numRecords.toNat = codes.length
  blocks : (entry.numFastscanBlocks * (fileGeometry env config dim).fastscanBlockBytes).toNat =
    fastScanBytes dim codes.length

/-- **The code words of a record are loaded** as the file keeps them. -/
theorem loadCode_ok (held : CodesHeld env config dim codes data.codesBuffer)
    (loaded : LoadedIn env config dim codes r clusterId entry data) {code : RaBitQCode}
    (found : codes[i]? = some code) :
    r.loadCode clusterId (UInt32.ofNat i) = .ok (signWords dim.toNat code) := by
  obtain ⟨below, -⟩ := List.getElem?_eq_some_iff.1 found
  have index := held.index_toNat below
  have small := dim_small held.region (show 0 < codes.length by omega)
  have blockBytes : (fileGeometry env config dim).fastscanBlockBytes.toNat =
      FastScanHeld.blockBytes dim := (fastScanBlockSize_counted small).1
  have dims : r.info.dim = dim := congrArg ReaderGeometry.dim loaded.geometry
  have count : ((dim + 63) / 64).toNat = (dim.toNat + 63) / 64 := by
    rw [UInt32.toNat_div, UInt32.toNat_add]
    simp only [UInt32.reduceToNat]
    omega
  obtain ⟨words, unpacked, rebuilt⟩ := held.signs.unpacks found
  have inside : ¬ entry.numRecords ≤ UInt32.ofNat i := by
    rw [UInt32.le_iff_toNat_le, loaded.records, index]
    omega
  obtain ⟨block, lane⟩ := held.signIndex below
  rw [ClusterStoreReader.loadCode, if_neg (Int.not_lt.2 loaded.isOpen), loaded.loaded, loaded.found]
  dsimp only
  rw [if_neg inside, loaded.geometry, dims, block, lane, blockBytes, count, bytesFrom, unpacked]
  exact congrArg Except.ok rebuilt

/-- **A record is loaded** as the file keeps it. -/
theorem loads_record (held : CodesHeld env config dim codes data.codesBuffer)
    (loaded : LoadedIn env config dim codes r clusterId entry data) {code : RaBitQCode}
    (found : codes[i]? = some code) (build : Build)
    (officialXipnorm : UInt32 → UInt32 → UInt32) (out : RaBitQCode) :
    r.loadRecord build officialXipnorm clusterId entry (UInt32.ofNat i) out =
      .ok (keptCode dim.toNat config officialXipnorm out code) := by
  obtain ⟨below, -⟩ := List.getElem?_eq_some_iff.1 found
  have small := dim_small held.region (show 0 < codes.length by omega)
  obtain ⟨blockBytes, -⟩ := fastScanBlockSize_counted small
  have packedSize : (fileGeometry env config dim).fastscanPackedSize.toNat =
      (dim.toNat + 7) / 8 * 32 := by
    show ((dim + 7) / 8 * 32).toNat = _
    rw [UInt32.toNat_mul, UInt32.toNat_div, UInt32.toNat_add]
    simp only [UInt32.reduceToNat]
    omega
  obtain ⟨block, lane⟩ := held.signIndex below
  have norm := held.signs.norm found
  have place : (UInt32.ofNat i / 32).toNat * r.geometry.fastscanBlockBytes.toNat +
      r.geometry.fastscanPackedSize.toNat + 4 * (UInt32.ofNat i % 32).toNat =
        i / 32 * FastScanHeld.blockBytes dim + (dim.toNat + 7) / 8 * 32 + i % 32 * 4 := by
    rw [loaded.geometry, packedSize, block, lane, Nat.mul_comm 4]
    exact congrArg (fun size => i / 32 * size + _ + _) blockBytes
  simp only [ClusterStoreReader.loadRecord, held.loadCode_ok loaded found, loaded.loaded,
    Result.inBounds, Except.bind, place, norm]
  rw [loaded.geometry]
  have laneFound : laneCode codes (i / 8) (i % 8) = code := by
    rw [laneCode, Nat.div_add_mod, List.getD_eq_getElem?_getD, found]
    rfl
  obtain ⟨-, laneId, inBatch⟩ := held.laneIndex below
  by_cases none : config.stage2PayloadBits = 0
  · have skip : ¬ (0 < (fileGeometry env config dim).config.stage2PayloadBits ∧
        (11 ≤ (fileGeometry env config dim).fileVersion ∨
          0 < (fileGeometry env config dim).exrabitqEntrySize)) := by
      rintro ⟨positive, -⟩
      exact UInt8.pos_iff_ne_zero.1 positive none
    rw [if_neg skip, keptCode]
    exact (congrArg Except.ok (if_pos none)).symm
  · have positive : 0 < (fileGeometry env config dim).config.stage2PayloadBits :=
      UInt8.pos_iff_ne_zero.2 none
    by_cases batched : 11 ≤ effectiveWriterFileVersion env config
    · obtain ⟨batch, batchAt, batchHeld⟩ := held.record_batch none batched below loaded.blocks
      have read := batchHeld.loads batchAt (by rw [laneId]; exact inBatch) build officialXipnorm
        { out with
          code := signWords dim.toNat code
          bits := config.activeCodeBits
          norm := code.norm
          sumX := (signWords dim.toNat code).foldl
            (fun sum w => sum + UInt32.ofNat (popcount64 w)) 0 }
      rw [laneId, laneFound] at read
      rw [if_pos ⟨positive, .inl batched⟩]
      refine (if_pos batched).trans (read.trans (congrArg Except.ok ?_))
      rw [keptCode, if_neg none]
      rfl
    · obtain ⟨legacy, -, entryWidth⟩ := held.entrySize below none batched
      have sized : 0 < (fileGeometry env config dim).exrabitqEntrySize := by
        rw [UInt32.lt_iff_toNat_lt, entryWidth]
        simp only [UInt32.toNat_zero]
        omega
      have read := held.loads_entry found none batched loaded.blocks
        { out with
          code := signWords dim.toNat code
          bits := config.activeCodeBits
          norm := code.norm
          sumX := (signWords dim.toNat code).foldl
            (fun sum w => sum + UInt32.ofNat (popcount64 w)) 0 }
      rw [if_pos ⟨positive, .inr sized⟩]
      refine (if_neg batched).trans (read.trans (congrArg Except.ok ?_))
      rw [keptCode, if_neg none, if_neg (Bool.eq_false_iff.1 legacy)]

/-- **Any records of a cluster are loaded**, in any order, as the file keeps them. -/
theorem loads_codes (held : CodesHeld env config dim codes data.codesBuffer)
    (loaded : LoadedIn env config dim codes r clusterId entry data)
    (build : Build)
    (officialXipnorm : UInt32 → UInt32 → UInt32) {indices : List UInt32}
    (inside : ∀ i ∈ indices, i.toNat < codes.length) (outCodes : List RaBitQCode) :
    r.loadCodes build officialXipnorm clusterId indices outCodes =
      .ok (indices.zipIdx.map fun row =>
        keptCode dim.toNat config officialXipnorm
          (outCodes.getD row.2 { code := [], norm := 0, sumX := 0 })
          (codes.getD row.1.toNat { code := [], norm := 0, sumX := 0 })) := by
  rw [ClusterStoreReader.loadCodes, if_neg (Int.not_lt.2 loaded.isOpen), loaded.found]
  refine mapM_except_map fun row mem => ?_
  have below := inside row.1 (List.fst_mem_of_mem_zipIdx mem)
  have found := List.getElem?_eq_getElem below
  have record := held.loads_record loaded found build
    officialXipnorm (outCodes.getD row.2 { code := [], norm := 0, sumX := 0 })
  rw [UInt32.ofNat_toNat] at record
  rw [List.getD_eq_getElem _ _ below]
  exact record

end CodesHeld

end Written

end VecFetch.Storage
