/-
# Index.ProbeLanes -- the probe of a cluster, mask by mask

`ClusterProber::Probe` as it runs: a block's survivors are compacted from its masks,
those stage 1 settles go to the batch, the rest to four blocks of eight lanes, whose
lane masks drive the kernel, the classification and the scatter back into the batch;
the batch's addresses are decoded last.

The distances are over any float arithmetic.  What the FastScan and the stage-2 kernels
leave is an input, and so is the envelope's verdict on a block.
-/
import VecFetch.Simd.Stage1
import VecFetch.Storage.RawTable

namespace VecFetch.Index.ProbeLanes

open VecFetch.Theory VecFetch.Simd VecFetch.Query FloatArith
open VecFetch.Storage (RawAddressEntryV2 decodeRawEntryV2)

set_option autoImplicit false

/-- `kStage2BatchSize`. -/
def kStage2BatchSize : UInt32 := 8

/-! ## What the prober reads -/

/-- `ParsedCluster`.  `rawAccu` is what `AccumulateBlock` leaves for a block,
`batchKernel` the inner products by block, requested lanes and lane, and `entryKernel`
those of the older formats, by the records handed over and the place among them. -/
structure ParsedCluster (F : Type) where
  numRecords : UInt32
  numFastscanBlocks : UInt32
  rawAccu : UInt32 → ℕ → UInt32
  blockNorms : UInt32 → ℕ → F
  envelopeSafeOut : UInt32 → Bool
  hasExrabitqEntries : Bool
  hasExrabitqBatchBlocks : Bool
  exrabitqStorageVersion : UInt32
  usesOfficial1PlusN : Bool
  rabitqExBits : ℕ
  entryXipnorm : UInt32 → F
  xipnorms : UInt32 → ℕ → F
  officialFactorAdds : UInt32 → ℕ → F
  officialFactorRescales : UInt32 → ℕ → F
  batchKernel : UInt32 → UInt32 → ℕ → F
  entryKernel : List UInt32 → ℕ → F
  decodedAddresses : Option (List AddressEntry)
  rawAddresses : Option (List RawAddressEntryV2)
  addressPageSize : UInt32

namespace ParsedCluster

variable {F : Type}

/-- `AddressAt`. -/
def addressAt (pc : ParsedCluster F) (vecIdx : UInt32) : AddressEntry :=
  match pc.decodedAddresses, pc.rawAddresses with
  | some decoded, _ => decoded.getD vecIdx.toNat ⟨0, 0⟩
  | none, some raw => decodeRawEntryV2 (raw.getD vecIdx.toNat ⟨0, 0⟩) pc.addressPageSize
  | none, none => ⟨0, 0⟩

/-- `DecodeAddressBatch`. -/
def decodeAddressBatch (pc : ParsedCluster F) (vecIdxs : List UInt32) : List AddressEntry :=
  match pc.decodedAddresses, pc.rawAddresses with
  | some decoded, _ => vecIdxs.map fun vecIdx => decoded.getD vecIdx.toNat ⟨0, 0⟩
  | none, some raw =>
      vecIdxs.map fun vecIdx => decodeRawEntryV2 (raw.getD vecIdx.toNat ⟨0, 0⟩) pc.addressPageSize
  | none, none => vecIdxs.map fun _ => ⟨0, 0⟩

end ParsedCluster

/-- The prober, the query's view of the cluster, and the settings of a probe. -/
structure ProbeArgs (F : Type) where
  build : Build
  invSqrtDim : F
  hasS2 : Bool
  marginS2Divisor : F
  fsShift : ℤ
  fsWidth : F
  sumQ : F
  normQc : F
  normQcSq : F
  safeinMarginFactor : F
  safeoutMarginFactor : F
  safeoutFrontierUpper : F
  safeinThresholdBase : F
  enableAddressDecodeSimd : Bool
  enableStage1Safein : Bool
  enableStage1BlockSkipEnvelope : Bool
  enableStage2CollectBlockFirst : Bool
  enableStage2ScatterBatchClassify : Bool

/-- A lane of `CandidateBatch`, before its address is decoded. -/
structure BatchLane (F : Type) where
  globalIdx : UInt32
  estDist : F
  estError : F
  estimateLowerBound : F
  safeinUpperBound : F
  cls : CandidateClass

structure ProbeStats where
  s1Safein : UInt32 := 0
  s1Safeout : UInt32 := 0
  s1Uncertain : UInt32 := 0
  s2Safein : UInt32 := 0
  s2Safeout : UInt32 := 0
  s2Uncertain : UInt32 := 0
  numStage1Blocks : UInt32 := 0
  numStage2Candidates : UInt32 := 0
  stage1FusedBlocks : UInt32 := 0
  stage1FusedSafeoutLanes : UInt32 := 0
  stage1FusedSafeinLanes : UInt32 := 0
  stage1EnvelopeTestedBlocks : UInt32 := 0
  stage1EnvelopeSkippedBlocks : UInt32 := 0
  stage1EnvelopeSafeoutLanes : UInt32 := 0

/-! ## Masks -/

/-- `LaneMaskForCount`. -/
def laneMaskForCount (count : UInt32) : UInt32 :=
  if 32 ≤ count then 0xFFFFFFFF else lowMask count.toNat

/-- `CompactMaskToIndices`. -/
def compactMaskToIndices (mask : UInt32) : List ℕ :=
  foldMask (fun out lane => out ++ [lane]) mask.toNat []

def popcount32 (mask : UInt32) : UInt32 := UInt32.ofNat (popcount mask)

/-! ## Stage 2 -/

structure Stage2LaneEntry (F : Type) where
  globalIdx : UInt32
  estDistS1 : F
  marginS1 : F
  safeoutMarginS1 : F
  normOc : F
  ipX0Qr : F
  xipnorm : F

/-- The lanes collected for one block of eight. -/
structure Stage2BlockScratch (F : Type) where
  used : Bool := false
  blockId : UInt32 := 0
  laneMask : UInt32 := 0
  lanes : ℕ → Option (Stage2LaneEntry F) := fun _ => none

/-- The four scratch blocks of a FastScan block and what was collected so far. -/
structure Collected (F : Type) where
  blocks : ℕ → Stage2BlockScratch F := fun _ => {}
  blockCount : ℕ := 0
  candidateCount : ℕ := 0
  batch : List (BatchLane F) := []

section Probe

variable {F : Type} [FloatArith F] (args : ProbeArgs F) (pc : ParsedCluster F)

/-- The scratch block of a survivor, opened if it is not in use yet. -/
def scratchBlock (j : ℕ) (baseIdx : UInt32) (c : Collected F) : ℕ × Collected F :=
  if args.enableStage2CollectBlockFirst then
    let slot := j / kStage2BatchSize.toNat
    if (c.blocks slot).used then (slot, c)
    else
      (slot, { c with
        blocks := Function.update c.blocks slot { c.blocks slot with
          used := true
          blockId := baseIdx / kStage2BatchSize + UInt32.ofNat slot
          laneMask := 0 }
        blockCount := c.blockCount + 1 })
  else
    let blockId := (baseIdx + UInt32.ofNat j) / kStage2BatchSize
    match (List.range c.blockCount).find? fun bi => (c.blocks bi).blockId == blockId with
    | some bi => (bi, c)
    | none =>
        (c.blockCount, { c with
          blocks := Function.update c.blocks c.blockCount { c.blocks c.blockCount with
            used := true
            blockId := blockId
            laneMask := 0 }
          blockCount := c.blockCount + 1 })

/-- The margins of a survivor. -/
def safeinMarginS1 (norm : F) : F := args.safeinMarginFactor * norm

def safeoutMarginS1 (norm : F) : F := args.safeoutMarginFactor * norm

/-- Stage 2 has data for the cluster. -/
def stage2Runs : Bool :=
  args.hasS2 && (pc.hasExrabitqEntries || pc.hasExrabitqBatchBlocks)

/-- One turn of the survivor loop. -/
def collectSurvivor (baseIdx : UInt32) (norms : ℕ → F) (eval : FastScanStage1EvalResult F)
    (safeinMask : UInt32) (c : Collected F) (j : ℕ) : Collected F :=
  let globalIdx := baseIdx + UInt32.ofNat j
  let estDistS1 := eval.dists j
  let safeinMargin := safeinMarginS1 args (norms j)
  let safeoutMargin := safeoutMarginS1 args (norms j)
  if !hasLane safeinMask j && stage2Runs args pc then
    let laneId := (globalIdx % kStage2BatchSize).toNat
    let (slot, c) := scratchBlock args j baseIdx c
    let block := c.blocks slot
    let entry : Stage2LaneEntry F :=
      { globalIdx := globalIdx
        estDistS1 := estDistS1
        marginS1 := safeinMargin
        safeoutMarginS1 := safeoutMargin
        normOc := norms j
        ipX0Qr := eval.ipX0Qr j
        xipnorm := if 11 ≤ pc.exrabitqStorageVersion then ofInt 0 else pc.entryXipnorm globalIdx }
    { c with
      blocks := Function.update c.blocks slot { block with
        lanes := Function.update block.lanes laneId (some entry)
        laneMask := block.laneMask ||| bitAt laneId }
      candidateCount := c.candidateCount + 1 }
  else
    { c with batch := c.batch ++ [
        { globalIdx := globalIdx
          estDist := estDistS1
          estError := safeoutMargin
          estimateLowerBound := estDistS1 - safeoutMargin
          safeinUpperBound := estDistS1 + safeinMargin
          cls := if hasLane safeinMask j then .safeIn else .uncertain }] }

/-- The lanes of a scratch block that were collected, from the lowest up. -/
def Stage2BlockScratch.entries (block : Stage2BlockScratch F) :
    List (ℕ × Stage2LaneEntry F) :=
  ((List.range kStage2BatchSize.toNat).filter (hasLane block.laneMask)).filterMap fun lane =>
    (block.lanes lane).map fun entry => (lane, entry)

/-- `lane_ip_raw` of a lane: by lane in the batch formats, by place among the collected
lanes in the older ones. -/
def laneIpRaw (block : Stage2BlockScratch F) (lane : ℕ) : F :=
  if 11 ≤ pc.exrabitqStorageVersion then pc.batchKernel block.blockId block.laneMask lane
  else
    pc.entryKernel (block.entries.map fun entry => entry.2.globalIdx)
      ((List.range lane).filter (hasLane block.laneMask)).length

/-- `lane_xipnorm` of a lane. -/
def laneXipnorm (block : Stage2BlockScratch F) (lane : ℕ) (entry : Stage2LaneEntry F) : F :=
  if 11 ≤ pc.exrabitqStorageVersion then pc.xipnorms block.blockId lane else entry.xipnorm

/-- The stage-2 estimate of the signed-magnitude formats. -/
def legacyEstDist (normOc ipRaw xipnorm : F) : F :=
  let ipEst := ipRaw * xipnorm
  stdMax (normOc * normOc + args.normQcSq - ofInt 2 * normOc * args.normQc * ipEst) (ofInt 0)

/-- The registers of `Stage2ClassifyBatch` in the AVX2 and AVX-512 builds. -/
def simdEstDist (normOc ipRaw xipnorm : F) : F :=
  let ipEst := ipRaw * xipnorm
  simdMax (normOc * normOc + args.normQcSq - ofInt 2 * args.normQc * normOc * ipEst) (ofInt 0)

/-- `OfficialRaBitQExBias`. -/
def officialRaBitQExBias (exBits : ℕ) : F := -(ofInt (2 ^ exBits) - ofInt 1 / ofInt 2)

/-- `OfficialRaBitQCombineNormalizedIP`. -/
def officialRaBitQCombineNormalizedIP (ipX0Qr ipExCode sumQ : F) (exBits : ℕ) : F :=
  ofInt (2 ^ exBits) * ipX0Qr + ipExCode + officialRaBitQExBias exBits * sumQ

/-- `OfficialRaBitQEstimateDistance`. -/
def officialRaBitQEstimateDistance (queryNormSq factorAdd factorRescale exIp : F) : F :=
  let dist := queryNormSq + factorAdd + factorRescale * exIp
  if lt (ofInt 0) dist then dist else ofInt 0

/-- `official_est_dist`. -/
def officialEstDist (block : Stage2BlockScratch F) (lane : ℕ) (entry : Stage2LaneEntry F) : F :=
  let normalizedIp :=
    officialRaBitQCombineNormalizedIP entry.ipX0Qr (laneIpRaw pc block lane) args.sumQ
      pc.rabitqExBits
  officialRaBitQEstimateDistance args.normQcSq (pc.officialFactorAdds block.blockId lane)
    (pc.officialFactorRescales block.blockId lane) (args.normQc * normalizedIp)

/-- `split_stage2_margin`. -/
def splitStage2Margin : Bool :=
  lt (ofInt 1 / ofInt 1000000000000) (abs (args.safeinMarginFactor - args.safeoutMarginFactor))

structure Stage2ClassifyMasks where
  safein : UInt32
  safeout : UInt32
  uncertain : UInt32

/-- `Stage2ClassifyBatch`, by the estimate and the margin of each lane. -/
def stage2ClassifyBatch (est margin : ℕ → F) (activeMask : UInt32) : Stage2ClassifyMasks :=
  let safeoutTest := fun lane => lt (args.safeoutFrontierUpper + margin lane) (est lane)
  let safeinTest := fun lane => lt (est lane) (args.safeinThresholdBase - margin lane)
  match args.build with
  | .scalar =>
      { safeout := scalarMask 8 fun lane => hasLane activeMask lane && safeoutTest lane
        safein := scalarMask 8 fun lane =>
          hasLane activeMask lane && (!safeoutTest lane && safeinTest lane)
        uncertain := scalarMask 8 fun lane =>
          hasLane activeMask lane && (!safeoutTest lane && !safeinTest lane) }
  | _ =>
      let safeout := scalarMask 8 safeoutTest &&& activeMask
      let safein := scalarMask 8 safeinTest &&& activeMask &&& ~~~safeout
      { safeout := safeout
        safein := safein
        uncertain := activeMask &&& ~~~safeout &&& ~~~safein }

/-- The batch entry of a lane that stage 2 keeps. -/
def stage2Lane (entry : Stage2LaneEntry F) (estDistS2 : F) (cls : CandidateClass) : BatchLane F :=
  let safeoutMarginS2 := entry.safeoutMarginS1 / args.marginS2Divisor
  let safeinMarginS2 := entry.marginS1 / args.marginS2Divisor
  { globalIdx := entry.globalIdx
    estDist := estDistS2
    estError := safeoutMarginS2
    estimateLowerBound := estDistS2 - safeoutMarginS2
    safeinUpperBound := estDistS2 + safeinMarginS2
    cls := cls }

/-- What a block's probe leaves: the envelope's verdict, stage 1's mask, the records
stage 2 dropped, the batch, and the counters so far. -/
structure BlockOutcome (F : Type) where
  skipped : Bool := false
  safeoutMask : UInt32 := 0
  stage2Dropped : List UInt32 := []
  batch : List (BatchLane F) := []
  stats : ProbeStats

/-- The scatter after `Stage2ClassifyBatch`. -/
def scatterBatch (block : Stage2BlockScratch F) (o : BlockOutcome F) : BlockOutcome F :=
  let inv := ofInt 1 / args.marginS2Divisor
  let laneEst := fun lane =>
    match block.lanes lane with
    | some entry =>
        (match args.build with
          | .scalar => legacyEstDist args
          | _ => simdEstDist args) entry.normOc (laneIpRaw pc block lane)
            (laneXipnorm pc block lane entry)
    | none => ofInt 0
  let laneMargin := fun lane =>
    match block.lanes lane with
    | some entry => entry.marginS1 * inv
    | none => ofInt 0
  let masks := stage2ClassifyBatch args laneEst laneMargin block.laneMask
  let keepMask := masks.safein ||| masks.uncertain
  { o with
    stats := { o.stats with
      s2Safein := o.stats.s2Safein + popcount32 masks.safein
      s2Safeout := o.stats.s2Safeout + popcount32 masks.safeout
      s2Uncertain := o.stats.s2Uncertain + popcount32 masks.uncertain }
    stage2Dropped := o.stage2Dropped ++ (block.entries.filter fun entry =>
      hasLane masks.safeout entry.1).map fun entry => entry.2.globalIdx
    batch := o.batch ++ (block.entries.filter fun entry => hasLane keepMask entry.1).map
      fun (lane, entry) =>
        stage2Lane args entry
          (legacyEstDist args entry.normOc (laneIpRaw pc block lane) (laneXipnorm pc block lane entry))
          (if hasLane masks.safein lane then .safeIn else .uncertain) }

/-- One turn of the scatter that classifies lane by lane. -/
def scatterLane (block : Stage2BlockScratch F) (o : BlockOutcome F)
    (slot : ℕ × Stage2LaneEntry F) : BlockOutcome F :=
  let (lane, entry) := slot
  let estDistS2 :=
    if pc.usesOfficial1PlusN then officialEstDist args pc block lane entry
    else
      legacyEstDist args entry.normOc (laneIpRaw pc block lane) (laneXipnorm pc block lane entry)
  let safeinMarginS2 := entry.marginS1 / args.marginS2Divisor
  let safeoutMarginS2 := entry.safeoutMarginS1 / args.marginS2Divisor
  if lt (args.safeoutFrontierUpper + safeoutMarginS2) estDistS2 then
    { o with
      stats := { o.stats with s2Safeout := o.stats.s2Safeout + 1 }
      stage2Dropped := o.stage2Dropped ++ [entry.globalIdx] }
  else if lt estDistS2 (args.safeinThresholdBase - safeinMarginS2) then
    { o with
      stats := { o.stats with s2Safein := o.stats.s2Safein + 1 }
      batch := o.batch ++ [stage2Lane args entry estDistS2 .safeIn] }
  else
    { o with
      stats := { o.stats with s2Uncertain := o.stats.s2Uncertain + 1 }
      batch := o.batch ++ [stage2Lane args entry estDistS2 .uncertain] }

/-- Stage 2 of one scratch block. -/
def scatterBlock (block : Stage2BlockScratch F) (o : BlockOutcome F) : BlockOutcome F :=
  if !pc.usesOfficial1PlusN && args.enableStage2ScatterBatchClassify && !splitStage2Margin args then
    scatterBatch args pc block o
  else block.entries.foldl (scatterLane args pc block) o

/-! ## Probe -/

/-- The records of block `b` and their count. -/
def baseIdx (b : UInt32) : UInt32 := b * 32

def blockCount (b : UInt32) : UInt32 := min 32 (pc.numRecords - baseIdx b)

def stage1Args : Stage1Args F where
  fsShift := args.fsShift
  fsWidth := args.fsWidth
  sumQ := args.sumQ
  invSqrtDim := args.invSqrtDim
  normQc := args.normQc
  normQcSq := args.normQcSq
  safeoutFrontierUpper := args.safeoutFrontierUpper
  safeoutMarginFactor := args.safeoutMarginFactor
  safeinThresholdBase := args.safeinThresholdBase
  safeinMarginFactor := args.safeinMarginFactor
  enableSafein := args.enableStage1Safein

/-- Both stages of a block that the envelope does not skip. -/
def probeStages (b : UInt32) (stats : ProbeStats) : BlockOutcome F :=
  let count := blockCount pc b
  let norms := pc.blockNorms b
  let eval := fastScanStage1Evaluate (stage1Args args) args.build (pc.rawAccu b) norms count.toNat
  let soMask := eval.safeoutMask
  let maybeIn := ~~~soMask &&& laneMaskForCount count
  let safeinMask := if args.enableStage1Safein then eval.safeinMask &&& maybeIn else 0
  let uncertainMask := maybeIn &&& ~~~safeinMask
  let stats := { stats with
    stage1FusedBlocks := stats.stage1FusedBlocks + 1
    stage1FusedSafeoutLanes := stats.stage1FusedSafeoutLanes + popcount32 soMask
    s1Safeout := stats.s1Safeout + popcount32 soMask
    stage1FusedSafeinLanes := stats.stage1FusedSafeinLanes + popcount32 safeinMask
    s1Safein := stats.s1Safein + popcount32 safeinMask
    s1Uncertain := stats.s1Uncertain + popcount32 uncertainMask }
  let collected := (compactMaskToIndices maybeIn).foldl
    (collectSurvivor args pc (baseIdx b) norms eval safeinMask) {}
  let stage1 : BlockOutcome F :=
    { safeoutMask := soMask, batch := collected.batch, stats := stats }
  if 0 < collected.candidateCount then
    (List.range 4).foldl
      (fun o bi => if (collected.blocks bi).used then scatterBlock args pc (collected.blocks bi) o
        else o)
      { stage1 with stats := { stats with
          numStage2Candidates :=
            stats.numStage2Candidates + UInt32.ofNat collected.candidateCount } }
  else stage1

/-- One turn of the block loop. -/
def probeBlock (b : UInt32) (stats : ProbeStats) : BlockOutcome F :=
  let stats := { stats with numStage1Blocks := stats.numStage1Blocks + 1 }
  if args.enableStage1BlockSkipEnvelope then
    let stats := { stats with
      stage1EnvelopeTestedBlocks := stats.stage1EnvelopeTestedBlocks + 1 }
    if pc.envelopeSafeOut b then
      { skipped := true
        stats := { stats with
          stage1EnvelopeSkippedBlocks := stats.stage1EnvelopeSkippedBlocks + 1
          stage1EnvelopeSafeoutLanes := stats.stage1EnvelopeSafeoutLanes + blockCount pc b
          s1Safeout := stats.s1Safeout + blockCount pc b } }
    else probeStages args pc b stats
  else probeStages args pc b stats

/-- The addresses of a batch. -/
def decodedAddresses (batch : List (BatchLane F)) : List AddressEntry :=
  if args.enableAddressDecodeSimd then pc.decodeAddressBatch (batch.map BatchLane.globalIdx)
  else batch.map fun lane => pc.addressAt lane.globalIdx

/-- The blocks before block `n`, in order. -/
def probeBlocks (stats : ProbeStats) : ℕ → List (BlockOutcome F) × ProbeStats
  | 0 => ([], stats)
  | n + 1 =>
      let (outcomes, stats) := probeBlocks stats n
      let outcome := probeBlock args pc (UInt32.ofNat n) stats
      (outcomes ++ [outcome], outcome.stats)

/-- `Probe`: the outcome of each block and the counters at the end. -/
def probe (stats : ProbeStats) : List (BlockOutcome F) × ProbeStats :=
  probeBlocks args pc stats pc.numFastscanBlocks.toNat

/-- What the sink gets: the batches that are not empty, with their addresses. -/
def sinkBatches (outcomes : List (BlockOutcome F)) : List (List (BatchLane F × AddressEntry)) :=
  (outcomes.filter fun outcome => !outcome.batch.isEmpty).map fun outcome =>
    outcome.batch.zip (decodedAddresses args pc outcome.batch)

end Probe

end VecFetch.Index.ProbeLanes
