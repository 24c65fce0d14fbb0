/-
# Index.ProbeRefinement -- the masks compute the batches of the records

`ClusterProber.probe` decides record by record, on exact numbers.  `ProbeLanes.probe` runs as the
code does, over masks, scratch blocks and kernels.  Where the numbers a probe reads are finite, and
a record's inner product does not depend on what else the kernel is asked for, both hand their sink
the same batches (`probe_refines`).  So what is proved of the records holds of the masks: each
entry reports a right error bound (`sink_within`).
-/
import VecFetch.Index.ProbeOrder
import VecFetch.Index.SafeOut

namespace VecFetch.Index.ProbeLanes

open VecFetch.Theory VecFetch.Query VecFetch.Simd FloatArith

set_option autoImplicit false

/-! ## Finite inputs -/

/-- The number of a finite value. -/
def toRat : Flt → ℚ
  | .fin q => q
  | _ => 0

theorem fin_toRat {x : Flt} (finite : x ∈ Set.range Flt.fin) : Flt.fin (toRat x) = x := by
  obtain ⟨q, rfl⟩ := finite
  rfl

/-- The numbers a probe reads are finite, and `ip` is the kernel's inner product of a record,
whatever else the kernel is asked for. -/
structure FiniteInputs (args : ProbeArgs Flt) (pc : ParsedCluster Flt) (ip : UInt32 → ℚ) :
    Prop where
  fsWidth : args.fsWidth ∈ Set.range Flt.fin
  sumQ : args.sumQ ∈ Set.range Flt.fin
  invSqrtDim : args.invSqrtDim ∈ Set.range Flt.fin
  normQc : args.normQc ∈ Set.range Flt.fin
  normQcSq : args.normQcSq ∈ Set.range Flt.fin
  safein : args.safeinMarginFactor ∈ Set.range Flt.fin
  safeout : args.safeoutMarginFactor ∈ Set.range Flt.fin
  divisor : ∃ k, k ≠ 0 ∧ args.marginS2Divisor = .fin k
  norms : ∀ b lane, pc.blockNorms b lane ∈ Set.range Flt.fin
  xipnorms : ∀ block lane, pc.xipnorms block lane ∈ Set.range Flt.fin
  entryXipnorm : ∀ record, pc.entryXipnorm record ∈ Set.range Flt.fin
  factorAdds : ∀ block lane, pc.officialFactorAdds block lane ∈ Set.range Flt.fin
  factorRescales : ∀ block lane, pc.officialFactorRescales block lane ∈ Set.range Flt.fin
  batchKernel : 11 ≤ pc.exrabitqStorageVersion → ∀ (g mask : UInt32),
    hasLane mask (g % kStage2BatchSize).toNat = true →
      pc.batchKernel (g / kStage2BatchSize) mask (g % kStage2BatchSize).toNat = .fin (ip g)
  entryKernel : ¬ 11 ≤ pc.exrabitqStorageVersion → ∀ (records : List UInt32) place g,
    records[place]? = some g → pc.entryKernel records place = .fin (ip g)

/-- The stage-2 estimate of a record. -/
def entryEstS2 (args : ProbeArgs Flt) (pc : ParsedCluster Flt) (ip : UInt32 → ℚ)
    (entry : Stage2LaneEntry Flt) : Flt :=
  let block := entry.globalIdx / kStage2BatchSize
  let lane := (entry.globalIdx % kStage2BatchSize).toNat
  if pc.usesOfficial1PlusN then
    officialRaBitQEstimateDistance args.normQcSq (pc.officialFactorAdds block lane)
      (pc.officialFactorRescales block lane)
      (args.normQc * officialRaBitQCombineNormalizedIP entry.ipX0Qr (.fin (ip entry.globalIdx))
        args.sumQ pc.rabitqExBits)
  else
    legacyEstDist args entry.normOc (.fin (ip entry.globalIdx))
      (if 11 ≤ pc.exrabitqStorageVersion then pc.xipnorms block lane else entry.xipnorm)

section Finite

variable {args : ProbeArgs Flt} {pc : ParsedCluster Flt} {ip : UInt32 → ℚ}
  (inputs : FiniteInputs args pc ip)

/-- A collected lane is at the place of its record. -/
theorem entries_place {F : Type} {block : Stage2BlockScratch F} (keyed : block.Keyed)
    {slot : ℕ × Stage2LaneEntry F} (mem : slot ∈ block.entries) :
    block.entries[((List.range slot.1).filter (hasLane block.laneMask)).length]? = some slot := by
  obtain ⟨inside, set, held⟩ := Stage2BlockScratch.mem_entries.1 mem
  have lanes : (block.entries.map Prod.fst)[((List.range slot.1).filter
      (hasLane block.laneMask)).length]? = some slot.1 := by
    obtain ⟨more, eight⟩ := Nat.exists_eq_add_of_le (Nat.succ_le_of_lt inside)
    rw [Stage2BlockScratch.entries_lanes keyed, setBits, eight, List.range_add, List.range_succ,
      List.filter_append, List.filter_append, List.append_assoc]
    change ((List.range slot.1).filter (hasLane block.laneMask) ++ _)[_]? = _
    rw [List.getElem?_append_right (Nat.le_refl _), Nat.sub_self, List.filter_singleton,
      show (block.laneMask.toNat.testBit slot.1) = true from set]
    rfl
  rw [List.getElem?_map] at lanes
  obtain ⟨other, there, same⟩ := Option.map_eq_some_iff.1 lanes
  obtain ⟨_, _, held'⟩ := Stage2BlockScratch.mem_entries.1 (List.mem_of_getElem? there)
  rw [same, held, Option.some.injEq] at held'
  rw [there, Option.some.injEq]
  exact Prod.ext same held'.symm

include inputs

/-- The kernel's inner product of a collected lane is its record's. -/
theorem laneIpRaw_eq {block : Stage2BlockScratch Flt} (keyed : block.Keyed)
    {slot : ℕ × Stage2LaneEntry Flt} (mem : slot ∈ block.entries) :
    laneIpRaw pc block slot.1 = .fin (ip slot.2.globalIdx) := by
  obtain ⟨id, lane⟩ := keyed.entry mem
  unfold laneIpRaw
  split
  · next batched =>
      rw [id, lane]
      apply inputs.batchKernel batched
      rw [← lane]
      exact (Stage2BlockScratch.mem_entries.1 mem).2.1
  · next single =>
      apply inputs.entryKernel single
      rw [List.getElem?_map, entries_place keyed mem]
      rfl

theorem laneEstDist_eq {block : Stage2BlockScratch Flt} (keyed : block.Keyed)
    {slot : ℕ × Stage2LaneEntry Flt} (mem : slot ∈ block.entries) :
    laneEstDist args pc block slot = entryEstS2 args pc ip slot.2 := by
  obtain ⟨id, lane⟩ := keyed.entry mem
  unfold laneEstDist entryEstS2 officialEstDist laneEstS2 laneXipnorm
  rw [laneIpRaw_eq inputs keyed mem, id, ← lane]

theorem entryXipnorm_finite (base : UInt32) (norms : ℕ → Flt) (eval : FastScanStage1EvalResult Flt)
    (block : UInt32) (lane j : ℕ) :
    (if 11 ≤ pc.exrabitqStorageVersion then pc.xipnorms block lane
      else (survivorEntry args pc base norms eval j).xipnorm) ∈ Set.range Flt.fin := by
  split
  · exact inputs.xipnorms _ _
  · next single =>
      change (if 11 ≤ pc.exrabitqStorageVersion then ofInt 0 else _) ∈ Set.range Flt.fin
      rw [if_neg single]
      exact inputs.entryXipnorm _

/-- **Stage 2 of a block** settles its records by their own estimates. -/
theorem blockSettles (b : UInt32) : BlockSettles args pc (entryEstS2 args pc ip) b := by
  intro block keyed found
  constructor
  · intro slot mem
    exact laneEstDist_eq inputs keyed mem
  · intro _ slot mem
    obtain ⟨j, _, same⟩ := found slot mem
    rw [laneEstS2]
    apply simdEstDist_eq Flt.exactOn inputs.normQc inputs.normQcSq
    · rw [same]
      exact inputs.norms b j
    · exact ⟨_, (laneIpRaw_eq inputs keyed mem).symm⟩
    · rw [laneXipnorm, same]
      exact entryXipnorm_finite inputs _ _ _ _ _ _
  · intro slot mem
    obtain ⟨j, _, same⟩ := found slot mem
    apply margin_eq Flt.exactOn _ inputs.divisor
    obtain ⟨f, hf⟩ := inputs.safein
    obtain ⟨n, hn⟩ := inputs.norms b j
    rw [same]
    refine ⟨f * n, ?_⟩
    change _ = args.safeinMarginFactor * pc.blockNorms b j
    rw [← hf, ← hn]
    rfl

/-- The estimates of stage 1 are finite. -/
theorem dists_finite (b : UInt32) (j : ℕ) :
    (stage1Eval args pc b).dists j ∈ Set.range Flt.fin := by
  have exact := Flt.exactOn
  obtain ⟨w, hw⟩ := inputs.fsWidth
  obtain ⟨s, hs⟩ := inputs.sumQ
  obtain ⟨d, hd⟩ := inputs.invSqrtDim
  obtain ⟨q, hq⟩ := inputs.normQc
  obtain ⟨q2, hq2⟩ := inputs.normQcSq
  obtain ⟨n, hn⟩ := inputs.norms b j
  change stage1Dist (stage1Args args) args.build (pc.rawAccu b j) (pc.blockNorms b j) ∈ _
  unfold stage1Dist dequantizedDist fusedDist ipX0Qr stage1Args
  dsimp only
  rw [← hw, ← hs, ← hd, ← hq, ← hq2, ← hn]
  simp only [exact.ofInt, exact.add, exact.sub, exact.mul, exact.fmsub, exact.fmadd, exact.fnmadd,
    exact.stdMax, exact.simdMax]
  cases args.build with
  | scalar | avx2 | avx512 => exact ⟨_, rfl⟩

theorem legacyEstDist_finite {normOc ipRaw xipnorm : Flt} (norm : normOc ∈ Set.range Flt.fin)
    (raw : ipRaw ∈ Set.range Flt.fin) (xip : xipnorm ∈ Set.range Flt.fin) :
    legacyEstDist args normOc ipRaw xipnorm ∈ Set.range Flt.fin := by
  have exact := Flt.exactOn
  obtain ⟨q, hq⟩ := inputs.normQc
  obtain ⟨q2, hq2⟩ := inputs.normQcSq
  obtain ⟨n, rfl⟩ := norm
  obtain ⟨p, rfl⟩ := raw
  obtain ⟨x, rfl⟩ := xip
  unfold legacyEstDist
  rw [← hq, ← hq2]
  simp only [exact.ofInt, exact.add, exact.sub, exact.mul, exact.stdMax]
  exact ⟨_, rfl⟩

theorem officialEstDist_finite {factorAdd factorRescale ipX0Qr ipExCode : Flt}
    (add : factorAdd ∈ Set.range Flt.fin) (rescale : factorRescale ∈ Set.range Flt.fin)
    (signs : ipX0Qr ∈ Set.range Flt.fin) (code : ipExCode ∈ Set.range Flt.fin) (exBits : ℕ) :
    officialRaBitQEstimateDistance args.normQcSq factorAdd factorRescale
      (args.normQc * officialRaBitQCombineNormalizedIP ipX0Qr ipExCode args.sumQ exBits) ∈
        Set.range Flt.fin := by
  have exact := Flt.exactOn
  obtain ⟨s, hs⟩ := inputs.sumQ
  obtain ⟨q, hq⟩ := inputs.normQc
  obtain ⟨q2, hq2⟩ := inputs.normQcSq
  obtain ⟨f, rfl⟩ := add
  obtain ⟨g, rfl⟩ := rescale
  obtain ⟨x, rfl⟩ := signs
  obtain ⟨c, rfl⟩ := code
  unfold officialRaBitQEstimateDistance officialRaBitQCombineNormalizedIP officialRaBitQExBias
  rw [← hs, ← hq, ← hq2]
  simp only [exact.ofInt, exact.add, exact.sub, exact.mul, exact.neg,
    exact.div _ _ (show ((2 : ℤ) : ℚ) ≠ 0 by decide)]
  split
  · exact ⟨_, rfl⟩
  · exact ⟨_, rfl⟩

/-- The estimates of stage 2 are finite. -/
theorem entryEstS2_finite (b : UInt32) (j : ℕ) :
    entryEstS2 args pc ip (blockEntry args pc b j) ∈ Set.range Flt.fin := by
  have signs : (blockEntry args pc b j).ipX0Qr ∈ Set.range Flt.fin := by
    obtain ⟨w, hw⟩ := inputs.fsWidth
    change (ofInt _ + ofInt args.fsShift) * args.fsWidth ∈ _
    rw [← hw]
    exact ⟨_, rfl⟩
  unfold entryEstS2
  split
  · exact officialEstDist_finite inputs (inputs.factorAdds _ _) (inputs.factorRescales _ _) signs
      ⟨_, rfl⟩ _
  · exact legacyEstDist_finite inputs (inputs.norms b j) ⟨_, rfl⟩
      (entryXipnorm_finite inputs _ _ _ _ _ _)

end Finite

/-! ## The cluster, record by record -/

section Records

variable (args : ProbeArgs Flt) (pc : ParsedCluster Flt) (ip : UInt32 → ℚ)

/-- A record under the query. -/
def probedRecord (b : UInt32) (j : ℕ) : ProbeRecord where
  addr := pc.addressAt (baseIdx b + UInt32.ofNat j)
  normOc := toRat (pc.blockNorms b j)
  estDistS1 := toRat ((stage1Eval args pc b).dists j)
  estDistS2 := toRat (entryEstS2 args pc ip (blockEntry args pc b j))

/-- The records of a block. -/
def probedBlock (b : ℕ) : ProbeBlock where
  records := (List.range (blockCount pc (UInt32.ofNat b)).toNat).map
    (probedRecord args pc ip (UInt32.ofNat b))
  count_le := by
    rw [List.length_map, List.length_range]
    exact blockCount_le pc _

/-- The cluster as the record-by-record probe reads it. -/
def probedCluster (blockEnvelopeLowerBound : ℕ → Option ℚ) : ProbedCluster where
  blocks := (List.range pc.numFastscanBlocks.toNat).map (probedBlock args pc ip)
  safeinMarginFactor := toRat args.safeinMarginFactor
  safeoutMarginFactor := toRat args.safeoutMarginFactor
  hasExRaBitQ := pc.hasExrabitqEntries || pc.hasExrabitqBatchBlocks
  usesOfficial1PlusN := pc.usesOfficial1PlusN
  blockEnvelopeLowerBound := blockEnvelopeLowerBound

/-- The candidate of an entry of a batch. -/
def candidate (entry : BatchLane Flt × AddressEntry) : Candidate where
  globalIdx := entry.1.globalIdx.toNat
  estDist := entry.1.estDist
  estError := entry.1.estError
  estimateLowerBound := entry.1.estimateLowerBound
  safeinUpperBound := entry.1.safeinUpperBound
  cls := entry.1.cls
  decodedAddr := entry.2

/-- A lane of a block. -/
def probedLane (b j : ℕ) : ProbeLane := ⟨j, b * 32 + j, probedRecord args pc ip (UInt32.ofNat b) j⟩

theorem probedBlock_lanes (b : ℕ) : (probedBlock args pc ip b).lanes b =
    (List.range (blockCount pc (UInt32.ofNat b)).toNat).map (probedLane args pc ip b) := by
  rw [ProbeBlock.lanes, probedBlock]
  apply List.ext_getElem
  · simp
  · intro j _ _
    simp [probedLane]

end Records

/-- The settings of the two probes are the same. -/
structure SameSettings (env : Env) (p : ClusterProber) (args : ProbeArgs Flt) : Prop where
  hasS2 : args.hasS2 = p.hasS2
  divisor : args.marginS2Divisor = .fin p.marginS2Divisor
  stage1Safein : args.enableStage1Safein = env.config.enableStage1Safein
  classify : args.enableStage2ScatterBatchClassify = env.config.enableStage2ScatterBatchClassify

section Refines

variable {env : Env} {p : ClusterProber} {args : ProbeArgs Flt} {pc : ParsedCluster Flt}
  {ip : UInt32 → ℚ} {lowerBound : ℕ → Option ℚ} {b j : ℕ}

theorem marginS2Divisor_ne_zero (p : ClusterProber) : p.marginS2Divisor ≠ 0 := by
  unfold ClusterProber.marginS2Divisor
  split
  · exact pow_ne_zero _ (by decide)
  · exact one_ne_zero

/-- The number of a record in its cluster. -/
theorem record_number (room : b * 32 + 32 ≤ 2 ^ 32) (below : j < 32) :
    (baseIdx (UInt32.ofNat b) + UInt32.ofNat j).toNat = b * 32 + j := by
  rw [record_toNat (baseIdx_aligned _) below, baseIdx, UInt32.toNat_mul, UInt32.toNat_ofNat',
    show (32 : UInt32).toNat = 32 from rfl]
  omega

section Inputs

variable (inputs : FiniteInputs args pc ip)

include inputs

/-- A margin of stage 1. -/
theorem fin_margin {factor : Flt} (finite : factor ∈ Set.range Flt.fin) (b : UInt32) (j : ℕ) :
    Flt.fin (toRat factor * toRat (pc.blockNorms b j)) = factor * pc.blockNorms b j := by
  rw [← Flt.exactOn.mul, fin_toRat finite, fin_toRat (inputs.norms b j)]

theorem stage1SafeOut_eq : stage1SafeOut (probedCluster args pc ip lowerBound)
    args.safeoutFrontierUpper (probedLane args pc ip b j) =
      isSafeOut (stage1Args args) ((stage1Eval args pc (UInt32.ofNat b)).dists j)
        (pc.blockNorms (UInt32.ofNat b) j) := by
  unfold stage1SafeOut Index.safeoutMarginS1 probedCluster probedLane probedRecord isSafeOut
    stage1Args
  dsimp only
  rw [fin_margin inputs inputs.safeout, fin_toRat (dists_finite inputs _ _)]
  rfl

theorem stage1SafeIn_eq (settings : SameSettings env p args) :
    stage1SafeIn env (probedCluster args pc ip lowerBound) args.safeinThresholdBase
      (probedLane args pc ip b j) =
      (args.enableStage1Safein &&
        isSafeIn (stage1Args args) ((stage1Eval args pc (UInt32.ofNat b)).dists j)
          (pc.blockNorms (UInt32.ofNat b) j)) := by
  unfold stage1SafeIn Index.safeinMarginS1 probedCluster probedLane probedRecord isSafeIn stage1Args
  dsimp only
  rw [fin_margin inputs inputs.safein, fin_toRat (dists_finite inputs _ _), settings.stage1Safein]
  rfl

/-- The survivors of a block are its lanes that stage 1 keeps. -/
theorem survivors_eq : survivors args pc (UInt32.ofNat b) =
    (List.range (blockCount pc (UInt32.ofNat b)).toNat).filter fun j =>
      !stage1SafeOut (probedCluster args pc ip lowerBound) args.safeoutFrontierUpper
        (probedLane args pc ip b j) := by
  rw [survivors, compactMaskToIndices_eq, ← setBits_laneMask, setBits, setBits, List.filter_filter]
  apply List.filter_congr
  intro j mem
  have below := List.mem_range.1 mem
  change hasLane (maybeInMask args pc (UInt32.ofNat b)) j = (_ && hasLane _ j)
  rw [stage1SafeOut_eq inputs, maybeInMask, hasLane_and, hasLane_not _ below, stage1Eval,
    stage1_safeout_lane _ (blockCount_le pc _), laneMaskForCount_lane _ _ below]
  cases decide (j < (blockCount pc (UInt32.ofNat b)).toNat) with
  | false => simp
  | true => rfl

/-- The SafeIn bit of a survivor. -/
theorem safeinMask_eq (settings : SameSettings env p args)
    (mem : j ∈ survivors args pc (UInt32.ofNat b)) :
    hasLane (stage1SafeinMask args pc (UInt32.ofNat b)) j =
      stage1SafeIn env (probedCluster args pc ip lowerBound) args.safeinThresholdBase
        (probedLane args pc ip b j) := by
  rw [survivors, compactMaskToIndices_eq] at mem
  obtain ⟨below, kept⟩ := mem_setBits.1 mem
  change hasLane (maybeInMask args pc (UInt32.ofNat b)) j = true at kept
  have inside : decide (j < (blockCount pc (UInt32.ofNat b)).toNat) = true := by
    rw [maybeInMask, hasLane_and, laneMaskForCount_lane _ _ below] at kept
    exact (Bool.and_eq_true_iff.1 kept).2
  rw [stage1SafeIn_eq inputs settings, stage1SafeinMask]
  split
  · next enabled =>
      rw [hasLane_and, kept, Bool.and_true, stage1Eval, stage1_safein_lane _ (blockCount_le pc _),
        inside, Bool.true_and]
      rfl
  · next disabled =>
      rw [Bool.not_eq_true] at disabled
      rw [disabled, hasLane_zero, Bool.false_and]

theorem waits_eq (settings : SameSettings env p args)
    (mem : j ∈ survivors args pc (UInt32.ofNat b)) :
    waits args pc (stage1SafeinMask args pc (UInt32.ofNat b)) j =
      toStage2 env p (probedCluster args pc ip lowerBound) args.safeinThresholdBase
        (probedLane args pc ip b j) := by
  rw [waits, safeinMask_eq inputs settings mem, toStage2, stage2Runs, settings.hasS2,
    Bool.and_assoc]
  rfl

/-- A margin of stage 2. -/
theorem fin_marginS2 (settings : SameSettings env p args) {factor : Flt}
    (finite : factor ∈ Set.range Flt.fin) (b : UInt32) (j : ℕ) :
    Flt.fin (toRat factor * toRat (pc.blockNorms b j) / p.marginS2Divisor) =
      factor * pc.blockNorms b j / args.marginS2Divisor := by
  rw [settings.divisor, ← Flt.exactOn.div _ _ (marginS2Divisor_ne_zero p),
    fin_margin inputs finite]

/-- The entry of a settled survivor is its candidate. -/
theorem candidate_settled (settings : SameSettings env p args) (room : b * 32 + 32 ≤ 2 ^ 32)
    (mem : j ∈ survivors args pc (UInt32.ofNat b)) (below : j < 32) :
    candidate (settledLane args (baseIdx (UInt32.ofNat b))
        (stage1SafeinMask args pc (UInt32.ofNat b)) (pc.blockNorms (UInt32.ofNat b))
        (stage1Eval args pc (UInt32.ofNat b)) j,
        pc.addressAt (baseIdx (UInt32.ofNat b) + UInt32.ofNat j)) =
      stage1Candidate env (probedCluster args pc ip lowerBound) args.safeinThresholdBase
        (probedLane args pc ip b j) := by
  have est : Flt.fin (probedLane args pc ip b j).record.estDistS1 =
      (stage1Eval args pc (UInt32.ofNat b)).dists j := fin_toRat (dists_finite inputs _ _)
  have safein : Flt.fin (Index.safeinMarginS1 (probedCluster args pc ip lowerBound)
      (probedLane args pc ip b j).record) =
        safeinMarginS1 args (pc.blockNorms (UInt32.ofNat b) j) :=
    fin_margin inputs inputs.safein _ _
  have safeout : Flt.fin (Index.safeoutMarginS1 (probedCluster args pc ip lowerBound)
      (probedLane args pc ip b j).record) =
        safeoutMarginS1 args (pc.blockNorms (UInt32.ofNat b) j) :=
    fin_margin inputs inputs.safeout _ _
  unfold stage1Candidate
  rw [← Flt.exactOn.sub, ← Flt.exactOn.add, est, safein, safeout,
    ← safeinMask_eq inputs settings mem]
  unfold candidate settledLane
  rw [record_number room below]
  rfl

theorem splitStage2Margin_eq :
    Index.splitStage2Margin (probedCluster args pc ip lowerBound) = splitStage2Margin args := by
  have exact := Flt.exactOn
  obtain ⟨f, hf⟩ := inputs.safein
  obtain ⟨g, hg⟩ := inputs.safeout
  have gap : (if f - g < 0 then -(f - g) else f - g) = |f - g| := by
    split
    · next below => exact (abs_of_neg below).symm
    · next above => exact (abs_of_nonneg (not_lt.1 above)).symm
  unfold Index.splitStage2Margin splitStage2Margin probedCluster
  rw [← hf, ← hg]
  simp only [exact.ofInt, exact.sub, exact.abs, exact.div _ _ (show ((1000000000000 : ℤ) : ℚ) ≠ 0 by
    decide), exact.lt, toRat, gap]
  norm_num

/-- The SafeOut test of a record in stage 2. -/
theorem dropsEntry_eq (settings : SameSettings env p args) :
    dropsEntry args pc (entryEstS2 args pc ip) (blockEntry args pc (UInt32.ofNat b) j) =
      stage2SafeOut env p (probedCluster args pc ip lowerBound) args.safeoutFrontierUpper
        (probedLane args pc ip b j) := by
  have mode : batchClassify env (probedCluster args pc ip lowerBound) = atOnce args pc := by
    rw [batchClassify, splitStage2Margin_eq inputs, atOnce, settings.classify]
    rfl
  have est : Flt.fin (probedLane args pc ip b j).record.estDistS2 =
      entryEstS2 args pc ip (blockEntry args pc (UInt32.ofNat b) j) :=
    fin_toRat (entryEstS2_finite inputs _ _)
  have margin : Flt.fin (stage2TestMargin env p (probedCluster args pc ip lowerBound)
      (probedLane args pc ip b j).record) =
        (if atOnce args pc then (blockEntry args pc (UInt32.ofNat b) j).marginS1
          else (blockEntry args pc (UInt32.ofNat b) j).safeoutMarginS1) / args.marginS2Divisor := by
    rw [stage2TestMargin, mode]
    cases atOnce args pc with
    | true => exact fin_marginS2 inputs settings inputs.safein _ _
    | false => exact fin_marginS2 inputs settings inputs.safeout _ _
  rw [stage2SafeOut, est, margin, dropsEntry]
  rfl

/-- The entry of a record that stage 2 keeps is its candidate. -/
theorem candidate_kept (settings : SameSettings env p args) (room : b * 32 + 32 ≤ 2 ^ 32)
    (below : j < 32) :
    candidate (keptLane args (entryEstS2 args pc ip) (blockEntry args pc (UInt32.ofNat b) j),
        pc.addressAt (baseIdx (UInt32.ofNat b) + UInt32.ofNat j)) =
      stage2Candidate p (probedCluster args pc ip lowerBound) args.safeinThresholdBase
        (probedLane args pc ip b j) := by
  have est : Flt.fin (probedLane args pc ip b j).record.estDistS2 =
      entryEstS2 args pc ip (blockEntry args pc (UInt32.ofNat b) j) :=
    fin_toRat (entryEstS2_finite inputs _ _)
  have safein : Flt.fin (safeinMarginS2 p (probedCluster args pc ip lowerBound)
      (probedLane args pc ip b j).record) =
        (blockEntry args pc (UInt32.ofNat b) j).marginS1 / args.marginS2Divisor :=
    fin_marginS2 inputs settings inputs.safein _ _
  have safeout : Flt.fin (safeoutMarginS2 p (probedCluster args pc ip lowerBound)
      (probedLane args pc ip b j).record) =
        (blockEntry args pc (UInt32.ofNat b) j).safeoutMarginS1 / args.marginS2Divisor :=
    fin_marginS2 inputs settings inputs.safeout _ _
  unfold stage2Candidate stage2SafeIn
  rw [← Flt.exactOn.sub, ← Flt.exactOn.add, est, safein, safeout]
  unfold candidate keptLane nearEntry stage2Lane
  dsimp only
  rw [show (blockEntry args pc (UInt32.ofNat b) j).globalIdx.toNat = b * 32 + j from
    record_number room below]
  rfl

/-- **A block that the envelope keeps** has the candidates of its records. -/
theorem probeStages_refines (settings : SameSettings env p args) (room : b * 32 + 32 ≤ 2 ^ 32)
    (stats : ProbeStats) (kept : skipsBlock env (probedCluster args pc ip lowerBound)
      args.safeoutFrontierUpper b = false) :
    (probeStages args pc (UInt32.ofNat b) stats).batch.map
        (fun lane => candidate (lane, pc.addressAt lane.globalIdx)) =
      blockCandidates env p (probedCluster args pc ip lowerBound) args.safeoutFrontierUpper
        args.safeinThresholdBase b (probedBlock args pc ip b) := by
  have lanes : maybeIn (probedCluster args pc ip lowerBound) args.safeoutFrontierUpper b
      (probedBlock args pc ip b) =
        (survivors args pc (UInt32.ofNat b)).map (probedLane args pc ip b) := by
    rw [maybeIn, probedBlock_lanes, List.filter_map, @survivors_eq _ _ _ lowerBound b inputs]
    rfl
  have inside : ∀ j ∈ survivors args pc (UInt32.ofNat b), j < 32 :=
    (survivors_ascending (maybeInMask args pc (UInt32.ofNat b))).2
  have waiting := fun j mem => @waits_eq env p args pc ip lowerBound b j inputs settings mem
  rw [probeStages_batch (blockSettles inputs _), blockCandidates_eq, kept,
    if_neg Bool.false_ne_true, stage2Lanes, lanes, List.map_append]
  congr 1
  · rw [List.filter_map, List.map_map, List.map_map, List.filter_congr fun j mem => by
      rw [waiting j mem]]
    apply List.map_congr_left
    intro j mem
    have survivor := List.mem_of_mem_filter mem
    exact candidate_settled inputs settings room survivor (inside j survivor)
  · rw [List.filter_map, List.filter_map, List.map_map, keptLanes, List.filter_map, List.map_map,
      List.map_map, List.filter_congr waiting]
    rw [List.filter_congr fun j _ => by
      rw [Function.comp_apply, @dropsEntry_eq env p args pc ip lowerBound b j inputs settings]]
    apply List.map_congr_left
    intro j mem
    have survivor := List.mem_of_mem_filter (List.mem_of_mem_filter mem)
    exact candidate_kept inputs settings room (inside j survivor)

/-- **A block**, whatever the counters are. -/
theorem probeBlock_refines (settings : SameSettings env p args) (room : b * 32 + 32 ≤ 2 ^ 32)
    (envelope : skipsBlock env (probedCluster args pc ip lowerBound) args.safeoutFrontierUpper b =
      (args.enableStage1BlockSkipEnvelope && pc.envelopeSafeOut (UInt32.ofNat b)))
    (stats : ProbeStats) :
    (probeBlock args pc (UInt32.ofNat b) stats).batch.map
        (fun lane => candidate (lane, pc.addressAt lane.globalIdx)) =
      blockCandidates env p (probedCluster args pc ip lowerBound) args.safeoutFrontierUpper
        args.safeinThresholdBase b (probedBlock args pc ip b) := by
  cases skips : skipsBlock env (probedCluster args pc ip lowerBound) args.safeoutFrontierUpper
      b with
  | true =>
      rw [skips] at envelope
      obtain ⟨enabled, verdict⟩ := Bool.and_eq_true_iff.1 envelope.symm
      rw [blockCandidates, skips, if_pos rfl]
      unfold probeBlock
      dsimp only
      rw [if_pos enabled, if_pos verdict]
      rfl
  | false =>
      rw [skips] at envelope
      have stages : ∃ stats', (probeBlock args pc (UInt32.ofNat b) stats) =
          probeStages args pc (UInt32.ofNat b) stats' := by
        unfold probeBlock
        dsimp only
        split
        · next enabled =>
            rw [enabled, Bool.true_and] at envelope
            rw [← envelope]
            exact ⟨_, rfl⟩
        · exact ⟨_, rfl⟩
      obtain ⟨stats', same⟩ := stages
      rw [same]
      exact probeStages_refines inputs settings room stats' skips

end Inputs

/-- The blocks of the cluster with their numbers. -/
theorem probedBlocks_zipIdx (n : ℕ) :
    ((List.range n).map (probedBlock args pc ip)).zipIdx =
      (List.range n).map fun b => (probedBlock args pc ip b, b) := by
  apply List.ext_getElem
  · simp
  · intro b _ _
    simp

theorem sinkBatches_append (outcomes more : List (BlockOutcome Flt)) :
    sinkBatches args pc (outcomes ++ more) =
      sinkBatches args pc outcomes ++ sinkBatches args pc more := by
  rw [sinkBatches, List.filter_append, List.map_append]
  rfl

/-- A block hands the sink its candidates, if there are any. -/
theorem sinkBatches_single (outcome : BlockOutcome Flt) {pcs : ProbedCluster} {b : ℕ}
    {block : ProbeBlock}
    (same : outcome.batch.map (fun lane => candidate (lane, pc.addressAt lane.globalIdx)) =
      blockCandidates env p pcs args.safeoutFrontierUpper args.safeinThresholdBase b block) :
    (sinkBatches args pc [outcome]).map (List.map candidate) =
      (Index.probeBlock env p pcs args.safeoutFrontierUpper args.safeinThresholdBase b
        block).toList.map CandidateBatch.lanes := by
  rw [sinkBatches_eq, List.filter_singleton, Index.probeBlock]
  have none : outcome.batch.isEmpty = (blockCandidates env p pcs args.safeoutFrontierUpper
      args.safeinThresholdBase b block).isEmpty := by
    rw [← same, List.isEmpty_map]
  rw [none]
  cases (blockCandidates env p pcs args.safeoutFrontierUpper args.safeinThresholdBase b
      block).isEmpty with
  | true => rfl
  | false =>
      change [(outcome.batch.map fun lane => (lane, pc.addressAt lane.globalIdx)).map candidate] = _
      rw [List.map_map]
      exact congrArg (fun lanes => [lanes]) same

/-- **The masks compute the batches of the records.** -/
theorem probe_refines (settings : SameSettings env p args) (inputs : FiniteInputs args pc ip)
    (room : 32 * pc.numFastscanBlocks.toNat ≤ 2 ^ 32)
    (envelope : ∀ b < pc.numFastscanBlocks.toNat,
      skipsBlock env (probedCluster args pc ip lowerBound) args.safeoutFrontierUpper b =
        (args.enableStage1BlockSkipEnvelope && pc.envelopeSafeOut (UInt32.ofNat b)))
    (stats : ProbeStats) :
    (sinkBatches args pc (probe args pc stats).1).map (List.map candidate) =
      (p.probe env (probedCluster args pc ip lowerBound) args.safeoutFrontierUpper
        args.safeinThresholdBase).map CandidateBatch.lanes := by
  have blocks : ∀ n ≤ pc.numFastscanBlocks.toNat,
      (sinkBatches args pc (probeBlocks args pc stats n).1).map (List.map candidate) =
        ((List.range n).filterMap fun b => Index.probeBlock env p
          (probedCluster args pc ip lowerBound) args.safeoutFrontierUpper args.safeinThresholdBase b
            (probedBlock args pc ip b)).map CandidateBatch.lanes := by
    intro n
    induction n with
    | zero =>
        intro _
        rfl
    | succ n ih =>
        intro inside
        have block := probeBlock_refines inputs settings (by omega) (envelope n inside)
          (probeBlocks args pc stats n).2
        change (sinkBatches args pc ((probeBlocks args pc stats n).1 ++
          [probeBlock args pc (UInt32.ofNat n) (probeBlocks args pc stats n).2])).map _ = _
        rw [sinkBatches_append, List.map_append, ih (by omega), sinkBatches_single _ block,
          List.range_succ, List.filterMap_append, List.map_append]
        congr 2
  have whole := blocks pc.numFastscanBlocks.toNat le_rfl
  rw [probe, whole]
  unfold ClusterProber.probe
  rw [show (probedCluster args pc ip lowerBound).blocks =
    (List.range pc.numFastscanBlocks.toNat).map (probedBlock args pc ip) from rfl,
    probedBlocks_zipIdx, List.filterMap_map]
  rfl

/-- So each entry that the masks hand to the sink reports a right error bound, if the estimates of
its cluster are within their margins. -/
theorem sink_within (settings : SameSettings env p args) (inputs : FiniteInputs args pc ip)
    (room : 32 * pc.numFastscanBlocks.toNat ≤ 2 ^ 32)
    (envelope : ∀ b < pc.numFastscanBlocks.toNat,
      skipsBlock env (probedCluster args pc ip lowerBound) args.safeoutFrontierUpper b =
        (args.enableStage1BlockSkipEnvelope && pc.envelopeSafeOut (UInt32.ofNat b)))
    {trueDist : AddressEntry → ℚ}
    (ok : EstimatesOk env p trueDist (probedCluster args pc ip lowerBound)) (stats : ProbeStats) :
    ∀ batch ∈ sinkBatches args pc (probe args pc stats).1, ∀ entry ∈ batch,
      ∃ d e, entry.1.estDist = .fin d ∧ entry.1.estError = .fin e ∧ trueDist entry.2 ≤ d + e := by
  intro batch mem entry inBatch
  have given := List.mem_map_of_mem (f := List.map candidate) mem
  rw [probe_refines settings inputs room envelope] at given
  obtain ⟨probed, emitted, same⟩ := List.mem_map.1 given
  have here : candidate entry ∈ probed.lanes := by
    rw [same]
    exact List.mem_map_of_mem inBatch
  exact emitted_within ok (List.mem_flatMap.2 ⟨probed, emitted, here⟩)

end Refines

end VecFetch.Index.ProbeLanes
