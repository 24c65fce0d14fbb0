/-
# Index.EnvelopeSound -- when skipping a block is sound

A skipped block is one that stage 1 would have dropped lane by lane as long as no lane
of the kernel comes out above the block's bound (`envelope_sound_iff`).  The SIMD builds
only ever lose from a lane, so they are sound up to a bound that wraps; the scalar
build takes other bytes for a lane's entries and is not.
-/
import VecFetch.Index.Envelope
import VecFetch.Simd.FusedLut
import VecFetch.Theory.MapM
import Mathlib.Tactic.Linarith
import Mathlib.Tactic.Ring
import Mathlib.Tactic.FieldSimp

namespace VecFetch.Index.Envelope

open VecFetch.Theory VecFetch.Simd VecFetch.Storage VecFetch.Rabitq

set_option autoImplicit false

/-! ## A block's scan -/

/-- The packed codes, the table with its shift, and what the kernel leaves. -/
def scanBlock (build : Build) (dim : ℕ) (q : QuantQuery) (codes : List RaBitQCode) :
    Option (Buffer × Buffer × ℤ × (ℕ → UInt32)) :=
  (packSignBitsForFastScan dim codes).bind fun packedCodes =>
  (buildFastScanLUT build q.value dim).bind fun (lut, shift) =>
  (accumulateBlock packedCodes lut build dim).map fun raw => (packedCodes, lut, shift, raw)

/-- The dimensions of one step of the kernel. -/
def kernelDim : Build → ℕ
  | .avx512 => 16
  | .avx2 => 8
  | .scalar => 8

/-- What a kernel's lane comes out as: the SIMD builds add each byte plane in 16 bits,
the scalar build what it takes for the entries in 32. -/
def laneSum (build : Build) (q : QuantQuery) (dim : ℕ) (codes : List RaBitQCode) (v : ℕ) : ℕ :=
  match build with
  | .avx512 =>
      (paritySum q dim codes 0 v 0 % 2 ^ 16 + paritySum q dim codes 0 v 1 % 2 ^ 16) +
        256 * (paritySum q dim codes 1 v 0 % 2 ^ 16 + paritySum q dim codes 1 v 1 % 2 ^ 16)
  | .avx2 => planeSum q dim codes 0 v % 2 ^ 16 + 256 * (planeSum q dim codes 1 v % 2 ^ 16)
  | .scalar => scalarSum q dim codes v % 2 ^ 32

section Scan

variable {build : Build} {q : QuantQuery} {dim : ℕ} {codes : List RaBitQCode}

theorem kernelDim_eight (whole : kernelDim build ∣ dim) : 8 ∣ dim := by
  refine Dvd.dvd.trans ?_ whole
  cases build <;> decide

theorem kernelDim_iteration (whole : kernelDim build ∣ dim) : iterationDim build ∣ dim := by
  refine Dvd.dvd.trans ?_ whole
  cases build <;> decide

/-- **A scan of whole steps** stays inside its buffers. -/
theorem scanBlock_spec (whole : kernelDim build ∣ dim) (bound : dim < 2 ^ 30)
    (shift : -2 ^ 31 ≤ lutShift q.value (dim / 4)) :
    ∃ packedCodes lut raw, scanBlock build dim q codes =
        some (packedCodes, lut, lutShift q.value (dim / 4), raw) ∧
      packedCodes.size = 4 * dim ∧ HoldsCodes dim codes packedCodes ∧
      HoldsGroups build q dim (dim / 4) lut ∧
      ∀ v < 32, (raw v).toNat = laneSum build q dim codes v := by
  have pairs := kernelDim_eight whole
  have packedSize : fastScanPackedSize dim = 4 * dim := by
    rw [fastScanPackedSize_eq pairs]
    omega
  obtain ⟨packedCodes, packed, size, holdsCodes⟩ :=
    packSignBits_spec codes (show 32 * ((dim / 4 + 1) / 2) ≤ _ by omega)
  obtain ⟨lut, built, holdsLut⟩ := buildFastScanLUT_spec (kernelDim_iteration whole) shift
  rw [packedSize] at size
  have kernel : ∃ raw, accumulateBlock packedCodes lut build dim = some raw ∧
      ∀ v < 32, (raw v).toNat = laneSum build q dim codes v := by
    cases build with
    | avx512 => exact accumulateBlock_avx512_lanes holdsLut holdsCodes size whole
    | avx2 => exact accumulateBlock_avx2_lanes holdsLut holdsCodes size pairs
    | scalar => exact accumulateBlockScalar_lanes holdsLut holdsCodes size pairs
  obtain ⟨raw, run, lanes⟩ := kernel
  refine ⟨packedCodes, lut, raw, ?_, size, holdsCodes, holdsLut, lanes⟩
  simp only [scanBlock, packed, built, run, Option.bind_some, Option.map_some]

/-- The table of a dimension that is no whole number of iterations runs past its end. -/
theorem buildFastScanLUT_upTo (groups : 4 ∣ dim) (rest : ¬ iterationDim build ∣ dim) :
    buildFastScanLUT build q.value dim = none := by
  obtain ⟨n, count⟩ : ∃ n, dim / 4 = n + 1 := by
    have positive : dim ≠ 0 := fun zero => rest (zero ▸ dvd_zero _)
    exact ⟨dim / 4 - 1, by omega⟩
  have outside : dim * 8 < lutGroupWriteBase build n + kFastScanHiOffset build + 16 := by
    cases build with
    | avx512 | avx2 | scalar =>
        simp only [iterationDim, kFastScanLutPerIter, lutGroupWriteBase, kFastScanCodePerIter,
          kFastScanCodePerLane, kFastScanHiOffset] at rest ⊢
        omega
  rw [buildFastScanLUT, count, forRange]
  cases before : forRange (buildLutAndStoreGroup build q.value) n (.zeros (dim * 8), 0) with
  | none => rfl
  | some st =>
      have size : st.1.size = dim * 8 := by
        refine forRange_kept (fun _ (st : Buffer × ℤ) => st.1.size = dim * 8) rfl ?_ before
        intro g st st' _ size stored
        unfold buildLutAndStoreGroup at stored
        dsimp only at stored
        obtain ⟨_, _, mapped⟩ := Option.bind_eq_some_iff.1 stored
        obtain ⟨out, wrote, rfl⟩ := Option.map_eq_some_iff.1 mapped
        obtain ⟨mid, first, second⟩ := Option.bind_eq_some_iff.1 wrote
        exact (Buffer.store_size second).trans ((Buffer.store_size first).trans size)
      rw [Option.bind_some]
      unfold buildLutAndStoreGroup
      dsimp only
      rw [Option.bind_eq_none_iff]
      intro total _
      rw [Option.map_eq_none_iff, storeLutBytePlanes, Option.bind_eq_none_iff]
      intro out stored
      apply Buffer.store_outside
      rw [Buffer.store_size stored, size]
      exact outside

/-- An odd number of groups takes the scalar kernel past the table. -/
theorem accumulateBlockScalar_upTo {packedCodes lut : Buffer} (groups : 4 ∣ dim)
    (rest : ¬ 8 ∣ dim) (size : lut.size = dim * 8) :
    accumulateBlock packedCodes lut .scalar dim = none := by
  obtain ⟨n, count⟩ : ∃ n, (dim / 4 + 1) / 2 = n + 1 := ⟨(dim / 4 + 1) / 2 - 1, by omega⟩
  change forRange (accumulateScalarStep packedCodes lut) ((dim / 4 + 1) / 2) (fun _ => 0) = none
  rw [count, forRange, Option.bind_eq_none_iff]
  intro result _
  rw [accumulateScalarStep, Buffer.load_outside (by omega), Option.bind_none]

/-- **A scan inside its buffers** has whole steps. -/
theorem scanBlock_inside (groups : 4 ∣ dim) (word : dim < 2 ^ 32)
    {scan : Buffer × Buffer × ℤ × (ℕ → UInt32)} (run : scanBlock build dim q codes = some scan) :
    kernelDim build ∣ dim ∧ dim < 2 ^ 30 ∧ -2 ^ 31 ≤ lutShift q.value (dim / 4) := by
  unfold scanBlock at run
  obtain ⟨packedCodes, packed, rest⟩ := Option.bind_eq_some_iff.1 run
  obtain ⟨⟨lut, shift⟩, built, mapped⟩ := Option.bind_eq_some_iff.1 rest
  obtain ⟨raw, accumulated, _⟩ := Option.map_eq_some_iff.1 mapped
  have iterations : iterationDim build ∣ dim := by
    by_contra part
    rw [buildFastScanLUT_upTo groups part] at built
    cases built
  obtain ⟨rfl, shiftFits⟩ := buildFastScanLUT_shift built
  have whole : kernelDim build ∣ dim := by
    cases build with
    | avx512 => exact iterations
    | avx2 => exact iterations
    | scalar =>
        by_contra part
        obtain ⟨_, built', holds⟩ := buildFastScanLUT_spec iterations shiftFits
        cases built.symm.trans built'
        rw [accumulateBlockScalar_upTo groups part holds.size] at accumulated
        cases accumulated
  have inside := packSignBits_inside packed
  rw [fastScanPackedSize_eq (kernelDim_eight whole)] at inside
  have pairs := kernelDim_eight whole
  exact ⟨whole, by omega, shiftFits⟩

end Scan

/-! ## Exact distances -/

section Exact

variable {K : Type} [Field K] [LinearOrder K]

/-- Every build computes one distance. -/
theorem exact_stage1Dist (args : Stage1Args K) (build : Build) (raw : UInt32) (norm : K) :
    @stage1Dist K (FloatArith.exact K) args build raw norm =
      max (norm * norm + args.normQcSq - 2 * norm * args.normQc * ipOf args raw.toNat) 0 := by
  have larger : ∀ x : K, @FloatArith.stdMax K (FloatArith.exact K) x 0 = max x 0 := by
    intro x
    change (if decide (x < 0) = true then (0 : K) else x) = max x 0
    rw [max_def]
    by_cases negative : x < 0
    · rw [if_pos (decide_eq_true negative), if_pos negative.le]
    · rw [if_neg (by simpa using negative)]
      split
      · rename_i least
        exact le_antisymm least (not_lt.1 negative)
      · rfl
  have larger' : ∀ x : K, @FloatArith.simdMax K (FloatArith.exact K) x 0 = max x 0 := by
    intro x
    change (if decide (0 < x) = true then x else (0 : K)) = max x 0
    rw [max_def]
    by_cases positive : 0 < x
    · rw [if_pos (decide_eq_true positive), if_neg (not_le.2 positive)]
    · rw [if_neg (by simpa using positive), if_pos (not_lt.1 positive)]
  have plain : @dequantizedDist K (FloatArith.exact K) args raw norm =
      max (norm * norm + args.normQcSq - 2 * norm * args.normQc * ipOf args raw.toNat) 0 := by
    rw [← larger]
    change @FloatArith.stdMax K (FloatArith.exact K) (norm * norm + args.normQcSq -
      ((2 : ℤ) : K) * norm * args.normQc * ((((2 : ℤ) : K) * (((((raw.toNat : ℕ) : ℤ) : K) +
        (args.fsShift : K)) * args.fsWidth) - args.sumQ) * args.invSqrtDim)) ((0 : ℤ) : K) = _
    rw [ipOf, Int.cast_natCast, Int.cast_ofNat, Int.cast_zero]
  have fused : @fusedDist K (FloatArith.exact K) args raw norm =
      max (norm * norm + args.normQcSq - 2 * norm * args.normQc * ipOf args raw.toNat) 0 := by
    rw [← larger']
    change @FloatArith.simdMax K (FloatArith.exact K) (-(((2 : ℤ) : K) * (norm * args.normQc)) *
      ((((2 : ℤ) : K) * (((((raw.toNat : ℕ) : ℤ) : K) + (args.fsShift : K)) * args.fsWidth) +
        -args.sumQ) * args.invSqrtDim) + (norm * norm + args.normQcSq)) ((0 : ℤ) : K) = _
    rw [ipOf, Int.cast_natCast, Int.cast_ofNat, Int.cast_zero]
    congr 1
    ring
  cases build with
  | avx512 => exact fused
  | avx2 => exact plain
  | scalar => exact plain

variable [IsStrictOrderedRing K]

/-- The clamped vertex of a parabola is its least point in a range. -/
theorem clampedVertex_le {vertex least greatest x : K} (above : least ≤ x) (below : x ≤ greatest) :
    min (max vertex least) greatest * min (max vertex least) greatest -
        2 * vertex * min (max vertex least) greatest ≤ x * x - 2 * vertex * x := by
  have range := above.trans below
  by_cases left : vertex ≤ least
  · rw [max_eq_right left, min_eq_left range]
    have product := mul_nonneg (sub_nonneg.2 above) (show 0 ≤ x + least - 2 * vertex by linarith)
    linarith [product, show (x - least) * (x + least - 2 * vertex) =
      x * x - 2 * vertex * x - (least * least - 2 * vertex * least) by ring]
  · rw [max_eq_left (not_le.1 left).le]
    by_cases right : greatest ≤ vertex
    · rw [min_eq_right right]
      have product := mul_nonneg (sub_nonneg.2 below)
        (show 0 ≤ 2 * vertex - x - greatest by linarith)
      linarith [product, show (greatest - x) * (2 * vertex - x - greatest) =
        x * x - 2 * vertex * x - (greatest * greatest - 2 * vertex * greatest) by ring]
    · rw [min_eq_left (not_le.1 right).le]
      have square := mul_self_nonneg (x - vertex)
      linarith [square, show (x - vertex) * (x - vertex) =
        x * x - 2 * vertex * x - (vertex * vertex - 2 * vertex * vertex) by ring]

end Exact

/-! ## The range of the norms -/

section Norms

variable {K : Type} [LinearOrder K] (norms : ℕ → K)

theorem foldl_min_le (l : List ℕ) (start : K) :
    l.foldl (fun acc i => min acc (norms i)) start ≤ start ∧
      ∀ i ∈ l, l.foldl (fun acc i => min acc (norms i)) start ≤ norms i := by
  induction l generalizing start with
  | nil => exact ⟨le_rfl, fun i none => absurd none List.not_mem_nil⟩
  | cons j l ih =>
      obtain ⟨first, rest⟩ := ih (min start (norms j))
      refine ⟨first.trans (min_le_left _ _), fun i mem => ?_⟩
      cases List.mem_cons.1 mem with
      | inl here => exact here ▸ first.trans (min_le_right _ _)
      | inr later => exact rest i later

theorem blockNormMin_le {count v : ℕ} (below : v < count) : blockNormMin norms count ≤ norms v := by
  obtain ⟨first, rest⟩ := foldl_min_le norms (List.range' 1 (count - 1)) (norms 0)
  by_cases zero : v = 0
  · exact zero ▸ first
  · exact rest v (List.mem_range'_1.2 ⟨by omega, by omega⟩)

theorem le_blockNormMax {count v : ℕ} (below : v < count) : norms v ≤ blockNormMax norms count :=
  @blockNormMin_le Kᵒᵈ _ norms count v below

/-- The range that starts at the infinities is the one that starts at the first norm. -/
theorem foldl_minInto {count : ℕ} (positive : 0 < count) :
    (List.range count).foldl (fun acc i => minInto acc (norms i)) none =
      some (blockNormMin norms count) := by
  have going : ∀ (l : List ℕ) (start : K), l.foldl (fun acc i => minInto acc (norms i)) (some start) =
      some (l.foldl (fun acc i => min acc (norms i)) start) := by
    intro l
    induction l with
    | nil =>
        intro start
        rfl
    | cons i l ih =>
        intro start
        exact ih (min start (norms i))
  obtain ⟨more, rfl⟩ : ∃ more, count = more + 1 := ⟨count - 1, by omega⟩
  rw [List.range_eq_range', List.range'_succ, blockNormMin, Nat.add_sub_cancel]
  exact going _ (norms 0)

theorem foldl_maxInto {count : ℕ} (positive : 0 < count) :
    (List.range count).foldl (fun acc i => maxInto acc (norms i)) none =
      some (blockNormMax norms count) :=
  @foldl_minInto Kᵒᵈ _ norms count positive

/-- Norms all the same have that range. -/
theorem blockNormMin_const (x : K) (count : ℕ) : blockNormMin (fun _ => x) count = x := by
  unfold blockNormMin
  induction List.range' 1 (count - 1) with
  | nil => rfl
  | cons i l ih => rw [List.foldl_cons, min_self, ih]

theorem blockNormMax_const (x : K) (count : ℕ) : blockNormMax (fun _ => x) count = x :=
  @blockNormMin_const Kᵒᵈ _ x count

end Norms

/-! ## The store's summary -/

section Summary

variable {K : Type} [Field K] [LinearOrder K] {build : Build} {dim : ℕ} {codes : List RaBitQCode}
  {packedCodes lut : Buffer}

/-- **The store's summary decides as the block's bytes do.** -/
theorem blockSafeout_summary (holds : HoldsCodes dim codes packedCodes)
    (size : packedCodes.size = 4 * dim) (whole : 8 ∣ dim) (positive : 0 < codes.length)
    (count : codes.length ≤ 32) (args : Stage1Args K) (sqrtDim : K) (norms : ℕ → K) :
    ∃ summary, buildResidentStage1EnvelopeSummary packedCodes norms codes.length dim =
        some summary ∧
      blockSafeout summary args sqrtDim build packedCodes lut norms codes.length dim =
        stage1BlockEnvelopeSafeOut args sqrtDim build packedCodes lut norms codes.length dim := by
  unfold buildResidentStage1EnvelopeSummary
  split
  · exact ⟨none, rfl, rfl⟩
  · obtain ⟨masks, built⟩ := exists_mapM (l := List.range (dim / 4))
      (f := fun group => fastScanPresenceMaskForGroup packedCodes group codes.length)
      fun g mem => by
        obtain ⟨mask, present, _⟩ :=
          presenceMask_spec holds size whole count (List.mem_range.1 mem)
        exact ⟨mask, present⟩
    obtain ⟨length, reads⟩ := (mapM_range_iff 0).1 built
    rw [built]
    refine ⟨_, rfl, ?_⟩
    have bounds : fastScanRawAccumulatorUpperBoundFromPresence build masks lut dim =
        fastScanRawAccumulatorUpperBound build packedCodes lut dim codes.length := by
      apply forRange_congr
      intro g group
      dsimp only
      rw [reads g group, List.getD_eq_getElem _ _ (by omega), List.getElem?_eq_getElem]
    unfold blockSafeout stage1BlockEnvelopeSafeOut
    dsimp only
    rw [if_pos length, if_neg (by omega), bounds, foldl_minInto norms positive,
      foldl_maxInto norms positive]

end Summary

/-! ## Soundness -/

section Sound

variable {K : Type} [Field K] [LinearOrder K]

/-- A prepared query's view of a cluster.  The width and the norm are not negative. -/
structure PreparedView (K : Type) [Field K] [LinearOrder K] extends Stage1Args K where
  sqrtDim : K
  sqrtDim_pos : 0 < sqrtDim
  invSqrtDim_eq : invSqrtDim = 1 / sqrtDim
  fsWidth_nonneg : 0 ≤ fsWidth
  normQc_nonneg : 0 ≤ normQc

/-- The view with its table's shift, under a frontier. -/
def PreparedView.under (view : PreparedView K) (shift : ℤ) (frontier : K) : Stage1Args K :=
  { view.toStage1Args with fsShift := shift, safeoutFrontierUpper := frontier }

theorem PreparedView.under_invSqrtDim (view : PreparedView K) (shift : ℤ) (frontier : K) :
    (view.under shift frontier).invSqrtDim = 1 / view.sqrtDim := view.invSqrtDim_eq

/-- **The envelope is sound for a block.**  Everything stays inside its buffers; for
all norms and every frontier the store's summary decides as the bytes do, and where they
say SafeOut every lane's estimate less its margin lies above the frontier and the fused
mask has every lane. -/
def EnvelopeSound (build : Build) (dim : ℕ) (q : QuantQuery) (block : CodeBlock dim)
    (view : PreparedView K) : Prop :=
  ∃ packedCodes lut shift raw,
    scanBlock build dim q block.codes = some (packedCodes, lut, shift, raw) ∧
    ∀ (norms : ℕ → K) (frontier : K), (∀ v < block.codes.length, 0 ≤ norms v) →
      ∃ summary decision,
        buildResidentStage1EnvelopeSummary packedCodes norms block.codes.length dim =
          some summary ∧
        stage1BlockEnvelopeSafeOut (view.under shift frontier) view.sqrtDim build packedCodes lut
          norms block.codes.length dim = some decision ∧
        blockSafeout summary (view.under shift frontier) view.sqrtDim build packedCodes lut norms
          block.codes.length dim = some decision ∧
        (decision = true → ∀ v < block.codes.length,
          frontier < @stage1Dist K (FloatArith.exact K) (view.under shift frontier) build (raw v)
            (norms v) - view.safeoutMarginFactor * norms v ∧
          hasLane (@fastScanStage1Evaluate K (FloatArith.exact K) (view.under shift frontier) build
            raw norms block.codes.length).safeoutMask v = true)

/-- The decision from the block's bytes, given the bound. -/
theorem safeOut_bytes {build : Build} {packedCodes lut : Buffer} {count dim : ℕ}
    {rawUpper : UInt32} (args : Stage1Args K) (sqrtDim : K) (norms : ℕ → K) (positive : 0 < count)
    (upper : fastScanRawAccumulatorUpperBound build packedCodes lut dim count = some rawUpper) :
    stage1BlockEnvelopeSafeOut args sqrtDim build packedCodes lut norms count dim =
      some (stage1BlockEnvelopeSafeOutFromSummary args sqrtDim rawUpper
        (some (blockNormMin norms count)) (some (blockNormMax norms count))) := by
  rw [stage1BlockEnvelopeSafeOut, if_neg (Nat.pos_iff_ne_zero.1 positive), upper]
  rfl

/-- In exact arithmetic a lane is in the mask where its estimate less its margin is above
the frontier. -/
theorem exact_safeout_lane [IsStrictOrderedRing K] (args : Stage1Args K) (build : Build)
    (raw : ℕ → UInt32) (norms : ℕ → K) {count v : ℕ} (fits : count ≤ 32) (below : v < count) :
    hasLane (@fastScanStage1Evaluate K (FloatArith.exact K) args build raw norms count).safeoutMask
        v = true ↔
      args.safeoutFrontierUpper < @stage1Dist K (FloatArith.exact K) args build (raw v) (norms v) -
        args.safeoutMarginFactor * norms v := by
  rw [@stage1_safeout_lane K (FloatArith.exact K) args count fits, decide_eq_true below,
    Bool.true_and]
  change decide (args.safeoutFrontierUpper + args.safeoutMarginFactor * norms v <
    @stage1Dist K (FloatArith.exact K) args build (raw v) (norms v)) = true ↔ _
  rw [decide_eq_true_eq, lt_sub_iff_add_lt]

variable [IsStrictOrderedRing K] {build : Build} {dim : ℕ} {q : QuantQuery} {block : CodeBlock dim}
  {view : PreparedView K}

/-- The bound of the summary, written out. -/
theorem fromSummary_iff (args : Stage1Args K) {sqrtDim : K} (inv : args.invSqrtDim = 1 / sqrtDim)
    (rawUpper : UInt32) (rMin rMax : K) :
    stage1BlockEnvelopeSafeOutFromSummary args sqrtDim rawUpper (some rMin) (some rMax) = true ↔
      args.safeoutFrontierUpper < args.normQcSq +
        (min (max (args.normQc * ipOf args rawUpper.toNat + 1 / 2 * args.safeoutMarginFactor) rMin)
            rMax *
          min (max (args.normQc * ipOf args rawUpper.toNat + 1 / 2 * args.safeoutMarginFactor) rMin)
            rMax -
          2 * (args.normQc * ipOf args rawUpper.toNat + 1 / 2 * args.safeoutMarginFactor) *
            min (max (args.normQc * ipOf args rawUpper.toNat + 1 / 2 * args.safeoutMarginFactor) rMin)
              rMax) := by
  have ip : (2 * (((rawUpper.toNat : K) + (args.fsShift : K)) * args.fsWidth) - args.sumQ) / sqrtDim =
      ipOf args rawUpper.toNat := by
    rw [ipOf, inv, mul_one_div]
  unfold stage1BlockEnvelopeSafeOutFromSummary
  dsimp only
  rw [ip, decide_eq_true_eq]
  generalize min (max _ rMin) rMax = r
  have rearranged : r * r + args.normQcSq - 2 * r * args.normQc * ipOf args rawUpper.toNat -
      args.safeoutMarginFactor * r = args.normQcSq + (r * r - 2 * (args.normQc *
        ipOf args rawUpper.toNat + 1 / 2 * args.safeoutMarginFactor) * r) := by ring
  rw [rearranged]

/-- A lane whose inner product is no larger than the bound's lies above the envelope. -/
theorem lane_above {r ip ipUpper normQc normQcSq margin frontier rMin rMax : K} (positive : 0 ≤ r)
    (bound : normQc * ip ≤ normQc * ipUpper) (above : rMin ≤ r) (below : r ≤ rMax)
    (safeout : frontier < normQcSq + (min (max (normQc * ipUpper + 1 / 2 * margin) rMin) rMax *
        min (max (normQc * ipUpper + 1 / 2 * margin) rMin) rMax -
      2 * (normQc * ipUpper + 1 / 2 * margin) *
        min (max (normQc * ipUpper + 1 / 2 * margin) rMin) rMax)) :
    frontier < max (r * r + normQcSq - 2 * r * normQc * ip) 0 - margin * r := by
  have vertex := @clampedVertex_le _ _ _ _ (normQc * ipUpper + 1 / 2 * margin) _ _ _ above below
  have smaller := mul_le_mul_of_nonneg_left bound positive
  have expanded : r * r - 2 * (normQc * ipUpper + 1 / 2 * margin) * r =
      r * r - 2 * (r * (normQc * ipUpper)) - margin * r := by ring
  have lane : r * r + normQcSq - 2 * r * normQc * ip =
      r * r + normQcSq - 2 * (r * (normQc * ip)) := by ring
  have clamp := le_max_left (r * r + normQcSq - 2 * r * normQc * ip) 0
  rw [expanded] at vertex
  rw [lane] at clamp ⊢
  linarith

/-- **No lane above the bound**: the envelope is sound. -/
theorem envelopeSound_of_lanes (whole : kernelDim build ∣ dim) (bound : dim < 2 ^ 30)
    (shift : -2 ^ 31 ≤ lutShift q.value (dim / 4))
    (lanes : view.fsWidth = 0 ∨ view.normQc = 0 ∨ ∀ v < block.codes.length,
      laneSum build q dim block.codes v ≤ upperSum q dim block.codes % 2 ^ 32) :
    EnvelopeSound build dim q block view := by
  obtain ⟨packedCodes, lut, raw, run, size, holdsCodes, holdsLut, sums⟩ :=
    @scanBlock_spec build q dim block.codes whole bound shift
  refine ⟨packedCodes, lut, _, raw, run, ?_⟩
  intro norms frontier nonneg
  have pairs := kernelDim_eight whole
  obtain ⟨summary, built, same⟩ := @blockSafeout_summary _ _ _ build _ _ _ lut holdsCodes size pairs
    block.nonempty block.count_le (view.under (lutShift q.value (dim / 4)) frontier) view.sqrtDim
    norms
  obtain ⟨rawUpper, upper, value⟩ := rawUpperBound_spec holdsLut (kernelDim_iteration whole)
    holdsCodes size pairs block.count_le
  have decision := safeOut_bytes (view.under (lutShift q.value (dim / 4)) frontier) view.sqrtDim
    norms block.nonempty upper
  refine ⟨summary, _, built, decision, same.trans decision, fun safeout v below => ?_⟩
  rw [fromSummary_iff _ (view.under_invSqrtDim _ _)] at safeout
  have above : frontier < @stage1Dist K (FloatArith.exact K)
      (view.under (lutShift q.value (dim / 4)) frontier) build (raw v) (norms v) -
        view.safeoutMarginFactor * norms v := by
    rw [exact_stage1Dist]
    refine lane_above (nonneg v below) ?_ (blockNormMin_le norms below) (le_blockNormMax norms below)
      safeout
    have lane := sums v (lt_of_lt_of_le below block.count_le)
    change view.normQc * ipOf _ _ ≤ view.normQc * ipOf _ _
    have ordered : view.fsWidth = 0 ∨ (raw v).toNat ≤ rawUpper.toNat →
        ipOf (view.under (lutShift q.value (dim / 4)) frontier) (raw v).toNat ≤
          ipOf (view.under (lutShift q.value (dim / 4)) frontier) rawUpper.toNat := by
      intro ordered
      unfold ipOf
      apply mul_le_mul_of_nonneg_right
      · apply sub_le_sub_right
        apply mul_le_mul_of_nonneg_left _ zero_le_two
        change (_ + _) * view.fsWidth ≤ (_ + _) * view.fsWidth
        cases ordered with
        | inl zero => rw [zero, mul_zero, mul_zero]
        | inr le =>
            apply mul_le_mul_of_nonneg_right _ view.fsWidth_nonneg
            exact add_le_add_left (Nat.cast_le.2 le) _
      · change 0 ≤ view.invSqrtDim
        rw [view.invSqrtDim_eq]
        exact (one_div_pos.2 view.sqrtDim_pos).le
    cases lanes with
    | inl zero => exact mul_le_mul_of_nonneg_left (ordered (.inl zero)) view.normQc_nonneg
    | inr others =>
        cases others with
        | inl zero => rw [zero, zero_mul, zero_mul]
        | inr fits =>
            apply mul_le_mul_of_nonneg_left (ordered (.inr _)) view.normQc_nonneg
            rw [lane, value]
            exact fits v below
  refine ⟨above, ?_⟩
  rw [exact_safeout_lane _ _ _ _ block.count_le below]
  exact above

/-- **A lane above the bound**: equal norms, large enough, and a frontier at that lane's
estimate make the envelope skip what stage 1 keeps. -/
theorem not_envelopeSound_of_lane (groups : 4 ∣ dim) (word : dim < 2 ^ 32) {v : ℕ}
    (width : view.fsWidth ≠ 0) (norm : view.normQc ≠ 0) (below : v < block.codes.length)
    (above : upperSum q dim block.codes % 2 ^ 32 < laneSum build q dim block.codes v) :
    ¬ EnvelopeSound build dim q block view := by
  intro ⟨packedCodes, lut, shift, raw, run, sound⟩
  obtain ⟨whole, bound, shiftFits⟩ := scanBlock_inside groups word run
  obtain ⟨_, _, _, run', size, holdsCodes, holdsLut, sums⟩ :=
    @scanBlock_spec build q dim block.codes whole bound shiftFits
  cases run.symm.trans run'
  obtain ⟨rawUpper, upper, value⟩ := rawUpperBound_spec holdsLut (kernelDim_iteration whole)
    holdsCodes size (kernelDim_eight whole) block.count_le
  have lane := sums v (lt_of_lt_of_le below block.count_le)
  have larger : (rawUpper.toNat : K) < ((raw v).toNat : K) := by
    rw [Nat.cast_lt, lane, value]
    exact above
  have widthPos := lt_of_le_of_ne view.fsWidth_nonneg width.symm
  have normPos := lt_of_le_of_ne view.normQc_nonneg norm.symm
  have invPos : 0 < view.invSqrtDim := by
    rw [view.invSqrtDim_eq]
    exact one_div_pos.2 view.sqrtDim_pos
  -- neither inner product depends on the frontier
  have ipLess : ipOf (view.under (lutShift q.value (dim / 4)) 0) rawUpper.toNat <
      ipOf (view.under (lutShift q.value (dim / 4)) 0) (raw v).toNat := by
    unfold ipOf
    apply mul_lt_mul_of_pos_right _ invPos
    apply sub_lt_sub_right
    apply mul_lt_mul_of_pos_left _ two_pos
    apply mul_lt_mul_of_pos_right _ widthPos
    exact add_lt_add_left larger _
  generalize lower : ipOf (view.under (lutShift q.value (dim / 4)) 0) rawUpper.toNat = ipUpper
    at ipLess
  generalize shown : ipOf (view.under (lutShift q.value (dim / 4)) 0) (raw v).toNat = ip at ipLess
  have product := mul_lt_mul_of_pos_left ipLess normPos
  obtain ⟨r, positive, visible⟩ : ∃ r : K, 0 < r ∧
      0 ≤ r * r + view.normQcSq - 2 * r * view.normQc * ip := by
    have absSq := neg_abs_le view.normQcSq
    have absIp := le_abs_self (view.normQc * ip)
    have nonnegSq := abs_nonneg view.normQcSq
    have nonnegIp := abs_nonneg (view.normQc * ip)
    generalize |view.normQcSq| = a at *
    generalize |view.normQc * ip| = b at *
    refine ⟨1 + a + 2 * b, by linarith, ?_⟩
    have scaled := mul_le_mul_of_nonneg_left absIp (show 0 ≤ 1 + a + 2 * b by linarith)
    have square := mul_nonneg nonnegSq nonnegSq
    have cross := mul_nonneg nonnegSq nonnegIp
    linarith [show (1 + a + 2 * b) * (1 + a + 2 * b) = (1 + a + 2 * b) * (2 * b) + 1 + 2 * a +
      2 * b + a * a + 2 * (a * b) by ring, show 2 * (1 + a + 2 * b) * view.normQc * ip =
        2 * ((1 + a + 2 * b) * (view.normQc * ip)) by ring]
  obtain ⟨summary, decision, _, decided, _, safe⟩ := sound (fun _ => r)
    (r * r + view.normQcSq - 2 * r * view.normQc * ip - view.safeoutMarginFactor * r)
    fun _ _ => positive.le
  rw [safeOut_bytes _ _ _ block.nonempty upper, blockNormMin_const, blockNormMax_const] at decided
  have decisive := Option.some.inj decided
  have skipped : decision = true := by
    rw [← decisive, fromSummary_iff _ (view.under_invSqrtDim _ _), min_eq_right (le_max_right _ _)]
    change r * r + view.normQcSq - 2 * r * view.normQc * ip - view.safeoutMarginFactor * r <
      view.normQcSq + (r * r - 2 * (view.normQc *
        ipOf (view.under (lutShift q.value (dim / 4)) 0) rawUpper.toNat +
          1 / 2 * view.safeoutMarginFactor) * r)
    rw [lower]
    have scaled := mul_lt_mul_of_pos_left product positive
    have left : 2 * r * view.normQc * ip = 2 * (r * (view.normQc * ip)) := by ring
    have right : 2 * (view.normQc * ipUpper + 1 / 2 * view.safeoutMarginFactor) * r =
        2 * (r * (view.normQc * ipUpper)) + view.safeoutMarginFactor * r := by ring
    rw [left, right]
    linarith
  have kept := (safe skipped v below).1
  rw [exact_stage1Dist] at kept
  change _ < max (r * r + view.normQcSq - 2 * r * view.normQc *
    ipOf (view.under (lutShift q.value (dim / 4)) 0) (raw v).toNat) 0 - _ at kept
  rw [shown, max_eq_left visible] at kept
  exact lt_irrefl _ kept

/-- **When the envelope is sound for a block**: whole steps of the kernel, the packed
size and the shift in 32 bits, and no lane above the bound, unless the width or the
query's norm makes the lanes all alike. -/
theorem envelope_sound_iff (build : Build) {dim : ℕ} (groups : 4 ∣ dim) (word : dim < 2 ^ 32)
    (q : QuantQuery) (block : CodeBlock dim) (view : PreparedView K) :
    EnvelopeSound build dim q block view ↔
      kernelDim build ∣ dim ∧ dim < 2 ^ 30 ∧ -2 ^ 31 ≤ lutShift q.value (dim / 4) ∧
        (view.fsWidth = 0 ∨ view.normQc = 0 ∨ ∀ v < block.codes.length,
          laneSum build q dim block.codes v ≤ upperSum q dim block.codes % 2 ^ 32) := by
  constructor
  · intro sound
    have scanned := sound
    obtain ⟨_, _, _, _, run, _⟩ := scanned
    obtain ⟨whole, bound, shift⟩ := scanBlock_inside groups word run
    refine ⟨whole, bound, shift, ?_⟩
    by_cases width : view.fsWidth = 0
    · exact .inl width
    · by_cases norm : view.normQc = 0
      · exact .inr (.inl norm)
      · refine .inr (.inr fun v below => ?_)
        by_contra above
        exact not_envelopeSound_of_lane groups word width norm below (not_le.1 above) sound
  · intro ⟨whole, bound, shift, lanes⟩
    exact envelopeSound_of_lanes whole bound shift lanes

/-- What `PrepareQuery` makes of a rotated query of norm one: the quantiser's step, the
sum of the entries and the entries quantised. -/
structure PreparedFrom (query : ℕ → K) [FloorRing K] (dim : ℕ) (q : QuantQuery)
    (view : PreparedView K) : Prop where
  unit : ∑ i ∈ Finset.range dim, query i * query i = 1
  below : ∀ i, i < dim → |query i| ≤ view.fsWidth * lit 8191
  reached : ∃ i, i < dim ∧ |query i| = view.fsWidth * lit 8191
  sumQ : view.sumQ = ∑ i ∈ Finset.range dim, query i
  quantised : ∀ i, i < dim →
    FusedLut.quantizeLane14Bit (query i) (1 / view.fsWidth) = some (q.value i)
  normQcSq : view.normQcSq = view.normQc * view.normQc
  sqrtDim : view.sqrtDim * view.sqrtDim = dim

/-- The direction that is `-1/4` in each of sixteen dimensions. -/
def valley (_ : ℕ) : ℚ := -1 / 4

/-- It is least everywhere. -/
def valleyQuery : QuantQuery := ⟨fun _ => -8191, fun _ => by decide⟩

/-- Two codes of sixteen dimensions with every bit set. -/
def onesBlock : CodeBlock 16 where
  codes := [wordCode 16 0xFFFF, wordCode 16 0xFFFF]
  nonempty := by decide
  count_le := by decide
  planes := by decide

/-- The view of that direction, at distance one from the centroid and of margin factor one. -/
def valleyView : PreparedView ℚ where
  fsShift := 0
  fsWidth := 1 / 32764
  sumQ := -4
  invSqrtDim := 1 / 4
  normQc := 1
  normQcSq := 1
  safeoutFrontierUpper := 0
  safeoutMarginFactor := 1
  safeinThresholdBase := 0
  safeinMarginFactor := 1
  enableSafein := false
  sqrtDim := 4
  sqrtDim_pos := by decide
  invSqrtDim_eq := rfl
  fsWidth_nonneg := by norm_num
  normQc_nonneg := by decide

theorem valleyView_prepared : PreparedFrom valley 16 valleyQuery valleyView where
  unit := by norm_num [valley]
  below i _ := by norm_num [valley, valleyView, lit]
  reached := ⟨0, by decide, by norm_num [valley, valleyView, lit]⟩
  sumQ := by norm_num [valley, valleyView]
  quantised i _ := by
    have lane : FusedLut.quantizeLane14Bit (-1 / 4 : ℚ) (1 / (1 / 32764)) = some (-8191) := by
      decide +kernel
    exact lane
  normQcSq := by norm_num [valleyView]
  sqrtDim := by norm_num [valleyView]

theorem envelope_sound_iff_ones :
    EnvelopeSound .avx2 16 valleyQuery onesBlock valleyView ↔
      kernelDim .avx2 ∣ 16 ∧ 16 < 2 ^ 30 ∧ -2 ^ 31 ≤ lutShift valleyQuery.value (16 / 4) ∧
        (valleyView.fsWidth = 0 ∨ valleyView.normQc = 0 ∨ ∀ v < onesBlock.codes.length,
          laneSum .avx2 valleyQuery 16 onesBlock.codes v ≤
            upperSum valleyQuery 16 onesBlock.codes % 2 ^ 32) :=
  envelope_sound_iff .avx2 (by decide) (by decide) valleyQuery onesBlock valleyView

/-- In the scalar build, over two codes that have the query's least entries only, the
block is skipped under a frontier of 1 while lane 1 comes out at distance 0. -/
theorem scalar_envelope_unsound : PreparedFrom valley 16 valleyQuery valleyView ∧
    ¬ EnvelopeSound .scalar 16 valleyQuery onesBlock valleyView := by
  refine ⟨valleyView_prepared, fun ⟨packedCodes, lut, shift, raw, run, sound⟩ => ?_⟩
  obtain ⟨_, decision, _, decided, _, safe⟩ := sound (fun _ => 1) 1 fun _ _ => zero_le_one
  have shown : (scanBlock .scalar 16 valleyQuery onesBlock.codes).map (fun scan =>
      (stage1BlockEnvelopeSafeOut (valleyView.under scan.2.2.1 1) valleyView.sqrtDim .scalar scan.1
        scan.2.1 (fun _ => 1) 2 16,
      hasLane (@fastScanStage1Evaluate ℚ (FloatArith.exact ℚ) (valleyView.under scan.2.2.1 1)
        .scalar scan.2.2.2 (fun _ => 1) 2).safeoutMask 1)) = some (some true, false) := by
    decide +kernel
  rw [run, Option.map_some] at shown
  have both := Option.some.inj shown
  have skipped := congrArg Prod.fst both
  have kept := congrArg Prod.snd both
  dsimp only at skipped kept
  have yes : decision = true := Option.some.inj (decided.symm.trans skipped)
  have dropped := (safe yes 1 (by decide)).2
  exact absurd (dropped.symm.trans kept) (by decide)

end Sound

/-! ## The SIMD builds -/

section Simd

variable {build : Build} {q : QuantQuery} {dim : ℕ} {codes : List RaBitQCode}

/-- A SIMD lane only loses from the sum of its entries. -/
theorem laneSum_le (simd : build ≠ .scalar) (whole : 8 ∣ dim) {v : ℕ} (below : v < codes.length) :
    laneSum build q dim codes v ≤ upperSum q dim codes := by
  have planes : planeSum q dim codes 0 v + 256 * planeSum q dim codes 1 v ≤ upperSum q dim codes := by
    rw [planeSum, planeSum, Finset.mul_sum, ← Finset.sum_add_distrib, upperSum]
    apply Finset.sum_le_sum
    intro g _
    rw [groupByte, groupByte, planeByte_sum]
    exact Finset.le_sup (f := fun v => lutEntry q.value g (codeNibble dim codes v g))
      (Finset.mem_range.2 below)
  have low := @paritySum_add q dim codes whole 0 v
  have high := @paritySum_add q dim codes whole 1 v
  cases build with
  | scalar => exact absurd rfl simd
  | avx2 =>
      unfold laneSum
      dsimp only
      have := Nat.mod_le (planeSum q dim codes 0 v) (2 ^ 16)
      have := Nat.mod_le (planeSum q dim codes 1 v) (2 ^ 16)
      omega
  | avx512 =>
      unfold laneSum
      dsimp only
      have := Nat.mod_le (paritySum q dim codes 0 v 0) (2 ^ 16)
      have := Nat.mod_le (paritySum q dim codes 0 v 1) (2 ^ 16)
      have := Nat.mod_le (paritySum q dim codes 1 v 0) (2 ^ 16)
      have := Nat.mod_le (paritySum q dim codes 1 v 1) (2 ^ 16)
      omega

/-- **In a SIMD build** the envelope is sound for every block, query and view of whole
steps up to 2¹⁸ dimensions. -/
theorem envelopeSound_simd {K : Type} [Field K] [LinearOrder K] [IsStrictOrderedRing K]
    (simd : build ≠ .scalar) (whole : kernelDim build ∣ dim) (bound : dim ≤ 2 ^ 18)
    (q : QuantQuery) (block : CodeBlock dim) (view : PreparedView K) :
    EnvelopeSound build dim q block view := by
  have entries : upperSum q dim block.codes ≤ dim / 4 * 2 ^ 15 := by
    have each : upperSum q dim block.codes ≤ ∑ _g ∈ Finset.range (dim / 4), 2 ^ 15 := by
      apply Finset.sum_le_sum
      intro g _
      apply Finset.sup_le
      intro v _
      exact (lutEntry_lt q g _).le
    rwa [Finset.sum_const_nat fun _ _ => rfl, Finset.card_range] at each
  have shift : -2 ^ 31 ≤ lutShift q.value (dim / 4) := by
    have least : ∀ n : ℕ, -32768 * (n : ℤ) ≤ lutShift q.value n := by
      intro n
      induction n with
      | zero => exact le_refl _
      | succ n ih =>
          have := q.range (4 * n)
          have := q.range (4 * n + 1)
          have := q.range (4 * n + 2)
          have := q.range (4 * n + 3)
          have next : lutShift q.value (n + 1) = lutShift q.value n + groupMin q.value n :=
            Finset.sum_range_succ _ n
          rw [next, groupMin, lutMin]
          push_cast
          omega
    have := least (dim / 4)
    omega
  apply envelopeSound_of_lanes whole (by omega) shift
  refine .inr (.inr fun v below => ?_)
  rw [Nat.mod_eq_of_lt (by omega)]
  exact laneSum_le simd (kernelDim_eight whole) below

end Simd

end VecFetch.Index.Envelope
