/-
# Simd.FastScanExact -- when a FastScan block is exact

The two-plane accumulation is meant to keep 16-bit lanes from overflowing, but a plane
of low bytes overflows by itself: at 258 groups in the AVX2 build, at 258 groups of one
parity in the AVX-512 build (`fastScan_exact_iff`, `fastScan_exact_dims`).  Dimensions
below one iteration of the kernel run past the table.
-/
import VecFetch.Simd.FastScan
import Mathlib.Algebra.Order.BigOperators.Group.Finset
import Mathlib.Tactic.Ring

namespace VecFetch.Simd

open VecFetch.Theory VecFetch.Storage VecFetch.Rabitq

set_option autoImplicit false

/-! ## The law -/

/-- The dimensions an index is built with: a power of two or a multiple of 64, a
`uint32_t`. -/
structure IndexDim (dim : ℕ) : Prop where
  shape : (∃ k, dim = 2 ^ k) ∨ 64 ∣ dim
  bound : dim < 2 ^ 32

/-- The sum of the quantized values over the bits set in a code. -/
def bitSum (q : QuantQuery) (dim : ℕ) (c : RaBitQCode) : ℤ :=
  ∑ d ∈ Finset.range dim, q.value d * c.signBit d

/-- A block's scan reads and writes inside its buffers and is exact in every lane. -/
def FastScanExact (build : Build) (dim : ℕ) (q : QuantQuery) (block : CodeBlock dim) : Prop :=
  ∃ lanes, fastScan build dim q block.codes = some lanes ∧
    ∀ v c, block.codes[v]? = some c → lanes v = bitSum q dim c

/-! ## Entries and bits -/

theorem sum_range_quads (f : ℕ → ℤ) (n : ℕ) :
    ∑ g ∈ Finset.range n, (f (4 * g) + f (4 * g + 1) + f (4 * g + 2) + f (4 * g + 3)) =
      ∑ d ∈ Finset.range (4 * n), f d := by
  induction n with
  | zero => rfl
  | succ n ih =>
      rw [Nat.mul_succ, Finset.sum_range_succ, Finset.sum_range_succ _ (4 * n + 3),
        Finset.sum_range_succ _ (4 * n + 2), Finset.sum_range_succ _ (4 * n + 1),
        Finset.sum_range_succ _ (4 * n), ih]
      ring

section Sums

variable {q : QuantQuery} {dim : ℕ}

/-- A code's nibble selects the values under its set bits. -/
theorem groupSum_nibble (c : RaBitQCode) {g : ℕ} (whole : 4 * g + 4 ≤ dim) :
    groupSum q.value g (signNibble dim c g) =
      q.value (4 * g) * c.signBit (4 * g) + q.value (4 * g + 1) * c.signBit (4 * g + 1) +
        q.value (4 * g + 2) * c.signBit (4 * g + 2) + q.value (4 * g + 3) * c.signBit (4 * g + 3) := by
  rw [signNibble_eq c whole, groupSum]
  rcases Nat.le_one_iff_eq_zero_or_eq_one.1 (c.signBit_le (4 * g)) with b₀ | b₀ <;>
  rcases Nat.le_one_iff_eq_zero_or_eq_one.1 (c.signBit_le (4 * g + 1)) with b₁ | b₁ <;>
  rcases Nat.le_one_iff_eq_zero_or_eq_one.1 (c.signBit_le (4 * g + 2)) with b₂ | b₂ <;>
  rcases Nat.le_one_iff_eq_zero_or_eq_one.1 (c.signBit_le (4 * g + 3)) with b₃ | b₃ <;>
  simp [b₀, b₁, b₂, b₃]

/-- The entries a code selects, moved back by the shift, add up to its bit sum. -/
theorem entries_sum (whole : 4 ∣ dim) (c : RaBitQCode) :
    (∑ g ∈ Finset.range (dim / 4), (lutEntry q.value g (signNibble dim c g) : ℤ)) +
      lutShift q.value (dim / 4) = bitSum q dim c := by
  rw [lutShift, ← Finset.sum_add_distrib, bitSum, show dim = 4 * (dim / 4) by omega,
    ← sum_range_quads fun d => q.value d * c.signBit d, ← show dim = 4 * (dim / 4) by omega]
  refine Finset.sum_congr rfl fun g inRange => ?_
  have := Finset.mem_range.1 inRange
  rw [(lutEntry_cast q g _).1, groupSum_nibble c (by omega), groupMin, sub_add_cancel]

/-- Both planes together hold the entries. -/
theorem planes_sum (whole : 4 ∣ dim) {codes : List RaBitQCode} {v : ℕ} {c : RaBitQCode}
    (code : codes[v]? = some c) :
    ((planeSum q dim codes 0 v + 256 * planeSum q dim codes 1 v : ℕ) : ℤ) +
      lutShift q.value (dim / 4) = bitSum q dim c := by
  rw [← entries_sum whole c, planeSum, planeSum, Finset.mul_sum, ← Finset.sum_add_distrib,
    Nat.cast_sum]
  congr 1
  refine Finset.sum_congr rfl fun g _ => ?_
  rw [groupByte, groupByte, planeByte_sum, codeNibble, code]

end Sums

/-! ## SIMD builds -/

/-- The dimensions of one iteration of the kernel's loop. -/
def iterationDim (build : Build) : ℕ := 4 * kFastScanLutPerIter build

/-- The byte sums of vector `v` fit the 16-bit lanes a SIMD build adds them in: both
planes over all groups, or over the even and the odd groups apart. -/
def PlanesFit (build : Build) (q : QuantQuery) (dim : ℕ) (codes : List RaBitQCode) (v : ℕ) : Prop :=
  ∀ p < 2, if build = .avx512 then ∀ r < 2, paritySum q dim codes p v r < 2 ^ 16
    else planeSum q dim codes p v < 2 ^ 16

section Simd

variable {build : Build} {q : QuantQuery} {dim : ℕ} {codes : List RaBitQCode}

theorem forall_lt_two {P : ℕ → Prop} : (∀ i < 2, P i) ↔ P 0 ∧ P 1 := by
  refine ⟨fun all => ⟨all 0 (by decide), all 1 (by decide)⟩, fun ⟨zero, one⟩ i below => ?_⟩
  obtain rfl | rfl : i = 0 ∨ i = 1 := by omega
  · exact zero
  · exact one

theorem planesFit_avx2 (v : ℕ) : PlanesFit .avx2 q dim codes v ↔
    planeSum q dim codes 0 v < 2 ^ 16 ∧ planeSum q dim codes 1 v < 2 ^ 16 := by
  unfold PlanesFit
  rw [forall_lt_two]
  rfl

theorem planesFit_avx512 (v : ℕ) : PlanesFit .avx512 q dim codes v ↔
    (paritySum q dim codes 0 v 0 < 2 ^ 16 ∧ paritySum q dim codes 0 v 1 < 2 ^ 16) ∧
      paritySum q dim codes 1 v 0 < 2 ^ 16 ∧ paritySum q dim codes 1 v 1 < 2 ^ 16 := by
  unfold PlanesFit
  rw [forall_lt_two, if_pos rfl, if_pos rfl, forall_lt_two, forall_lt_two]

theorem fastScanPackedSize_eq (whole : 8 ∣ dim) :
    fastScanPackedSize dim = 4 * dim % 2 ^ 32 := by
  unfold fastScanPackedSize
  omega

/-- A whole number of iterations whose packed size and shift fit 32 bits: the scan runs,
and a lane is exact where its planes fit. -/
theorem fastScan_lanes (simd : build ≠ .scalar) (whole : iterationDim build ∣ dim)
    (bound : dim < 2 ^ 30) (shift : -2 ^ 31 ≤ lutShift q.value (dim / 4))
    (count : codes.length ≤ 32) :
    ∃ lanes, fastScan build dim q codes = some lanes ∧ ∀ v c, codes[v]? = some c →
      (lanes v = bitSum q dim c ↔ PlanesFit build q dim codes v) := by
  have pairs : 8 ∣ dim := by
    refine Dvd.dvd.trans ?_ whole
    cases build <;> first | decide | exact absurd rfl simd
  have quads : 4 ∣ dim := Dvd.dvd.trans (by decide) pairs
  have packedSize : fastScanPackedSize dim = 4 * dim := by
    rw [fastScanPackedSize_eq pairs]
    omega
  obtain ⟨packedCodes, packed, size, holdsCodes⟩ :=
    packSignBits_spec codes (show 32 * ((dim / 4 + 1) / 2) ≤ _ by omega)
  obtain ⟨lut, built, holdsLut⟩ := buildFastScanLUT_spec whole shift
  rw [packedSize] at size
  have lane_lt : ∀ {v c}, codes[v]? = some c → v < 32 := fun code =>
    lt_of_lt_of_le (List.getElem?_eq_some_iff.1 code).1 count
  cases build with
  | scalar => exact absurd rfl simd
  | avx2 =>
      obtain ⟨raw, run, lanes⟩ := accumulateBlock_avx2_lanes holdsLut holdsCodes size pairs
      refine ⟨fun v => (raw v).toNat + lutShift q.value (dim / 4), ?_, fun v c code => ?_⟩
      · simp only [fastScan, packed, built, run, Option.bind_some, Option.map_some]
      · dsimp only
        rw [lanes v (lane_lt code), ← planes_sum quads code, add_left_inj, Nat.cast_inj,
          planesFit_avx2]
        omega
  | avx512 =>
      obtain ⟨raw, run, lanes⟩ := accumulateBlock_avx512_lanes holdsLut holdsCodes size whole
      refine ⟨fun v => (raw v).toNat + lutShift q.value (dim / 4), ?_, fun v c code => ?_⟩
      · simp only [fastScan, packed, built, run, Option.bind_some, Option.map_some]
      · have low := @paritySum_add q dim codes pairs 0 v
        have high := @paritySum_add q dim codes pairs 1 v
        dsimp only
        rw [lanes v (lane_lt code), ← planes_sum quads code, add_left_inj, Nat.cast_inj,
          planesFit_avx512, ← low, ← high]
        omega

/-- A scan that runs fits its packed codes and its shift in 32 bits. -/
theorem fastScan_inside (pairs : 8 ∣ dim) {lanes : ℕ → ℤ}
    (run : fastScan build dim q codes = some lanes) :
    (dim < 2 ^ 32 → dim < 2 ^ 30) ∧ -2 ^ 31 ≤ lutShift q.value (dim / 4) := by
  unfold fastScan at run
  obtain ⟨packedCodes, packed, rest⟩ := Option.bind_eq_some_iff.1 run
  obtain ⟨⟨lut, shift⟩, built, -⟩ := Option.bind_eq_some_iff.1 rest
  have inside := packSignBits_inside packed
  rw [fastScanPackedSize_eq pairs] at inside
  obtain ⟨rfl, bound⟩ := buildFastScanLUT_shift built
  exact ⟨fun _ => by omega, bound⟩

/-- A dimension below one iteration, but not below one group, runs past its table. -/
theorem fastScan_none (groups : 4 ≤ dim) (outside : dim * 8 < kFastScanHiOffset build + 16) :
    fastScan build dim q codes = none := by
  unfold fastScan
  rw [Option.bind_eq_none_iff]
  intro packedCodes _
  rw [buildFastScanLUT_none (by omega) outside, Option.bind_none]

theorem storeAccumulators256_init :
    storeAccumulators256 ScanState.init.accu = fun _ => 0 := by
  funext v
  simp [storeAccumulators256, ScanState.init, BytePairs.zero, BytePairs.low, Register.permuteHalves,
    Register.blendHalves, Register.sub, Register.shiftLeft, Register.zero]

theorem storeAccumulators512_init :
    storeAccumulators512 ScanState.init.accu = fun _ => 0 := by
  funext v
  simp [storeAccumulators512, ScanState.init, BytePairs.fold, BytePairs.zero, BytePairs.low,
    Register.permuteHalves, Register.blendHalves, Register.add, Register.upper, Register.sub,
    Register.shiftLeft, Register.zero]

/-- Without a whole group the scan reads nothing and is zero. -/
theorem fastScan_tiny (tiny : dim < 4) : fastScan build dim q codes = some fun _ => 0 := by
  have raw : ∀ packedCodes lut : Buffer,
      accumulateBlock packedCodes lut build dim = some fun _ => 0 := by
    intro packedCodes lut
    obtain rfl | rfl | rfl | rfl : dim = 0 ∨ dim = 1 ∨ dim = 2 ∨ dim = 3 := by omega
    all_goals
      cases build <;> simp [accumulateBlock, accumulateBlockAvx512Chunked,
        accumulateBlockAvx512Generic, accumulateBlockAvx2Chunked, accumulateBlockAvx2Generic,
        accumulateBlockScalar, forRange, storeAccumulators512_init, storeAccumulators256_init]
  have none : dim / 4 = 0 := by omega
  simp only [fastScan, packSignBitsForFastScan, buildFastScanLUT, none, forRange, raw,
    Option.bind_some, Option.map_some]
  rfl

end Simd

section Exact

variable {build : Build} {dim : ℕ}

/-- An index dimension of at least one iteration is whole iterations. -/
theorem IndexDim.whole (dims : IndexDim dim) (least : iterationDim build ≤ dim) :
    iterationDim build ∣ dim := by
  rcases dims.shape with ⟨k, rfl⟩ | multiple
  · have power : ∃ j, iterationDim build = 2 ^ j := by
      cases build
      exacts [⟨4, rfl⟩, ⟨3, rfl⟩, ⟨2, rfl⟩]
    obtain ⟨j, same⟩ := power
    rw [same] at least ⊢
    exact pow_dvd_pow 2 ((Nat.pow_le_pow_iff_right (by decide)).1 least)
  · refine Dvd.dvd.trans ?_ multiple
    cases build <;> decide

/-- A smaller one has no group, or runs past the table. -/
theorem IndexDim.small (dims : IndexDim dim) (simd : build ≠ .scalar) (groups : 4 ≤ dim)
    (small : dim < iterationDim build) : dim * 8 < kFastScanHiOffset build + 16 := by
  have eight : dim ≤ 8 := by
    rcases dims.shape with ⟨k, rfl⟩ | multiple
    · have : k < 4 := by
        by_contra large
        have := Nat.pow_le_pow_right (show 0 < 2 by decide) (show 4 ≤ k by omega)
        have : iterationDim build ≤ 16 := by cases build <;> decide
        omega
      exact (Nat.pow_le_pow_right (by decide) (show k ≤ 3 by omega)).trans (by decide)
    · have : iterationDim build ≤ 16 := by cases build <;> decide
      omega
  cases build with
  | avx512 =>
      simp only [kFastScanHiOffset]
      omega
  | avx2 =>
      simp only [kFastScanHiOffset]
      simp only [iterationDim, kFastScanLutPerIter] at small
      rcases dims.shape with ⟨k, rfl⟩ | multiple
      · have : k < 3 := (Nat.pow_lt_pow_iff_right (show 1 < 2 by decide)).1 small
        have := Nat.pow_le_pow_right (show 0 < 2 by decide) (show k ≤ 2 by omega)
        omega
      · omega
  | scalar => exact absurd rfl simd

variable {q : QuantQuery} {block : CodeBlock dim}

theorem fastScanExact_tiny (tiny : dim < 4) :
    FastScanExact build dim q block ↔ ∀ c ∈ block.codes, bitSum q dim c = 0 := by
  unfold FastScanExact
  rw [fastScan_tiny tiny]
  constructor
  · rintro ⟨lanes, run, exact⟩ c mem
    cases run
    obtain ⟨v, code⟩ := List.getElem?_of_mem mem
    exact (exact v c code).symm
  · exact fun zero => ⟨_, rfl, fun v c code => (zero c (List.mem_of_getElem? code)).symm⟩

theorem not_fastScanExact_small (dims : IndexDim dim) (simd : build ≠ .scalar) (groups : 4 ≤ dim)
    (small : dim < iterationDim build) : ¬ FastScanExact build dim q block := by
  rintro ⟨lanes, run, -⟩
  rw [fastScan_none groups (dims.small simd groups small)] at run
  cases run

theorem fastScanExact_least (dims : IndexDim dim) (simd : build ≠ .scalar)
    (least : iterationDim build ≤ dim) : FastScanExact build dim q block ↔
      dim < 2 ^ 30 ∧ -2 ^ 31 ≤ lutShift q.value (dim / 4) ∧
        ∀ v < block.codes.length, PlanesFit build q dim block.codes v := by
  have whole := dims.whole least
  have pairs : 8 ∣ dim := by
    refine Dvd.dvd.trans ?_ whole
    cases build <;> first | decide | exact absurd rfl simd
  constructor
  · rintro ⟨lanes, run, exact⟩
    obtain ⟨bound, shift⟩ := fastScan_inside pairs run
    obtain ⟨lanes', run', fits⟩ := fastScan_lanes simd whole (bound dims.bound) shift block.count_le
    obtain rfl : lanes = lanes' := Option.some.inj (run.symm.trans run')
    refine ⟨bound dims.bound, shift, fun v below => ?_⟩
    have code := List.getElem?_eq_getElem below
    exact (fits v _ code).1 (exact v _ code)
  · rintro ⟨bound, shift, planes⟩
    obtain ⟨lanes, run, fits⟩ := fastScan_lanes simd whole bound shift block.count_le
    refine ⟨lanes, run, fun v c code => (fits v c code).2 (planes v ?_)⟩
    exact (List.getElem?_eq_some_iff.1 code).1

end Exact

/-! ### The theorem -/

/-- **A SIMD block is exact where its planes fit.**  For every index dimension, query and
block: below one group exactly where the codes select nothing; from one iteration of the
kernel on exactly where the packed size and the shift fit 32 bits and the byte sums
16; and never between. -/
theorem fastScan_exact_iff {build : Build} {dim : ℕ} (simd : build ≠ .scalar) (dims : IndexDim dim)
    (q : QuantQuery) (block : CodeBlock dim) :
    FastScanExact build dim q block ↔
      (dim < 4 ∧ ∀ c ∈ block.codes, bitSum q dim c = 0) ∨
      (iterationDim build ≤ dim ∧ dim < 2 ^ 30 ∧ -2 ^ 31 ≤ lutShift q.value (dim / 4) ∧
        ∀ v < block.codes.length, PlanesFit build q dim block.codes v) := by
  have iteration : 4 ≤ iterationDim build := by cases build <;> decide
  rcases lt_or_ge dim 4 with tiny | groups
  · have below : ¬ iterationDim build ≤ dim := by omega
    simp only [fastScanExact_tiny tiny, tiny, below, true_and, false_and, or_false]
  have nonTiny : ¬ dim < 4 := by omega
  rcases lt_or_ge dim (iterationDim build) with small | least
  · have below : ¬ iterationDim build ≤ dim := by omega
    simp only [not_fastScanExact_small dims simd groups small, nonTiny, below, false_and, or_false]
  · simp only [fastScanExact_least dims simd least, nonTiny, least, false_and, false_or, true_and]

/-- A query with the largest quantized value in every dimension. -/
def peakQuery : QuantQuery := ⟨fun _ => 8191, fun _ => by decide⟩

/-- A code that repeats one word. -/
def wordCode (dim : ℕ) (word : UInt64) : RaBitQCode where
  code := List.replicate ((dim + 63) / 64) word
  norm := 0
  sumX := 0

/-- The block of one such code. -/
def wordBlock (dim : ℕ) (word : UInt64) : CodeBlock dim where
  codes := [wordCode dim word]
  nonempty := by simp
  count_le := by simp
  planes c mem := by
    rw [List.mem_singleton.1 mem]
    simp [wordCode]

/-- A query of values of both signs. -/
def mixedQuery : QuantQuery :=
  ⟨fun d => if d % 2 = 0 then 8191 else -1000, fun d => by split <;> decide⟩

/-- Three codes that select different dimensions. -/
def mixedBlock : CodeBlock 16 where
  codes := [wordCode 16 0xFFFF, wordCode 16 0x5A0F, wordCode 16 0x8001]
  nonempty := by decide
  count_le := by decide
  planes := by decide

/-- An AVX-512 block of three codes is exact; none of them selects a sum of zero. -/
theorem fastScan_exact_iff_mixedBlock :
    FastScanExact .avx512 16 mixedQuery mixedBlock ∧
      mixedBlock.codes.map (bitSum mixedQuery 16) = [57528, 28764, 7191] := by
  have planes : ∀ v < mixedBlock.codes.length,
      PlanesFit .avx512 mixedQuery 16 mixedBlock.codes v := by
    unfold PlanesFit
    decide
  exact ⟨(fastScan_exact_iff (by decide) ⟨.inl ⟨4, rfl⟩, by decide⟩ mixedQuery mixedBlock).2
    (.inr ⟨by decide, by decide, by decide, planes⟩), by decide⟩

/-! ### The peak query -/

/-- The last bit of every nibble. -/
def lastBits : UInt64 := 0x8888888888888888

theorem wordCode_signBit {dim d : ℕ} (below : d < dim) (word : UInt64) :
    (wordCode dim word).signBit d = ((word >>> UInt64.ofNat (d % 64)) &&& 1).toNat := by
  have word' : (wordCode dim word).code.getD (d / 64) 0 = word := by
    rw [wordCode, List.getD_eq_getElem?_getD, List.getElem?_replicate, if_pos (by omega),
      Option.getD_some]
  rw [RaBitQCode.signBit, word']

theorem lastBits_signBit {dim d : ℕ} (below : d < dim) :
    (wordCode dim lastBits).signBit d = if d % 4 = 3 then 1 else 0 := by
  have bits : ∀ r < 64, ((lastBits >>> UInt64.ofNat r) &&& 1).toNat = if r % 4 = 3 then 1 else 0 := by
    decide
  rw [wordCode_signBit below, bits _ (Nat.mod_lt _ (by decide)), Nat.mod_mod_of_dvd d (by decide)]

/-- Every low byte the code selects from the peak query's table is 255. -/
theorem peak_groupByte {dim g : ℕ} (whole : 4 * g + 4 ≤ dim) :
    groupByte peakQuery dim [wordCode dim lastBits] 0 0 g = 255 := by
  have nibble : codeNibble dim [wordCode dim lastBits] 0 g = 1 := by
    change signNibble dim (wordCode dim lastBits) g = 1
    rw [signNibble_eq _ whole, lastBits_signBit (by omega), lastBits_signBit (by omega),
      lastBits_signBit (by omega), lastBits_signBit (by omega), if_neg (by omega),
      if_neg (by omega), if_neg (by omega), if_pos (by omega)]
  have entry : lutEntry peakQuery.value g 1 = 8191 := by
    simp [lutEntry, groupSum, groupMin, lutMin, peakQuery]
  rw [groupByte, nibble, entry]
  rfl

/-- The largest dimension whose low bytes fit: 257 groups to an accumulated lane. -/
def exactDim (build : Build) : ℕ := if build = .avx512 then 2056 else 1028

/-- **Beyond it the peak query overflows.** -/
theorem peak_overflow {build : Build} {dim : ℕ} (simd : build ≠ .scalar) (dims : IndexDim dim)
    (large : exactDim build < dim) :
    ¬ FastScanExact build dim peakQuery (wordBlock dim lastBits) := by
  have least : iterationDim build ≤ dim := by
    cases build <;> simp only [iterationDim, kFastScanLutPerIter, exactDim, reduceCtorEq,
      reduceIte] at large ⊢ <;> omega
  have pairs : 8 ∣ dim := by
    refine Dvd.dvd.trans ?_ (dims.whole least)
    cases build <;> first | decide | exact absurd rfl simd
  rw [fastScanExact_least dims simd least]
  rintro ⟨-, -, fits⟩
  have fit := fits 0 (by simp [wordBlock]) 0 (by decide)
  have parity : paritySum peakQuery dim [wordCode dim lastBits] 0 0 0 = 255 * (dim / 8) := by
    rw [paritySum, Finset.sum_const_nat fun g inRange => peak_groupByte (by
      have := Finset.mem_range.1 inRange
      omega), Finset.card_range, Nat.mul_comm]
  have plane : planeSum peakQuery dim [wordCode dim lastBits] 0 0 = 255 * (dim / 4) := by
    rw [planeSum, Finset.sum_const_nat fun g inRange => peak_groupByte (by
      have := Finset.mem_range.1 inRange
      omega), Finset.card_range, Nat.mul_comm]
  split at fit
  · rename_i avx512
    have := fit 0 (by decide)
    simp only [exactDim, avx512, if_true] at large
    rw [wordBlock, parity] at this
    omega
  · rename_i avx2
    simp only [exactDim, avx2, if_false] at large
    rw [wordBlock, plane] at fit
    omega

/-- The shift of `n` groups. -/
theorem lutShift_ge (q : QuantQuery) (n : ℕ) : -(32764 * n : ℤ) ≤ lutShift q.value n := by
  induction n with
  | zero => simp [lutShift]
  | succ n ih =>
      have := q.range (4 * n)
      have := q.range (4 * n + 1)
      have := q.range (4 * n + 2)
      have := q.range (4 * n + 3)
      have group : -32764 ≤ groupMin q.value n := by
        unfold groupMin lutMin
        omega
      rw [lutShift, Finset.sum_range_succ, ← lutShift]
      push_cast
      linarith

theorem sum_bytes_le {q : QuantQuery} {dim p v n : ℕ} {codes : List RaBitQCode} (g : ℕ → ℕ) :
    ∑ k ∈ Finset.range n, groupByte q dim codes p v (g k) ≤ n * 255 := by
  have := Finset.sum_le_card_nsmul (Finset.range n) (fun k => groupByte q dim codes p v (g k)) 255
    fun k _ => Nat.le_of_lt_succ (planeByte_lt q _ _ _)
  simpa using this

/-- **The dimensions a SIMD build can be trusted with**: for those the index builds, every
block of every query is exact from one iteration to 257 groups a lane, and at no other
dimension is that so. -/
theorem fastScan_exact_dims {build : Build} {dim : ℕ} (simd : build ≠ .scalar)
    (dims : IndexDim dim) (positive : 0 < dim) :
    (∀ q block, FastScanExact build dim q block) ↔
      iterationDim build ≤ dim ∧ dim ≤ exactDim build := by
  constructor
  · intro all
    refine ⟨?_, ?_⟩
    · by_contra small
      rcases lt_or_ge dim 4 with tiny | groups
      · have select := fastScanExact_tiny tiny |>.1 (all peakQuery (wordBlock dim (-1))) _
          (List.mem_singleton_self _)
        obtain rfl | rfl | rfl : dim = 1 ∨ dim = 2 ∨ dim = 3 := by omega
        all_goals exact absurd select (by decide)
      · exact not_fastScanExact_small dims simd groups (by omega) (all peakQuery (wordBlock dim 0))
    · by_contra large
      exact peak_overflow simd dims (by omega) (all peakQuery (wordBlock dim lastBits))
  · rintro ⟨least, most⟩ q block
    have limit : exactDim build ≤ 2056 := by
      unfold exactDim
      split <;> decide
    have shift := lutShift_ge q (dim / 4)
    rw [fastScanExact_least dims simd least]
    refine ⟨by omega, by omega, fun v _ p _ => ?_⟩
    unfold exactDim at most
    split at most
    · rename_i avx512
      rw [if_pos avx512]
      intro r _
      have := @sum_bytes_le q dim p v (dim / 8) block.codes (fun g => 2 * g + r)
      rw [paritySum]
      omega
    · rename_i avx2
      rw [if_neg avx2]
      have := @sum_bytes_le q dim p v (dim / 4) block.codes id
      simp only [id_eq] at this
      rw [planeSum]
      omega

/-- **The peak query is wrong at dimensions an index can have**: 2048 in the AVX2 build,
4096 in the AVX-512 build; and at eight dimensions AVX-512 runs past the table. -/
theorem fastScan_peak_not_exact :
    (IndexDim 2048 ∧ ¬ FastScanExact .avx2 2048 peakQuery (wordBlock 2048 lastBits)) ∧
    (IndexDim 4096 ∧ ¬ FastScanExact .avx512 4096 peakQuery (wordBlock 4096 lastBits)) ∧
    (IndexDim 8 ∧ ¬ FastScanExact .avx512 8 peakQuery (wordBlock 8 lastBits)) := by
  have wide₁ : IndexDim 2048 := ⟨.inl ⟨11, rfl⟩, by decide⟩
  have wide₂ : IndexDim 4096 := ⟨.inl ⟨12, rfl⟩, by decide⟩
  have narrow : IndexDim 8 := ⟨.inl ⟨3, rfl⟩, by decide⟩
  exact ⟨⟨wide₁, peak_overflow (by decide) wide₁ (by decide)⟩,
    ⟨wide₂, peak_overflow (by decide) wide₂ (by decide)⟩,
    ⟨narrow, not_fastScanExact_small narrow (by decide) (by decide) (by decide)⟩⟩

end VecFetch.Simd
