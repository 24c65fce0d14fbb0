/-
# Simd.FastScanScalar -- the scalar build

The scalar kernel reads its table in the AVX2 layout and takes the packed order for the
vectors' own, while the builder, with the constants of the scalar build, writes each
group's planes side by side.  So lane 1 shows vector 8, and no query but zero comes
out right in every block (`scalar_fastScan_exact_iff`).
-/
import VecFetch.Simd.FastScanExact

namespace VecFetch.Simd

open VecFetch.Theory VecFetch.Storage VecFetch.Rabitq

set_option autoImplicit false

section Scalar

variable {q : QuantQuery} {dim : ℕ} {codes : List RaBitQCode} {packedCodes lut : Buffer}

/-- What the scalar kernel adds in one step for two zero nibbles. -/
def zeroEntries (lut : Buffer) (i : ℕ) : UInt32 :=
  ((lut.byte (64 * i)).toUInt32 + (lut.byte (64 * i + 32)).toUInt32 <<< 8) +
    ((lut.byte (64 * i + 16)).toUInt32 + (lut.byte (64 * i + 48)).toUInt32 <<< 8)

/-- The lane of a vector that is not there. -/
def absentLane (lut : Buffer) : ℕ → UInt32
  | 0 => 0
  | n + 1 => absentLane lut n + zeroEntries lut n

/-- The scalar kernel stays inside its buffers, and with at most eight codes its lane 1
is that of a vector that is not there. -/
theorem accumulateBlockScalar_lane (holdsCodes : HoldsCodes dim codes packedCodes)
    (codesSize : packedCodes.size = 4 * dim) (lutSize : lut.size = dim * 8) (whole : 8 ∣ dim)
    (few : codes.length ≤ 8) :
    ∃ raw, accumulateBlock packedCodes lut .scalar dim = some raw ∧
      raw 1 = absentLane lut ((dim / 4 + 1) / 2) := by
  refine forRange_spec (fun n (result : ℕ → UInt32) => result 1 = absentLane lut n) rfl ?_
  intro i result below lane
  have nibble : ∀ sub < 2, (packedCodes.byte (32 * i + (16 * sub + 1))).toNat % 16 = 0 := by
    intro sub side
    have absent : codeNibble dim codes (kPerm 1 + 16 * 0) (2 * i + sub) = 0 := by
      rw [codeNibble, List.getElem?_eq_none (few.trans (by decide))]
    have byte := packed_nibble holdsCodes whole (g := 2 * i + sub) (j := 1) (h := 0) (by omega)
      (by decide) (by decide)
    rw [absent, show 16 * (2 * i + sub) + 1 = 32 * i + (16 * sub + 1) by omega] at byte
    exact byte
  rw [accumulateScalarStep, Buffer.load_inside (by omega), Option.bind_some,
    Buffer.load_inside (by omega), Option.map_some]
  refine ⟨_, rfl, ?_⟩
  have first := nibble 0 (by decide)
  have second := nibble 1 (by decide)
  simp only [Nat.mul_zero, Nat.mul_one, Nat.zero_add, Nat.reduceAdd] at first second
  simp [lane, first, second, absentLane, zeroEntries, UInt32.add_assoc]

/-- What the scalar kernel adds to vector `v` for the groups `2i` and `2i + 1`: it takes
byte `v` of a group for the vector's, and the planes of one group for those of two. -/
def scalarEntries (q : QuantQuery) (dim : ℕ) (codes : List RaBitQCode) (v i : ℕ) : ℕ :=
  let w := kPerm (v % 16) + 16 * (v / 16)
  let first := codeNibble dim codes w (2 * i)
  let second := codeNibble dim codes w (2 * i + 1)
  planeByte 0 (lutEntry q.value (2 * i) first) +
    256 * planeByte 0 (lutEntry q.value (2 * i + 1) first) +
    (planeByte 1 (lutEntry q.value (2 * i) second) +
      256 * planeByte 1 (lutEntry q.value (2 * i + 1) second))

def scalarSum (q : QuantQuery) (dim : ℕ) (codes : List RaBitQCode) (v : ℕ) : ℕ :=
  ∑ i ∈ Finset.range (dim / 8), scalarEntries q dim codes v i

/-- **The scalar kernel** adds, in 32 bits, what it takes for the entries. -/
theorem accumulateBlockScalar_lanes (holdsLut : HoldsGroups .scalar q dim (dim / 4) lut)
    (holdsCodes : HoldsCodes dim codes packedCodes) (codesSize : packedCodes.size = 4 * dim)
    (whole : 8 ∣ dim) :
    ∃ raw, accumulateBlock packedCodes lut .scalar dim = some raw ∧ ∀ v < 32, (raw v).toNat =
      scalarSum q dim codes v % 2 ^ 32 := by
  have steps : (dim / 4 + 1) / 2 = dim / 8 := by omega
  have loop : ∃ raw, accumulateBlock packedCodes lut .scalar dim = some raw ∧
      ∀ v < 32, (raw v).toNat =
        (∑ i ∈ Finset.range ((dim / 4 + 1) / 2), scalarEntries q dim codes v i) % 2 ^ 32 := by
    refine forRange_spec (fun n (result : ℕ → UInt32) => ∀ v < 32, (result v).toNat =
      (∑ i ∈ Finset.range n, scalarEntries q dim codes v i) % 2 ^ 32) (fun v _ => rfl) ?_
    intro i result below sums
    have lutSize := holdsLut.size
    rw [accumulateScalarStep, Buffer.load_inside (by omega), Option.bind_some,
      Buffer.load_inside (by omega), Option.map_some]
    refine ⟨_, rfl, fun v lane => ?_⟩
    have nibble : ∀ sub < 2, (if v < 16
        then (packedCodes.byte (32 * i + (16 * sub + v % 16))).toNat % 16
        else (packedCodes.byte (32 * i + (16 * sub + v % 16))).toNat / 16) =
          codeNibble dim codes (kPerm (v % 16) + 16 * (v / 16)) (2 * i + sub) := by
      intro sub side
      have byte := @packed_nibble _ _ _ holdsCodes whole (2 * i + sub) (v % 16) (v / 16) (by omega)
        (by omega) (by omega)
      rw [← byte, nibbleHalf, show 16 * (2 * i + sub) + v % 16 = 32 * i + (16 * sub + v % 16) by
        omega]
      by_cases lower : v < 16
      · rw [if_pos lower, if_pos (by omega)]
      · rw [if_neg lower, if_neg (by omega)]
    -- the planes of group `g` lie in the 32 bytes from `32 g` on
    have bytes : ∀ g < dim / 4, ∀ p < 2, ∀ n < 16, (lut.byte (32 * g + 16 * p + n)).toNat =
        planeByte p (lutEntry q.value g n) := by
      intro g group p plane n inside
      have byte := holdsLut.bytes g group p plane n inside
      rw [← byte]
      simp only [lutGroupWriteBase, kFastScanLutPerIter, kFastScanCodePerIter,
        kFastScanCodePerLane, kFastScanHiOffset, Nat.div_one, Nat.mod_one, Nat.zero_mul,
        Nat.add_zero]
      congr 3
      omega
    have entry : ∀ sub < 2, ∀ n < 16, ((lut.byte (64 * i + (16 * sub + n))).toUInt32 +
        (lut.byte (64 * i + (32 + 16 * sub + n))).toUInt32 <<< 8).toNat =
          planeByte sub (lutEntry q.value (2 * i) n) +
            256 * planeByte sub (lutEntry q.value (2 * i + 1) n) := by
      intro sub side n inside
      have low := bytes (2 * i) (by omega) sub side n inside
      have high := bytes (2 * i + 1) (by omega) sub side n inside
      rw [show 32 * (2 * i) + 16 * sub + n = 64 * i + (16 * sub + n) by omega] at low
      rw [show 32 * (2 * i + 1) + 16 * sub + n = 64 * i + (32 + 16 * sub + n) by omega] at high
      have lowByte := (lut.byte (64 * i + (16 * sub + n))).toNat_lt
      have highByte := (lut.byte (64 * i + (32 + 16 * sub + n))).toNat_lt
      rw [planes_toNat, UInt8.toNat_toUInt32, UInt8.toNat_toUInt32, low, high]
      · rw [UInt8.toNat_toUInt32]
        omega
      · rw [UInt8.toNat_toUInt32]
        omega
    have below16 : ∀ g < dim / 4, codeNibble dim codes (kPerm (v % 16) + 16 * (v / 16)) g < 16 :=
      fun g group => codeNibble_lt _ (by omega)
    dsimp only
    rw [nibble 0 (by decide), nibble 1 (by decide), UInt32.toNat_add, UInt32.toNat_add, sums v lane,
      entry 0 (by decide) _ (below16 _ (by omega)), entry 1 (by decide) _ (below16 _ (by omega)),
      Finset.sum_range_succ, scalarEntries]
    rw [Nat.add_zero]
    omega
  rwa [steps] at loop

/-- The zero query's table is zero. -/
theorem zeroTable (holdsLut : HoldsGroups .scalar q dim (dim / 4) lut)
    (zero : ∀ d < dim, q.value d = 0) (whole : 8 ∣ dim) {a : ℕ} (inside : a < dim * 8) :
    lut.byte a = 0 := by
  have entry : ∀ g < dim / 4, ∀ n, lutEntry q.value g n = 0 := by
    intro g group n
    simp [lutEntry, groupSum, groupMin, lutMin, zero (4 * g) (by omega),
      zero (4 * g + 1) (by omega), zero (4 * g + 2) (by omega), zero (4 * g + 3) (by omega)]
  have byte := holdsLut.bytes (a / 32) (by omega) (a % 32 / 16) (by omega) (a % 16) (by omega)
  have address : lutGroupWriteBase .scalar (a / 32) + a % 32 / 16 * kFastScanHiOffset .scalar +
      a % 16 = a := by
    simp only [lutGroupWriteBase, kFastScanLutPerIter, kFastScanCodePerIter, kFastScanCodePerLane,
      kFastScanHiOffset]
    omega
  rw [address, entry _ (by omega)] at byte
  apply UInt8.toNat_inj.1
  rw [byte]
  unfold planeByte
  split <;> rfl

/-- Over a zero table every lane is zero. -/
theorem accumulateBlockScalar_zero (codesSize : packedCodes.size = 4 * dim)
    (lutSize : lut.size = dim * 8) (whole : 8 ∣ dim) (zero : ∀ a < dim * 8, lut.byte a = 0) :
    accumulateBlock packedCodes lut .scalar dim = some fun _ => 0 := by
  have loop : ∃ raw, accumulateBlock packedCodes lut .scalar dim = some raw ∧ raw = fun _ => 0 := by
    refine forRange_spec (fun _ (result : ℕ → UInt32) => result = fun _ => 0) rfl ?_
    rintro i _ below rfl
    rw [accumulateScalarStep, Buffer.load_inside (by omega), Option.bind_some,
      Buffer.load_inside (by omega), Option.map_some]
    refine ⟨_, rfl, ?_⟩
    funext v
    have entry : ∀ sub < 2, ∀ n < 16, (lut.byte (64 * i + (16 * sub + n))).toUInt32 +
        (lut.byte (64 * i + (32 + 16 * sub + n))).toUInt32 <<< 8 = 0 := by
      intro sub side n nibble
      rw [zero _ (by omega), zero _ (by omega)]
      rfl
    have nibble : ∀ byte : UInt8, (if v < 16 then byte.toNat % 16 else byte.toNat / 16) < 16 := by
      intro byte
      have := byte.toNat_lt
      split <;> omega
    dsimp only
    rw [entry 0 (by decide) _ (nibble _), entry 1 (by decide) _ (nibble _)]
    rfl
  obtain ⟨raw, run, rfl⟩ := loop
  exact run

end Scalar

/-! ## The law in the scalar build -/

/-- A code with one bit of the sign plane set. -/
def bitCode (dim d : ℕ) : RaBitQCode where
  code := (List.replicate ((dim + 63) / 64) 0).set (d / 64) (1 <<< UInt64.ofNat (d % 64))
  norm := 0
  sumX := 0

/-- A block whose second code has one bit, or none. -/
def secondBlock (dim : ℕ) (second : RaBitQCode)
    (plane : (dim + 63) / 64 ≤ second.code.length) : CodeBlock dim where
  codes := [wordCode dim 0, second]
  nonempty := by simp
  count_le := by simp
  planes c mem := by
    rcases List.mem_cons.1 mem with rfl | mem
    · simp [wordCode]
    · rw [List.mem_singleton.1 mem]
      exact plane

theorem bitCode_signBit {dim d i : ℕ} (below : d < dim) (below' : i < dim) :
    (bitCode dim d).signBit i = if i = d then 1 else 0 := by
  have bits : ∀ r < 64, ∀ s < 64,
      (((1 <<< UInt64.ofNat r : UInt64) >>> UInt64.ofNat s) &&& 1).toNat = if s = r then 1 else 0 := by
    decide +kernel
  rw [RaBitQCode.signBit, bitCode, List.getD_eq_getElem?_getD, List.getElem?_set,
    List.length_replicate, List.getElem?_replicate]
  by_cases word : d / 64 = i / 64
  · rw [if_pos word, if_pos (by omega), Option.getD_some,
      bits _ (Nat.mod_lt _ (by decide)) _ (Nat.mod_lt _ (by decide))]
    by_cases same : i = d
    · rw [if_pos (by rw [same]), if_pos same]
    · rw [if_neg (by omega), if_neg same]
  · have other : i ≠ d := fun same => word (by rw [same])
    rw [if_neg word, if_pos (by omega), Option.getD_some, if_neg other, UInt64.zero_shiftRight,
      UInt64.zero_and]
    rfl

theorem bitSum_bitCode {q : QuantQuery} {dim d : ℕ} (below : d < dim) :
    bitSum q dim (bitCode dim d) = q.value d := by
  rw [bitSum, Finset.sum_eq_single_of_mem d (Finset.mem_range.2 below)]
  · rw [bitCode_signBit below below, if_pos rfl, Nat.cast_one, mul_one]
  · intro i inRange other
    rw [bitCode_signBit below (Finset.mem_range.1 inRange), if_neg other, Nat.cast_zero, mul_zero]

theorem bitSum_zeroCode (q : QuantQuery) (dim : ℕ) : bitSum q dim (wordCode dim 0) = 0 := by
  refine Finset.sum_eq_zero fun d inRange => ?_
  rw [wordCode_signBit (Finset.mem_range.1 inRange), UInt64.zero_shiftRight, UInt64.zero_and]
  simp

/-- In a scalar block of at most eight codes lane 1 does not depend on them. -/
theorem scalar_lane_one {q : QuantQuery} {dim : ℕ} (whole : 8 ∣ dim) (bound : dim < 2 ^ 30)
    (shift : -2 ^ 31 ≤ lutShift q.value (dim / 4)) :
    ∃ lane : ℤ, ∀ codes : List RaBitQCode, codes.length ≤ 8 →
      ∃ lanes, fastScan .scalar dim q codes = some lanes ∧ lanes 1 = lane := by
  have packedSize : fastScanPackedSize dim = 4 * dim := by
    rw [fastScanPackedSize_eq whole]
    omega
  obtain ⟨lut, built, holdsLut⟩ :=
    @buildFastScanLUT_spec .scalar q dim (Dvd.dvd.trans (by decide) whole) shift
  refine ⟨(absentLane lut ((dim / 4 + 1) / 2)).toNat + lutShift q.value (dim / 4),
    fun codes few => ?_⟩
  obtain ⟨packedCodes, packed, size, holdsCodes⟩ :=
    packSignBits_spec codes (show 32 * ((dim / 4 + 1) / 2) ≤ _ by omega)
  obtain ⟨raw, run, lane⟩ := accumulateBlockScalar_lane holdsCodes (size.trans packedSize)
    holdsLut.size whole few
  refine ⟨fun v => (raw v).toNat + lutShift q.value (dim / 4), ?_, by simp only [lane]⟩
  simp only [fastScan, packed, built, run, Option.bind_some, Option.map_some]

/-- **No query but zero is exact in the scalar build.**  For every dimension of whole
pairs of groups, every block is exact if and only if the query is zero there, and the
packed size fits 32 bits. -/
theorem scalar_fastScan_exact_iff {dim : ℕ} (whole : 8 ∣ dim) (bound : dim < 2 ^ 32) (q : QuantQuery) :
    (∀ block, FastScanExact .scalar dim q block) ↔ dim < 2 ^ 30 ∧ ∀ d < dim, q.value d = 0 := by
  have quads : 4 ∣ dim := Dvd.dvd.trans (by decide) whole
  constructor
  · intro all
    obtain ⟨_, runs, -⟩ := all (wordBlock dim 0)
    obtain ⟨fits, shift⟩ := fastScan_inside whole runs
    obtain ⟨lane, lanes⟩ := scalar_lane_one whole (fits bound) shift
    -- the block with the second code `c` shows the sum of `c` in the same lane
    have second : ∀ c : RaBitQCode, (dim + 63) / 64 ≤ c.code.length → bitSum q dim c = lane := by
      intro c plane
      obtain ⟨_, run, exact⟩ := all (secondBlock dim c plane)
      obtain ⟨_, run', shown⟩ := lanes (secondBlock dim c plane).codes (by simp [secondBlock])
      cases run.symm.trans run'
      rw [← shown, exact 1 c rfl]
    refine ⟨fits bound, fun d below => ?_⟩
    rw [← bitSum_bitCode below, second (bitCode dim d) (by simp [bitCode]),
      ← second (wordCode dim 0) (by simp [wordCode]), bitSum_zeroCode]
  · rintro ⟨fits, zero⟩ block
    have groups : ∀ g < dim / 4, groupMin q.value g = 0 := by
      intro g group
      simp [groupMin, lutMin, zero (4 * g) (by omega), zero (4 * g + 1) (by omega),
        zero (4 * g + 2) (by omega), zero (4 * g + 3) (by omega)]
    have shift : lutShift q.value (dim / 4) = 0 :=
      Finset.sum_eq_zero fun g inRange => groups g (Finset.mem_range.1 inRange)
    have packedSize : fastScanPackedSize dim = 4 * dim := by
      rw [fastScanPackedSize_eq whole]
      omega
    obtain ⟨lut, built, holdsLut⟩ :=
      @buildFastScanLUT_spec .scalar q dim (Dvd.dvd.trans (by decide) whole) (by omega)
    obtain ⟨packedCodes, packed, size, -⟩ :=
      packSignBits_spec block.codes (show 32 * ((dim / 4 + 1) / 2) ≤ _ by omega)
    have run := accumulateBlockScalar_zero (size.trans packedSize) holdsLut.size whole
      fun a inside => zeroTable holdsLut zero whole inside
    refine ⟨fun _ => 0, ?_, fun v c _ => ?_⟩
    · simp only [fastScan, packed, built, run, shift, Option.bind_some, Option.map_some]
      rfl
    · rw [bitSum, Finset.sum_eq_zero]
      intro d inRange
      rw [zero d (Finset.mem_range.1 inRange), zero_mul]

theorem scalar_fastScan_exact_iff_peak :
    (∀ block, FastScanExact .scalar 8 peakQuery block) ↔ 8 < 2 ^ 30 ∧ ∀ d < 8, peakQuery.value d = 0 :=
  scalar_fastScan_exact_iff (by decide) (by decide) peakQuery

/-- The peak query over two codes of eight dimensions, the second with its first bit
set: lane 1 shows vector 8, which is not there. -/
theorem scalar_fastScan_peak : ¬ FastScanExact .scalar 8 peakQuery
    (secondBlock 8 (bitCode 8 0) (by decide)) := by
  rintro ⟨lanes, run, exact⟩
  have lane : (fastScan .scalar 8 peakQuery [wordCode 8 0, bitCode 8 0]).map (fun l => l 1) =
      some 0 := by
    decide +kernel
  have shown : lanes 1 = 0 := by
    have := congrArg (Option.map fun l : ℕ → ℤ => l 1) run
    exact Option.some.inj (this.symm.trans lane)
  have sum := exact 1 (bitCode 8 0) rfl
  rw [shown, bitSum_bitCode (by decide)] at sum
  exact absurd sum (by decide)

end VecFetch.Simd
