/-
# Simd.FastScan -- the FastScan accumulation kernels

`AccumulateBlock` looks up the nibbles of 32 packed codes group by group and adds the
entries.  The SIMD builds add 16-bit lanes and recover the byte planes at the end
(`scan_sums`); the scalar build adds 32-bit entries one by one.
-/
import VecFetch.Theory.Lanes
import VecFetch.Storage.PackCodes
import VecFetch.Simd.FastScanLut

namespace VecFetch.Simd

open VecFetch.Theory VecFetch.Storage VecFetch.Rabitq

set_option autoImplicit false

/-! ## SIMD builds -/

/-- The cursors and the accumulators of a scan: `accu p h` is the pair `accu[p][2h]`,
`accu[p][2h + 1]` of plane `p` and nibble half `h`. -/
structure ScanState where
  codeCursor : ℕ
  lutCursor : ℕ
  accu : ℕ → ℕ → BytePairs

/-- `InitAccumulators`. -/
def ScanState.init : ScanState := ⟨0, 0, fun _ _ => .zero⟩

section Kernel

variable (packedCodes lut : Buffer)

/-- One step over the groups of a register. -/
def accumulateStep (groups : ℕ) (st : ScanState) : Option ScanState :=
  (packedCodes.load st.codeCursor (16 * groups)).bind fun codes =>
  (lut.load st.lutCursor (16 * groups)).bind fun lut₀ =>
  (lut.load (st.lutCursor + 16 * groups) (16 * groups)).map fun lut₁ =>
    let c := Register.ofBytes codes
    let lo := c.andByte 0x0F
    let hi := (c.shiftRight 4).andByte 0x0F
    { codeCursor := st.codeCursor + 16 * groups
      lutCursor := st.lutCursor + 32 * groups
      accu := fun p h => (st.accu p h).accumulate
        ((Register.ofBytes (if p = 0 then lut₀ else lut₁)).shuffle (if h = 0 then lo else hi)) }

def accumulateStep16Avx512 : ScanState → Option ScanState := accumulateStep packedCodes lut 4

def accumulateStep8Avx2 : ScanState → Option ScanState := accumulateStep packedCodes lut 2

/-- `StoreAccumulators512`. -/
def storeAccumulators512 (accu : ℕ → ℕ → BytePairs) (v : ℕ) : UInt32 :=
  let h := v / 16
  let dis (p : ℕ) : UInt32 :=
    let tmp := (accu p h).fold
    (tmp.low.permuteHalves tmp.high (v % 16)).toUInt32 +
      (tmp.low.blendHalves tmp.high (v % 16)).toUInt32
  dis 0 + dis 1 <<< 8

/-- `StoreAccumulators256`. -/
def storeAccumulators256 (accu : ℕ → ℕ → BytePairs) (v : ℕ) : UInt32 :=
  let h := v / 16
  let raw (p : ℕ) : UInt16 :=
    (accu p h).low.permuteHalves (accu p h).high (v % 16) +
      (accu p h).low.blendHalves (accu p h).high (v % 16)
  (raw 0).toUInt32 + (raw 1).toUInt32 <<< 8

/-- `AccumulateBlockAvx512Generic`: four groups a step. -/
def accumulateBlockAvx512Generic (dim : ℕ) : Option (ℕ → UInt32) :=
  (forRange (fun _ => accumulateStep16Avx512 packedCodes lut) ((dim / 4 + 3) / 4) .init).map
    fun st => storeAccumulators512 st.accu

/-- `AccumulateBlockAvx512Chunked`. -/
def accumulateBlockAvx512Chunked (dimsPerChunk dim : ℕ) : Option (ℕ → UInt32) :=
  (forRange (fun _ => forRange (fun _ => accumulateStep16Avx512 packedCodes lut)
    (if dimsPerChunk = 32 then 2 else 4)) (dim / dimsPerChunk) .init).map
      fun st => storeAccumulators512 st.accu

/-- `AccumulateBlockAvx2Generic`: two groups a step. -/
def accumulateBlockAvx2Generic (dim : ℕ) : Option (ℕ → UInt32) :=
  (forRange (fun _ => accumulateStep8Avx2 packedCodes lut) ((dim / 4 + 1) / 2) .init).map
    fun st => storeAccumulators256 st.accu

/-- `AccumulateBlockAvx2Chunked`. -/
def accumulateBlockAvx2Chunked (dimsPerChunk dim : ℕ) : Option (ℕ → UInt32) :=
  (forRange (fun _ => forRange (fun _ => accumulateStep8Avx2 packedCodes lut)
    (if dimsPerChunk = 32 then 4 else 8)) (dim / dimsPerChunk) .init).map
      fun st => storeAccumulators256 st.accu

/-! ## Scalar build -/

/-- Two groups of the scalar loop, `m = 2i` and `m + 1`: the table bytes lie as in an
AVX2 table, and byte `v` of a group is taken for the vectors `v` and `v + 16`. -/
def accumulateScalarStep (i : ℕ) (result : ℕ → UInt32) : Option (ℕ → UInt32) :=
  (lut.load (64 * i) 64).bind fun table =>
  (packedCodes.load (32 * i) 32).map fun codes =>
    let entry (sub nibble : ℕ) : UInt32 :=
      (table (16 * sub + nibble)).toUInt32 + (table (32 + 16 * sub + nibble)).toUInt32 <<< 8
    let nibble (sub v : ℕ) : ℕ :=
      let byte := (codes (16 * sub + v % 16)).toNat
      if v < 16 then byte % 16 else byte / 16
    fun v => result v + entry 0 (nibble 0 v) + entry 1 (nibble 1 v)

def accumulateBlockScalar (dim : ℕ) : Option (ℕ → UInt32) :=
  forRange (accumulateScalarStep packedCodes lut) ((dim / 4 + 1) / 2) fun _ => 0

/-! ## `AccumulateBlock` -/

def accumulateBlock (build : Build) (dim : ℕ) : Option (ℕ → UInt32) :=
  match build with
  | .avx512 =>
      if dim % 64 = 0 then accumulateBlockAvx512Chunked packedCodes lut 64 dim
      else if dim % 32 = 0 then accumulateBlockAvx512Chunked packedCodes lut 32 dim
      else accumulateBlockAvx512Generic packedCodes lut dim
  | .avx2 =>
      if dim % 64 = 0 then accumulateBlockAvx2Chunked packedCodes lut 64 dim
      else if dim % 32 = 0 then accumulateBlockAvx2Chunked packedCodes lut 32 dim
      else accumulateBlockAvx2Generic packedCodes lut dim
  | .scalar => accumulateBlockScalar packedCodes lut dim

end Kernel

/-- Packing, table and kernel together: the lanes with the shift added. -/
def fastScan (build : Build) (dim : ℕ) (q : QuantQuery) (codes : List RaBitQCode) :
    Option (ℕ → ℤ) :=
  (packSignBitsForFastScan dim codes).bind fun packedCodes =>
  (buildFastScanLUT build q.value dim).bind fun (lut, shift) =>
  (accumulateBlock packedCodes lut build dim).map fun raw v => (raw v).toNat + shift

/-! ## What a scan sums -/

section Scan

variable {packedCodes lut : Buffer}

/-- The nibble of a byte in half `h`. -/
def nibbleHalf (h byte : ℕ) : ℕ := if h = 0 then byte % 16 else byte / 16

/-- The table byte that byte `j` of step `k` selects, in plane `p` and half `h`. -/
def scanByte (packedCodes lut : Buffer) (groups p h k j : ℕ) : UInt8 :=
  lut.byte (32 * groups * k + (if p = 0 then 0 else 16 * groups) +
    (16 * (j / 16) + nibbleHalf h (packedCodes.byte (16 * groups * k + j)).toNat))

/-- After `n` steps the accumulators hold the sums of the selected bytes. -/
structure Scanned (packedCodes lut : Buffer) (groups n : ℕ) (st : ScanState) : Prop where
  codeCursor : st.codeCursor = 16 * groups * n
  lutCursor : st.lutCursor = 32 * groups * n
  sums : ∀ p h, (st.accu p h).Sums fun j =>
    ∑ k ∈ Finset.range n, (scanByte packedCodes lut groups p h k j).toNat

theorem Scanned.init (groups : ℕ) : Scanned packedCodes lut groups 0 .init :=
  ⟨rfl, rfl, fun _ _ => BytePairs.sums_zero⟩

/-- One step inside both buffers. -/
theorem Scanned.step {groups n : ℕ} {st : ScanState} (scanned : Scanned packedCodes lut groups n st)
    (codesInside : 16 * groups * (n + 1) ≤ packedCodes.size)
    (lutInside : 32 * groups * (n + 1) ≤ lut.size) :
    ∃ st', accumulateStep packedCodes lut groups st = some st' ∧
      Scanned packedCodes lut groups (n + 1) st' := by
  obtain ⟨codeCursor, lutCursor, sums⟩ := scanned
  have nextCode : st.codeCursor + 16 * groups = 16 * groups * (n + 1) := by
    rw [codeCursor, Nat.mul_succ]
  have nextLut : st.lutCursor + 32 * groups = 32 * groups * (n + 1) := by
    rw [lutCursor, Nat.mul_succ]
  rw [accumulateStep, Buffer.load_inside (by omega), Option.bind_some,
    Buffer.load_inside (by omega), Option.bind_some, Buffer.load_inside (by omega), Option.map_some]
  refine ⟨_, rfl, nextCode, nextLut, fun p h => ?_⟩
  simp only [Finset.sum_range_succ]
  set codes := fun j => packedCodes.byte (st.codeCursor + j) with hcodes
  set index := if h = 0 then (Register.ofBytes codes).andByte 0x0F
    else ((Register.ofBytes codes).shiftRight 4).andByte 0x0F with hindex
  have nibble : ∀ j, (index.byte j).toNat =
      nibbleHalf h (packedCodes.byte (16 * groups * n + j)).toNat := by
    intro j
    rw [hindex, nibbleHalf, ← codeCursor]
    split
    · exact Register.lowNibble_byte codes j
    · exact Register.highNibble_byte codes j
  have below : ∀ j, (index.byte j).toNat < 16 := by
    intro j
    have := (packedCodes.byte (16 * groups * n + j)).toNat_lt
    rw [nibble j, nibbleHalf]
    split <;> omega
  have selected : (Register.ofBytes (if p = 0 then fun j => lut.byte (st.lutCursor + j)
      else fun j => lut.byte (st.lutCursor + 16 * groups + j))).shuffle index =
        Register.ofBytes (scanByte packedCodes lut groups p h n) := by
    rw [Register.shuffle_nibbles _ below]
    congr 1
    funext j
    rw [nibble j, scanByte, lutCursor]
    split <;> simp [Nat.add_assoc]
  rw [selected]
  exact (sums p h).accumulate _

/-- The steps of a whole scan, inside both buffers. -/
theorem scan_sums {groups n : ℕ} (codesInside : 16 * groups * n ≤ packedCodes.size)
    (lutInside : 32 * groups * n ≤ lut.size) :
    ∃ st, forRange (fun _ => accumulateStep packedCodes lut groups) n .init = some st ∧
      Scanned packedCodes lut groups n st := by
  refine forRange_spec (fun i st => Scanned packedCodes lut groups i st) (.init groups) ?_
  intro i st below scanned
  have codes : 16 * groups * (i + 1) ≤ 16 * groups * n := Nat.mul_le_mul_left _ below
  have table : 32 * groups * (i + 1) ≤ 32 * groups * n := Nat.mul_le_mul_left _ below
  exact scanned.step (codes.trans codesInside) (table.trans lutInside)

end Scan

/-! ## Every branch takes the same steps -/

section Steps

variable (packedCodes lut : Buffer) {dim : ℕ}

theorem accumulateBlock_avx512 (whole : 16 ∣ dim) : accumulateBlock packedCodes lut .avx512 dim =
    (forRange (fun _ => accumulateStep packedCodes lut 4) (dim / 16) .init).map
      fun st => storeAccumulators512 st.accu := by
  simp only [accumulateBlock, accumulateBlockAvx512Chunked, accumulateBlockAvx512Generic,
    accumulateStep16Avx512, forRange_mul, reduceIte, Nat.reduceEqDiff]
  split_ifs
  · rw [show dim / 64 * 4 = dim / 16 by omega]
  · rw [show dim / 32 * 2 = dim / 16 by omega]
  · rw [show (dim / 4 + 3) / 4 = dim / 16 by omega]

theorem accumulateBlock_avx2 (whole : 8 ∣ dim) : accumulateBlock packedCodes lut .avx2 dim =
    (forRange (fun _ => accumulateStep packedCodes lut 2) (dim / 8) .init).map
      fun st => storeAccumulators256 st.accu := by
  simp only [accumulateBlock, accumulateBlockAvx2Chunked, accumulateBlockAvx2Generic,
    accumulateStep8Avx2, forRange_mul, reduceIte, Nat.reduceEqDiff]
  split_ifs
  · rw [show dim / 64 * 8 = dim / 8 by omega]
  · rw [show dim / 32 * 4 = dim / 8 by omega]
  · rw [show (dim / 4 + 1) / 2 = dim / 8 by omega]

end Steps

/-! ## The lanes of a block -/

section Lanes

variable {q : QuantQuery} {dim : ℕ} {codes : List RaBitQCode} {packedCodes lut : Buffer}

/-- A buffer with every pair of groups of a block. -/
def HoldsCodes (dim : ℕ) (codes : List RaBitQCode) (packedCodes : Buffer) : Prop :=
  ∀ i < (dim / 4 + 1) / 2, ∀ j < 32, packedCodes.byte (32 * i + j) = pairByte dim codes i j

/-- What group `g` adds to vector `v` in a plane. -/
def groupByte (q : QuantQuery) (dim : ℕ) (codes : List RaBitQCode) (p v g : ℕ) : ℕ :=
  planeByte p (lutEntry q.value g (codeNibble dim codes v g))

/-- The bytes of group `g` in half `h` are those of the vectors its order gives. -/
theorem packed_nibble (holds : HoldsCodes dim codes packedCodes) (whole : 8 ∣ dim) {g j h : ℕ}
    (group : g < dim / 4) (lane : j < 16) (half : h < 2) :
    nibbleHalf h (packedCodes.byte (16 * g + j)).toNat =
      codeNibble dim codes (kPerm j + 16 * h) g := by
  have place : 16 * g + j = 32 * (g / 2) + (g % 2 * 16 + j) := by omega
  have low := @codeNibble_lt dim codes (kPerm j) g (by omega)
  have high := @codeNibble_lt dim codes (kPerm j + 16) g (by omega)
  rw [place, holds (g / 2) (by omega) _ (by omega), pairByte_eq (by omega) lane]
  obtain rfl | rfl : h = 0 ∨ h = 1 := by omega
  · simp only [nibbleHalf, if_true, Nat.mul_zero, Nat.add_zero]
    omega
  · simp only [nibbleHalf, one_ne_zero, if_false, Nat.mul_one]
    omega

/-- A selected byte is its group's byte for its vector. -/
theorem scanByte_group {build : Build} (holdsLut : HoldsGroups build q dim (dim / 4) lut)
    (holdsCodes : HoldsCodes dim codes packedCodes) (whole : 8 ∣ dim) {p h k l i : ℕ}
    (plane : p < 2) (half : h < 2) (inStep : l < kFastScanLutPerIter build) (lane : i < 16)
    (group : kFastScanLutPerIter build * k + l < dim / 4) :
    (scanByte packedCodes lut (kFastScanLutPerIter build) p h k (16 * l + i)).toNat =
      groupByte q dim codes p (kPerm i + 16 * h) (kFastScanLutPerIter build * k + l) := by
  have nibble := packed_nibble holdsCodes whole group lane half
  have below := @codeNibble_lt dim codes (kPerm i + 16 * h) (kFastScanLutPerIter build * k + l)
    (by omega)
  have codeAddress : 16 * kFastScanLutPerIter build * k + (16 * l + i) =
      16 * (kFastScanLutPerIter build * k + l) + i := by
    rw [Nat.mul_assoc]
    omega
  have lutAddress : ∀ n, 32 * kFastScanLutPerIter build * k +
      (if p = 0 then 0 else 16 * kFastScanLutPerIter build) + (16 * ((16 * l + i) / 16) + n) =
        lutGroupWriteBase build (kFastScanLutPerIter build * k + l) +
          p * kFastScanHiOffset build + n := by
    intro n
    obtain rfl | rfl : p = 0 ∨ p = 1 := by omega
    all_goals
      cases build <;>
        simp only [lutGroupWriteBase, kFastScanLutPerIter, kFastScanCodePerIter,
          kFastScanCodePerLane, kFastScanHiOffset, if_true, one_ne_zero, if_false] at inStep ⊢ <;>
        omega
  rw [scanByte, codeAddress, nibble, lutAddress, holdsLut.bytes _ group p plane _ below, groupByte]

/-- `kPerm` undoes the order in which the lanes come out. -/
theorem kPerm_lanePos : ∀ v < 32, kPerm (BytePairs.lanePos (v % 16)) + 16 * (v / 16) = v := by
  decide

/-- The sum of a plane over all groups. -/
def planeSum (q : QuantQuery) (dim : ℕ) (codes : List RaBitQCode) (p v : ℕ) : ℕ :=
  ∑ g ∈ Finset.range (dim / 4), groupByte q dim codes p v g

/-- The sum of a plane over the groups of one parity. -/
def paritySum (q : QuantQuery) (dim : ℕ) (codes : List RaBitQCode) (p v r : ℕ) : ℕ :=
  ∑ g ∈ Finset.range (dim / 8), groupByte q dim codes p v (2 * g + r)

theorem sum_range_pairs (f : ℕ → ℕ) (n : ℕ) :
    ∑ k ∈ Finset.range n, f (2 * k) + ∑ k ∈ Finset.range n, f (2 * k + 1) =
      ∑ g ∈ Finset.range (2 * n), f g := by
  induction n with
  | zero => rfl
  | succ n ih =>
      rw [Nat.mul_succ, Finset.sum_range_succ, Finset.sum_range_succ _ (2 * n + 1),
        Finset.sum_range_succ _ (2 * n), Finset.sum_range_succ _ n, ← ih]
      omega

theorem paritySum_add (whole : 8 ∣ dim) (p v : ℕ) :
    paritySum q dim codes p v 0 + paritySum q dim codes p v 1 = planeSum q dim codes p v := by
  rw [planeSum, show dim / 4 = 2 * (dim / 8) by omega, ← sum_range_pairs]
  rfl

/-- The two planes put together. -/
theorem planes_toNat {low high : UInt32} (lowFits : low.toNat < 2 ^ 17) (highFits : high.toNat < 2 ^ 17) :
    (low + high <<< 8).toNat = low.toNat + 256 * high.toNat := by
  rw [UInt32.toNat_add, UInt32.toNat_shiftLeft]
  simp only [UInt32.reduceToNat, Nat.reduceMod, Nat.shiftLeft_eq, Nat.reducePow]
  omega

/-- Widened 16-bit lanes add without wrapping. -/
theorem widened_add (a b : UInt16) : (a.toUInt32 + b.toUInt32).toNat = a.toNat + b.toNat := by
  have := a.toNat_lt
  have := b.toNat_lt
  rw [UInt32.toNat_add, UInt16.toNat_toUInt32, UInt16.toNat_toUInt32]
  omega

/-- The selected bytes of one group of each step, summed over the steps. -/
theorem scan_lane_sum {build : Build} (holdsLut : HoldsGroups build q dim (dim / 4) lut)
    (holdsCodes : HoldsCodes dim codes packedCodes) (whole : 8 ∣ dim) {p v l n : ℕ}
    (plane : p < 2) (lane : v < 32) (inStep : l < kFastScanLutPerIter build)
    (steps : kFastScanLutPerIter build * n ≤ dim / 4) :
    ∑ k ∈ Finset.range n, (scanByte packedCodes lut (kFastScanLutPerIter build) p (v / 16) k
        (BytePairs.lanePos (v % 16) + 16 * l)).toNat =
      ∑ k ∈ Finset.range n, groupByte q dim codes p v (kFastScanLutPerIter build * k + l) := by
  refine Finset.sum_congr rfl fun k inRange => ?_
  have position : BytePairs.lanePos (v % 16) < 16 := by
    unfold BytePairs.lanePos
    split <;> omega
  have group : kFastScanLutPerIter build * k + l < dim / 4 := by
    have : kFastScanLutPerIter build * (k + 1) ≤ kFastScanLutPerIter build * n :=
      Nat.mul_le_mul_left _ (Finset.mem_range.1 inRange)
    rw [Nat.mul_succ] at this
    omega
  rw [Nat.add_comm, scanByte_group holdsLut holdsCodes whole plane (by omega) inStep position group,
    kPerm_lanePos v lane]

/-- **The AVX2 kernel** adds each plane over all groups in 16 bits. -/
theorem accumulateBlock_avx2_lanes (holdsLut : HoldsGroups .avx2 q dim (dim / 4) lut)
    (holdsCodes : HoldsCodes dim codes packedCodes) (codesSize : packedCodes.size = 4 * dim)
    (whole : 8 ∣ dim) :
    ∃ raw, accumulateBlock packedCodes lut .avx2 dim = some raw ∧ ∀ v < 32, (raw v).toNat =
      planeSum q dim codes 0 v % 2 ^ 16 + 256 * (planeSum q dim codes 1 v % 2 ^ 16) := by
  obtain ⟨st, run, -, -, sums⟩ := @scan_sums packedCodes lut 2 (dim / 8) (by omega)
    (by rw [holdsLut.size]; omega)
  rw [accumulateBlock_avx2 packedCodes lut whole, run]
  refine ⟨_, rfl, fun v lane => ?_⟩
  have plane : ∀ p < 2, ((st.accu p (v / 16)).low.permuteHalves (st.accu p (v / 16)).high (v % 16) +
      (st.accu p (v / 16)).low.blendHalves (st.accu p (v / 16)).high (v % 16)).toNat =
        planeSum q dim codes p v % 2 ^ 16 := by
    intro p plane
    have even := scan_lane_sum holdsLut holdsCodes whole plane lane (l := 0) (n := dim / 8)
      (by decide) (by simp only [kFastScanLutPerIter]; omega)
    have odd := scan_lane_sum holdsLut holdsCodes whole plane lane (l := 1) (n := dim / 8)
      (by decide) (by simp only [kFastScanLutPerIter]; omega)
    simp only [kFastScanLutPerIter, Nat.mul_zero, Nat.mul_one, Nat.add_zero] at even odd
    rw [(sums p (v / 16)).lanes_add, even, odd, planeSum, show dim / 4 = 2 * (dim / 8) by omega,
      ← sum_range_pairs]
  unfold storeAccumulators256
  dsimp only
  rw [planes_toNat, UInt16.toNat_toUInt32, UInt16.toNat_toUInt32, plane 0 (by decide),
    plane 1 (by decide)]
  · rw [UInt16.toNat_toUInt32]
    exact (UInt16.toNat_lt _).trans (by decide)
  · rw [UInt16.toNat_toUInt32]
    exact (UInt16.toNat_lt _).trans (by decide)

/-- **The AVX-512 kernel** adds the even and the odd groups of each plane in 16 bits. -/
theorem accumulateBlock_avx512_lanes (holdsLut : HoldsGroups .avx512 q dim (dim / 4) lut)
    (holdsCodes : HoldsCodes dim codes packedCodes) (codesSize : packedCodes.size = 4 * dim)
    (whole : 16 ∣ dim) :
    ∃ raw, accumulateBlock packedCodes lut .avx512 dim = some raw ∧ ∀ v < 32, (raw v).toNat =
      (paritySum q dim codes 0 v 0 % 2 ^ 16 + paritySum q dim codes 0 v 1 % 2 ^ 16) +
        256 * (paritySum q dim codes 1 v 0 % 2 ^ 16 + paritySum q dim codes 1 v 1 % 2 ^ 16) := by
  obtain ⟨st, run, -, -, sums⟩ := @scan_sums packedCodes lut 4 (dim / 16) (by omega)
    (by rw [holdsLut.size]; omega)
  rw [accumulateBlock_avx512 packedCodes lut whole, run]
  refine ⟨_, rfl, fun v lane => ?_⟩
  have whole' : 8 ∣ dim := Dvd.dvd.trans (by decide) whole
  have plane : ∀ p < 2,
      ((st.accu p (v / 16)).fold.low.permuteHalves (st.accu p (v / 16)).fold.high (v % 16)).toNat +
      ((st.accu p (v / 16)).fold.low.blendHalves (st.accu p (v / 16)).fold.high (v % 16)).toNat =
        paritySum q dim codes p v 0 % 2 ^ 16 + paritySum q dim codes p v 1 % 2 ^ 16 := by
    intro p plane
    -- a register holds four groups; folding joins those of one parity
    have parity : ∀ r < 2,
        (∑ k ∈ Finset.range (dim / 16), (scanByte packedCodes lut 4 p (v / 16) k
          (BytePairs.lanePos (v % 16) + 16 * r)).toNat) +
        (∑ k ∈ Finset.range (dim / 16), (scanByte packedCodes lut 4 p (v / 16) k
          (BytePairs.lanePos (v % 16) + 16 * (r + 2))).toNat) = paritySum q dim codes p v r := by
      intro r side
      have first := scan_lane_sum holdsLut holdsCodes whole' plane lane (l := r) (n := dim / 16)
        (by simp only [kFastScanLutPerIter]; omega) (by simp only [kFastScanLutPerIter]; omega)
      have second := scan_lane_sum holdsLut holdsCodes whole' plane lane (l := r + 2) (n := dim / 16)
        (by simp only [kFastScanLutPerIter]; omega) (by simp only [kFastScanLutPerIter]; omega)
      simp only [kFastScanLutPerIter] at first second
      rw [first, second, paritySum, show dim / 8 = 2 * (dim / 16) by omega, ← sum_range_pairs]
      congr 1
      · exact Finset.sum_congr rfl fun k _ => by rw [show 2 * (2 * k) + r = 4 * k + r by omega]
      · exact Finset.sum_congr rfl fun k _ => by
          rw [show 2 * (2 * k + 1) + r = 4 * k + (r + 2) by omega]
    have even := parity 0 (by decide)
    have odd := parity 1 (by decide)
    simp only [Nat.mul_zero, Nat.mul_one, Nat.add_zero, Nat.zero_add, Nat.reduceAdd, Nat.reduceMul]
      at even odd
    rw [((sums p (v / 16)).fold).lanes_toNat, even, Nat.add_assoc, odd]
  unfold storeAccumulators512
  dsimp only
  rw [planes_toNat, widened_add, widened_add, plane 0 (by decide), plane 1 (by decide)]
  · rw [widened_add, plane 0 (by decide)]
    omega
  · rw [widened_add, plane 1 (by decide)]
    omega

end Lanes

end VecFetch.Simd
