/-
# Simd.PrefixSum -- exclusive prefix sums and 8 x N transposes

Both builds of `ExclusivePrefixSum` give the running sums of the input
(`exclusivePrefixSum_eq`).  Several streams are summed side by side: transposed to one
row of eight lanes for each index, summed row by row, and transposed back
(`streamPrefixSums_eq`).
-/
import VecFetch.Simd.FastScanLut

namespace VecFetch.Simd

set_option autoImplicit false

/-! ## Running sums -/

/-- `ExclusivePrefixSumScalar`: the sum of the first `i` values. -/
def prefixSum (v : ℕ → UInt32) : ℕ → UInt32
  | 0 => 0
  | i + 1 => prefixSum v i + v i

theorem prefixSum_congr {v w : ℕ → UInt32} {n : ℕ} (same : ∀ i, i < n → v i = w i) :
    prefixSum v n = prefixSum w n := by
  induction n with
  | zero => rfl
  | succ n ih => rw [prefixSum, prefixSum, ih fun i below => same i (by omega), same n (by omega)]

theorem prefixSum_add (v : ℕ → UInt32) (m n : ℕ) :
    prefixSum v (m + n) = prefixSum v m + prefixSum (fun i => v (m + i)) n := by
  induction n with
  | zero => simp [prefixSum]
  | succ n ih => rw [← Nat.add_assoc, prefixSum, ih, prefixSum, UInt32.add_assoc]

/-! ## Eight lanes -/

/-- A 256-bit register of eight 32-bit lanes. -/
abbrev Lanes8 := ℕ → UInt32

namespace Lanes8

def add (a b : Lanes8) : Lanes8 := fun i => a i + b i

/-- `_mm256_slli_si256(v, 4 * n)`: up by `n` lanes inside each half. -/
def shiftUp (n : ℕ) (v : Lanes8) : Lanes8 := fun i => if i % 4 < n then 0 else v (i - n)

/-- `_mm_alignr_epi8(a, b, 12)` on halves: the last lane of `b` before the first three of
`a`. -/
def alignLast (a b : Lanes8) : Lanes8 := fun i => if i = 0 then b 3 else a (i - 1)

/-- `_mm256_extracti128_si256(v, 1)`. -/
def high (v : Lanes8) : Lanes8 := fun i => v (i + 4)

/-- Inside each half, `a` and `b` by turns from lane `first` on. -/
def unpack32 (first : ℕ) (a b : Lanes8) : Lanes8 := fun i =>
  (if i % 2 = 0 then a else b) (4 * (i / 4) + first + i % 4 / 2)

/-- `_mm256_unpacklo_epi32`. -/
def unpacklo32 : Lanes8 → Lanes8 → Lanes8 := unpack32 0

/-- `_mm256_unpackhi_epi32`. -/
def unpackhi32 : Lanes8 → Lanes8 → Lanes8 := unpack32 2

/-- Inside each half, two lanes of `a` and two of `b` from lane `first` on. -/
def unpack64 (first : ℕ) (a b : Lanes8) : Lanes8 := fun i =>
  (if i % 4 < 2 then a else b) (4 * (i / 4) + first + i % 2)

/-- `_mm256_unpacklo_epi64`. -/
def unpacklo64 : Lanes8 → Lanes8 → Lanes8 := unpack64 0

/-- `_mm256_unpackhi_epi64`. -/
def unpackhi64 : Lanes8 → Lanes8 → Lanes8 := unpack64 2

/-- `_mm256_permute2x128_si256(a, b, 0x20)`: the low halves. -/
def lowHalves (a b : Lanes8) : Lanes8 := fun i => if i < 4 then a i else b (i - 4)

/-- `_mm256_permute2x128_si256(a, b, 0x31)`: the high halves. -/
def highHalves (a b : Lanes8) : Lanes8 := fun i => if i < 4 then a (i + 4) else b i

end Lanes8

open Lanes8

/-! ## One stream -/

/-- `IncPrefixSum8`. -/
def incPrefixSum8 (v : Lanes8) : Lanes8 :=
  let v₁ := v.add (v.shiftUp 1)
  let v₂ := v₁.add (v₁.shiftUp 2)
  fun i => if i < 4 then v₂ i else v₂.high (i - 4) + v₂ 3

/-- `IncToExcl8`. -/
def incToExcl8 (inc : Lanes8) (runningSum : UInt32) : Lanes8 := fun i =>
  if i < 4 then alignLast inc (fun _ => 0) i + runningSum
  else alignLast inc.high inc (i - 4) + runningSum

/-- The carry of `ExclusivePrefixSumAVX2` into block `b`. -/
def runningSumAvx2 (v : ℕ → UInt32) : ℕ → UInt32
  | 0 => 0
  | b + 1 => runningSumAvx2 v b + incPrefixSum8 (fun i => v (8 * b + i)) 7

/-- Value `i` of `ExclusivePrefixSumAVX2`: blocks of eight, then one by one. -/
def exclusivePrefixSumAvx2 (v : ℕ → UInt32) (count i : ℕ) : UInt32 :=
  let blocks := count / 8
  if i < 8 * blocks then
    incToExcl8 (incPrefixSum8 fun j => v (8 * (i / 8) + j)) (runningSumAvx2 v (i / 8)) (i % 8)
  else runningSumAvx2 v blocks + prefixSum (fun j => v (8 * blocks + j)) (i - 8 * blocks)

/-- `ExclusivePrefixSum`. -/
def exclusivePrefixSum (build : Build) (v : ℕ → UInt32) (count i : ℕ) : UInt32 :=
  match build with
  | .scalar => prefixSum v i
  | _ => exclusivePrefixSumAvx2 v count i

theorem incPrefixSum8_eq (v : Lanes8) {i : ℕ} (lane : i < 8) :
    incPrefixSum8 v i = prefixSum v (i + 1) := by
  interval_cases i <;>
    simp [incPrefixSum8, add, shiftUp, high, prefixSum, UInt32.add_assoc] <;> ac_rfl

theorem incToExcl8_eq (v : Lanes8) (runningSum : UInt32) {i : ℕ} (lane : i < 8) :
    incToExcl8 (incPrefixSum8 v) runningSum i = runningSum + prefixSum v i := by
  unfold incToExcl8 alignLast high
  by_cases first : i = 0
  · subst first
    simp [prefixSum]
  · have before : incPrefixSum8 v (i - 1) = prefixSum v i := by
      rw [incPrefixSum8_eq v (by omega), show i - 1 + 1 = i by omega]
    by_cases low : i < 4
    · rw [if_pos low, if_neg first, before, UInt32.add_comm]
    · rw [if_neg low]
      by_cases middle : i - 4 = 0
      · rw [if_pos middle, show (3 : ℕ) = i - 1 by omega, before, UInt32.add_comm]
      · rw [if_neg middle, show i - 4 - 1 + 4 = i - 1 by omega, before, UInt32.add_comm]

theorem runningSumAvx2_eq (v : ℕ → UInt32) (b : ℕ) : runningSumAvx2 v b = prefixSum v (8 * b) := by
  induction b with
  | zero => rfl
  | succ b ih =>
      rw [runningSumAvx2, ih, incPrefixSum8_eq _ (by omega), Nat.mul_succ,
        prefixSum_add v (8 * b) 8]

/-- **Both builds give the running sums.** -/
theorem exclusivePrefixSum_eq (build : Build) (v : ℕ → UInt32) (count i : ℕ) :
    exclusivePrefixSum build v count i = prefixSum v i := by
  have avx2 : exclusivePrefixSumAvx2 v count i = prefixSum v i := by
    unfold exclusivePrefixSumAvx2
    dsimp only
    by_cases whole : i < 8 * (count / 8)
    · rw [if_pos whole, incToExcl8_eq _ _ (by omega), runningSumAvx2_eq, ← prefixSum_add,
        show 8 * (i / 8) + i % 8 = i by omega]
    · rw [if_neg whole, runningSumAvx2_eq, ← prefixSum_add,
        show 8 * (count / 8) + (i - 8 * (count / 8)) = i by omega]
  cases build with
  | scalar => rfl
  | avx2 => exact avx2
  | avx512 => exact avx2

/-! ## Transposes -/

/-- `Transpose8x8AVX2`. -/
def transpose8x8 (r : ℕ → Lanes8) : ℕ → Lanes8 :=
  let t := fun k =>
    if k % 2 = 0 then unpacklo32 (r (2 * (k / 2))) (r (2 * (k / 2) + 1))
    else unpackhi32 (r (2 * (k / 2))) (r (2 * (k / 2) + 1))
  let u := fun k =>
    -- `u0, u1` from `t0, t2`, `u2, u3` from `t1, t3`, and so again from `t4` on
    let a := 4 * (k / 4) + k % 4 / 2
    if k % 2 = 0 then unpacklo64 (t a) (t (a + 2)) else unpackhi64 (t a) (t (a + 2))
  fun k => if k < 4 then lowHalves (u k) (u (k + 4)) else highHalves (u (k - 4)) (u k)

theorem transpose8x8_eq (r : ℕ → Lanes8) {i j : ℕ} (row : i < 8) (lane : j < 8) :
    transpose8x8 r i j = r j i := by
  interval_cases i <;> interval_cases j <;> rfl

/-- `Transpose8xN`: word `8 * j + k` is value `j` of stream `k`, or zero past the
streams. -/
def transpose8xN (build : Build) (streams : ℕ → ℕ → UInt32) (numStreams count m : ℕ) : UInt32 :=
  let j := m / 8
  let k := m % 8
  let scalar := if k < numStreams then streams k j else 0
  match build with
  | .scalar => scalar
  | _ =>
      if j < 8 * (count / 8) then
        transpose8x8 (fun k => if k < numStreams then fun i => streams k (8 * (j / 8) + i)
          else fun _ => 0) (j % 8) k
      else scalar

/-- `TransposeNx8`: value `j` of stream `k` is word `8 * j + k`. -/
def transposeNx8 (build : Build) (interleaved : ℕ → UInt32) (count k j : ℕ) : UInt32 :=
  match build with
  | .scalar => interleaved (8 * j + k)
  | _ =>
      if j < 8 * (count / 8) then
        transpose8x8 (fun i => fun lane => interleaved (8 * (8 * (j / 8) + i) + lane)) k (j % 8)
      else interleaved (8 * j + k)

theorem transpose8xN_eq (build : Build) (streams : ℕ → ℕ → UInt32) {numStreams count j k : ℕ}
    (lane : k < 8) : transpose8xN build streams numStreams count (8 * j + k) =
      if k < numStreams then streams k j else 0 := by
  have row : (8 * j + k) / 8 = j := by omega
  have column : (8 * j + k) % 8 = k := by omega
  unfold transpose8xN
  dsimp only
  rw [row, column]
  have blocks : 8 * (j / 8) + j % 8 = j := by omega
  cases build with
  | scalar => rfl
  | avx2 =>
      by_cases whole : j < 8 * (count / 8)
      · simp only [whole, if_true]
        rw [transpose8x8_eq _ (by omega) lane]
        by_cases used : k < numStreams
        · simp only [used, if_true, blocks]
        · simp only [used, if_false]
      · simp only [whole, if_false]
  | avx512 =>
      by_cases whole : j < 8 * (count / 8)
      · simp only [whole, if_true]
        rw [transpose8x8_eq _ (by omega) lane]
        by_cases used : k < numStreams
        · simp only [used, if_true, blocks]
        · simp only [used, if_false]
      · simp only [whole, if_false]

theorem transposeNx8_eq (build : Build) (interleaved : ℕ → UInt32) (count : ℕ) {j k : ℕ}
    (lane : k < 8) : transposeNx8 build interleaved count k j = interleaved (8 * j + k) := by
  have blocks : 8 * (j / 8) + j % 8 = j := by omega
  have simd : (if j < 8 * (count / 8) then
      transpose8x8 (fun i => fun lane => interleaved (8 * (8 * (j / 8) + i) + lane)) k (j % 8)
      else interleaved (8 * j + k)) = interleaved (8 * j + k) := by
    by_cases whole : j < 8 * (count / 8)
    · rw [if_pos whole, transpose8x8_eq _ lane (by omega), blocks]
    · rw [if_neg whole]
  cases build with
  | scalar => rfl
  | avx2 => exact simd
  | avx512 => exact simd

/-! ## Several streams -/

/-- `ExclusivePrefixSumMulti`: the running sums of each lane; the scalar build zeroes the
lanes past the streams. -/
def exclusivePrefixSumMulti (build : Build) (interleaved : ℕ → UInt32) (numStreams m : ℕ) :
    UInt32 :=
  let sum := prefixSum (fun j => interleaved (8 * j + m % 8)) (m / 8)
  match build with
  | .scalar => if m % 8 < numStreams then sum else 0
  | _ => sum

/-- The prefix sums of `DecodeMultiStream`: transpose, sum the rows, transpose back. -/
def streamPrefixSums (build : Build) (streams : ℕ → ℕ → UInt32) (numStreams count k j : ℕ) :
    UInt32 :=
  transposeNx8 build
    (exclusivePrefixSumMulti build (transpose8xN build streams numStreams count) numStreams)
    count k j

/-- **Each stream gets its own running sums.** -/
theorem streamPrefixSums_eq (build : Build) (streams : ℕ → ℕ → UInt32) {numStreams k : ℕ}
    (count j : ℕ) (used : k < numStreams) (width : numStreams ≤ 8) :
    streamPrefixSums build streams numStreams count k j = prefixSum (streams k) j := by
  have lane : k < 8 := by omega
  have row : (8 * j + k) / 8 = j := by omega
  have column : (8 * j + k) % 8 = k := by omega
  have sum : prefixSum (fun i => transpose8xN build streams numStreams count (8 * i + k)) j =
      prefixSum (streams k) j := by
    refine prefixSum_congr fun i _ => ?_
    rw [transpose8xN_eq build streams lane, if_pos used]
  unfold streamPrefixSums
  rw [transposeNx8_eq _ _ _ lane]
  unfold exclusivePrefixSumMulti
  dsimp only
  rw [row, column, sum]
  cases build with
  | scalar => rw [if_pos used]
  | avx2 => rfl
  | avx512 => rfl

end VecFetch.Simd
