/-
# Rabitq.Estimator -- preparing a query, plain or rotated before

`PrepareQueryInto` subtracts, normalises and rotates; `PrepareQueryRotatedInto` subtracts what
is rotated already and normalises while it takes the signs.  Both end in the table of the fused
quantiser.  `EstimateDistanceRaw` compares the signs with a code.

Arithmetic is exact.  A result of `none` is a store or a load outside a buffer, a conversion
without a value, a loop that does not end, or the quotient `0 / 0`.
-/
import VecFetch.Rabitq.RotationSound
import VecFetch.Simd.PrepareQuery

namespace VecFetch.Rabitq.Estimator

open VecFetch.Theory VecFetch.Simd

set_option autoImplicit false

structure RaBitQEstimator where
  dim : UInt32
  bits : UInt8

/-- `words_per_plane_`, in 32 bits. -/
def RaBitQEstimator.wordsPerPlane (est : RaBitQEstimator) : UInt32 := (est.dim + 63) / 64

structure PreparedQuery (K : Type) where
  rotated : ℕ → K
  signCode : List UInt64
  normQc : K
  normQcSq : K
  sumQ : K
  dim : UInt32
  numWords : UInt32
  bits : UInt8
  fsWidth : K
  fsShift : ℤ
  /-- The table behind `lut_aligned`. -/
  lutAligned : Buffer

/-- A query that nothing was prepared for. -/
def blankQuery (K : Type) [Zero K] : PreparedQuery K where
  rotated _ := 0
  signCode := []
  normQc := 0
  normQcSq := 0
  sumQ := 0
  dim := 0
  numWords := 0
  bits := 1
  fsWidth := 0
  fsShift := 0
  lutAligned := Buffer.zeros 0

/-- What a call reads of the scratch: the storage of the table, and where the first aligned
byte is in storage of a size. -/
structure ClusterPreparedScratch where
  fastscanLut : Buffer
  skew : ℕ → ℕ

/-- `sign_code.resize(n)`. -/
def resizeWords (words : List UInt64) (n : ℕ) : List UInt64 :=
  words.take n ++ List.replicate (n - words.length) 0

/-- `fastscan_lut.resize(n)`. -/
def resizeBytes (b : Buffer) (n : ℕ) : Buffer := ⟨n, fun i => if i < b.size then b.byte i else 0⟩

/-- The storage from `lut_aligned` on. -/
def ClusterPreparedScratch.lutAligned (scratch : ClusterPreparedScratch) (size : ℕ) : Buffer :=
  let raw := resizeBytes scratch.fastscanLut size
  ⟨raw.size - scratch.skew size, fun i => raw.byte (scratch.skew size + i)⟩

section Prepare

variable {K : Type} [Field K] [LinearOrder K] (build : Build)

/-- The first fields, and `EnsurePrepareBuffers`; `rotated` is written before it is read. -/
def ensurePrepareBuffers (est : RaBitQEstimator) (pq : PreparedQuery K) : PreparedQuery K :=
  { pq with
    dim := est.dim
    numWords := est.wordsPerPlane
    bits := est.bits
    signCode := resizeWords pq.signCode est.wordsPerPlane.toNat }

/-- `SimdNormalizeSignSumMaxAbs` on `rotated`; gives `max_abs` too. -/
def normalizeSigns (est : RaBitQEstimator) (pq : PreparedQuery K) (invNorm : K) :
    Option (PreparedQuery K × K) :=
  (simdNormalizeSignSumMaxAbs build pq.rotated invNorm pq.signCode est.wordsPerPlane est.dim).map
    fun out =>
      ({ pq with rotated := out.vec, signCode := out.words, sumQ := out.sum }, out.maxAbs)

/-- `PrepareQueryInto` as far as the signs. -/
def prepareSigns (arith : ExactArith K) (est : RaBitQEstimator) (query : ℕ → K)
    (centroid : Option (ℕ → K)) (rotation : RotationMatrix K) (pq : PreparedQuery K) :
    Option (PreparedQuery K × K) :=
  let pq := ensurePrepareBuffers est pq
  (simdSubtractAndNormSq build query centroid est.dim).bind fun (residual, normQcSq) =>
    let normQc := arith.sqrt normQcSq
    let residual :=
      if lit 1e-30 < normQc then scaleBy est.dim.toNat (fun _ => 1 / normQc) residual else residual
    let rotated :=
      copyOf est.dim.toNat (rotation.apply (decide (build = .avx512)) arith residual)
    normalizeSigns build est
      { pq with normQcSq := normQcSq, normQc := normQc, rotated := rotated } 1

/-- `PrepareQueryRotatedInto` as far as the signs. -/
def prepareSignsRotated (arith : ExactArith K) (est : RaBitQEstimator)
    (rotatedQ rotatedCentroid : ℕ → K) (pq : PreparedQuery K) : Option (PreparedQuery K × K) :=
  let pq := ensurePrepareBuffers est pq
  (simdSubtractAndNormSq build rotatedQ (some rotatedCentroid) est.dim).bind
    fun (diff, normQcSq) =>
      let normQc := arith.sqrt normQcSq
      let invNorm := if lit 1e-30 < normQc then 1 / normQc else 1
      normalizeSigns build est
        { pq with normQcSq := normQcSq, normQc := normQc, rotated := diff } invNorm

/-- `PrepareFastScanQuery`. -/
def prepareFastScanQuery [FloorRing K] (est : RaBitQEstimator) (pq : PreparedQuery K) (maxAbs : K)
    (scratch : ClusterPreparedScratch) : Option (PreparedQuery K) :=
  (FusedLut.quantizeQuery14BitWithMaxToFastScanLUT pq.rotated build maxAbs est.dim
    (scratch.lutAligned (est.dim.toNat * 8 + 63))).map fun (width, lut, shift) =>
      { pq with fsWidth := width, fsShift := shift, lutAligned := lut }

/-- `PrepareQueryInto`. -/
def prepareQueryInto [FloorRing K] (arith : ExactArith K) (est : RaBitQEstimator) (query : ℕ → K)
    (centroid : Option (ℕ → K)) (rotation : RotationMatrix K) (pq : PreparedQuery K)
    (scratch : ClusterPreparedScratch) : Option (PreparedQuery K) :=
  (prepareSigns build arith est query centroid rotation pq).bind fun (pq, maxAbs) =>
    prepareFastScanQuery build est pq maxAbs scratch

/-- `PrepareQueryRotatedInto`. -/
def prepareQueryRotatedInto [FloorRing K] (arith : ExactArith K) (est : RaBitQEstimator)
    (rotatedQ rotatedCentroid : ℕ → K) (pq : PreparedQuery K) (scratch : ClusterPreparedScratch) :
    Option (PreparedQuery K) :=
  (prepareSignsRotated build arith est rotatedQ rotatedCentroid pq).bind fun (pq, maxAbs) =>
    prepareFastScanQuery build est pq maxAbs scratch

/-- `rotated_centroids.bin`: the builder's `Apply` of each row. -/
def rotatedCentroids (arith : ExactArith K) (rotation : RotationMatrix K) (dim : ℕ)
    (centroids : ℕ → K) : ℕ → K :=
  fillMatrix dim fun k => rotation.apply (decide (build = .avx512)) arith (rowOf dim centroids k)

/-- `EstimateDistanceRaw`. -/
def estimateDistanceRaw (est : RaBitQEstimator) (pq : PreparedQuery K) (codeWords : List UInt64)
    (numWords : UInt32) (normOc : K) : Option K :=
  if numWords.toNat ≤ pq.signCode.length ∧ numWords.toNat ≤ codeWords.length ∧ est.dim ≠ 0 then
    let hamming := popcountXor (fun w => pq.signCode.getD w 0) (fun w => codeWords.getD w 0)
      numWords.toNat build
    let ipEst := 1 - lit 2 * (hamming.toNat : K) / (est.dim.toNat : K)
    let distSq := normOc * normOc + pq.normQcSq - lit 2 * normOc * pq.normQc * ipEst
    some (stdMax distSq 0)
  else none

end Prepare

/-! ## The words -/

@[simp] theorem resizeWords_length (words : List UInt64) (n : ℕ) :
    (resizeWords words n).length = n := by
  rw [resizeWords, List.length_append, List.length_take, List.length_replicate]
  omega

theorem wordsPerPlane_toNat {est : RaBitQEstimator} (ends : est.dim.toNat + 63 < 2 ^ 32) :
    est.wordsPerPlane.toNat = (est.dim.toNat + 63) / 64 := by
  rw [RaBitQEstimator.wordsPerPlane, UInt32.toNat_div, UInt32.toNat_add,
    show UInt32.toNat 63 = 63 from rfl, show UInt32.toNat 64 = 64 from rfl,
    Nat.mod_eq_of_lt ends]

theorem wordsPerPlane_wraps {est : RaBitQEstimator} (wraps : 2 ^ 32 ≤ est.dim.toNat + 63) :
    est.wordsPerPlane = 0 := by
  have below := est.dim.toNat_lt
  rw [← UInt32.toNat_inj, RaBitQEstimator.wordsPerPlane, UInt32.toNat_div, UInt32.toNat_add,
    show UInt32.toNat 63 = 63 from rfl, show UInt32.toNat 64 = 64 from rfl,
    show UInt32.toNat 0 = 0 from rfl]
  omega

end VecFetch.Rabitq.Estimator
