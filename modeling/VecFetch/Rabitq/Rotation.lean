/-
# Rabitq.Rotation -- the rotation of the codebook

A rotation is kept as a dense matrix `P`, row after row, and three of its four kinds can be
applied without it: the Hadamard kind as a transform followed by signs, the blocked kind as a
permutation and then such a transform on each block, the FHT-Kac kind as four rounds of
signs, a transform of a window and a mix of the two halves.

Arithmetic is exact, with the square roots the code takes (`ExactArith`); buffers are
functions on indices, and what the random engine gives is arbitrary (`Rng`).
-/
import VecFetch.Common.FloatArith
import VecFetch.Simd.Hadamard
import VecFetch.Theory.Mask
import Mathlib.Algebra.Order.Field.Basic

namespace VecFetch.Rabitq

open VecFetch.Theory VecFetch.Simd

set_option autoImplicit false

/-- Square roots that are exact. -/
structure ExactArith (K : Type) [Field K] [LinearOrder K] where
  sqrt : K → K
  sqrt_mul_self : ∀ x, 0 ≤ x → sqrt x * sqrt x = x
  /-- `0.7071067811865475f`, the scale of the half mix. -/
  halfRoot : K
  halfRoot_mul_self : halfRoot * halfRoot * 2 = 1

/-- What a seeded engine and its distributions give: coins, normal values and a shuffle. -/
structure Rng (K : Type) where
  coin : ℕ → Bool
  normal : ℕ → K
  shuffle : List UInt32 → List UInt32
  shuffle_perm : ∀ l, (shuffle l).Perm l

inductive RotationKind where
  | randomMatrix
  | hadamard
  | blockedHadamardPermuted
  | fhtKacRotator
  deriving DecidableEq

structure RotationMatrix (K : Type) where
  dim : UInt32
  data : ℕ → K
  kind : RotationKind := .randomMatrix
  useFastHadamard : Bool := false
  diagSigns : List ℤ := []
  blockSizes : List UInt32 := []
  permutation : List UInt32 := []
  fhtKacPaddedDim : UInt32 := 0
  fhtKacTruncDim : UInt32 := 0
  fhtKacNumRounds : ℕ := 0
  fhtKacSigns : List ℤ := []

/-! ## Sizes -/

def isPowerOf2 (n : UInt32) : Bool := decide (0 < n) && (n &&& (n - 1) == 0)

/-- `while ((p << 1) > p && (p << 1) <= value) p <<= 1;`, at most 32 times. -/
def doubleUpTo (value : UInt32) : ℕ → UInt32 → UInt32
  | 0, p => p
  | fuel + 1, p =>
      if p < p <<< 1 ∧ p <<< 1 ≤ value then doubleUpTo value fuel (p <<< 1) else p

def floorPowerOf2 (value : UInt32) : UInt32 := doubleUpTo value 32 1

/-- The loop of `GreedyPowerOf2Blocks`; every block takes something away. -/
def greedyBlocks : ℕ → UInt32 → List UInt32
  | 0, _ => []
  | fuel + 1, remaining =>
      if 0 < remaining then
        floorPowerOf2 remaining :: greedyBlocks fuel (remaining - floorPowerOf2 remaining)
      else []

def greedyPowerOf2Blocks (dim : UInt32) : List UInt32 := greedyBlocks dim.toNat dim

def roundUpToMultiple (value multiple : UInt32) : UInt32 :=
  if multiple = 0 then value
  else
    let rem := value % multiple
    if rem = 0 then value else value + (multiple - rem)

/-! ## Loops over buffers -/

section Buffers

variable {K : Type} [Field K] [LinearOrder K]

/-- `sum += f(k)` over the first `n` indices. -/
def sumTo (n : ℕ) (f : ℕ → K) : K := (List.range n).foldl (fun sum k => sum + f k) 0

/-- `data[i * L + j] = entry(i, j)` in all rows and columns. -/
def fillMatrix (L : ℕ) (entry : ℕ → ℕ → K) : ℕ → K := fun t => entry (t / L) (t % L)

/-- A call on `values + offset`. -/
def atOffset (offset : ℕ) (f : (ℕ → K) → ℕ → K) : (ℕ → K) → ℕ → K :=
  beside offset (fun values => values) f

/-- `values[i] *= factor(i)` for the first `n` indices. -/
def scaleBy (n : ℕ) (factor : ℕ → K) (values : ℕ → K) (i : ℕ) : K :=
  if i < n then values i * factor i else values i

/-- The first `n` entries, in a fresh buffer. -/
def copyOf (n : ℕ) (values : ℕ → K) (i : ℕ) : K := if i < n then values i else 0

end Buffers

/-! ## The fast transforms -/

section Fast

variable {K : Type} [Field K] [LinearOrder K] (avx512 : Bool) (arith : ExactArith K)

/-- `1.0f / std::sqrt(static_cast<float>(n))`. -/
def invSqrt (n : ℕ) : K := 1 / arith.sqrt (n : K)

def applyHadamardDiagonalBlock (signs : ℕ → ℤ) (blockSize : ℕ) (values : ℕ → K) : ℕ → K :=
  scaleBy blockSize (fun i => invSqrt arith blockSize * (signs i : K))
    (fwht avx512 values blockSize)

def applyHadamardDiagonalBlockInverse (signs : ℕ → ℤ) (blockSize : ℕ) (values : ℕ → K) : ℕ → K :=
  scaleBy blockSize (fun _ => invSqrt arith blockSize)
    (fwht avx512 (scaleBy blockSize (fun i => (signs i : K)) values) blockSize)

/-- The loop over the blocks: each is transformed at its offset, with its signs. -/
def forBlocks (f : (ℕ → ℤ) → ℕ → (ℕ → K) → ℕ → K) (signs : ℕ → ℤ) :
    List UInt32 → ℕ → (ℕ → K) → ℕ → K
  | [], _, out => out
  | size :: sizes, offset, out =>
      forBlocks f signs sizes (offset + size.toNat)
        (atOffset offset (f (fun i => signs (offset + i)) size.toNat) out)

def applyBlockedFast (permutation blockSizes : List UInt32) (diagSigns : List ℤ)
    (input : ℕ → K) : ℕ → K :=
  forBlocks (applyHadamardDiagonalBlock avx512 arith) (fun i => diagSigns.getD i 0) blockSizes 0
    (copyOf permutation.length fun i => input (permutation.getD i 0).toNat)

/-- The loop that puts the entries back in their places. -/
def scatter (permutation : List UInt32) (tmp : ℕ → K) : ℕ → K :=
  (List.range permutation.length).foldl
    (fun out i => Function.update out (permutation.getD i 0).toNat (tmp i)) fun _ => 0

def applyBlockedFastInverse (permutation blockSizes : List UInt32) (diagSigns : List ℤ)
    (input : ℕ → K) : ℕ → K :=
  scatter permutation
    (forBlocks (applyHadamardDiagonalBlockInverse avx512 arith) (fun i => diagSigns.getD i 0)
      blockSizes 0 (copyOf permutation.length input))

def applyFhtKacSigns (signs : ℕ → ℤ) (dim : ℕ) (values : ℕ → K) : ℕ → K :=
  scaleBy dim (fun i => (signs i : K)) values

def applyNormalizedFwhtWindow (values : ℕ → K) (start width : ℕ) : ℕ → K :=
  if width = 0 then values
  else
    atOffset start (fun window => scaleBy width (fun _ => invSqrt arith width)
      (fwht avx512 window width)) values

/-- One pair of the half mix. -/
def mixPair (half i : ℕ) (values : ℕ → K) : ℕ → K :=
  Function.update (Function.update values i ((values i + values (i + half)) * arith.halfRoot))
    (i + half) ((values i - values (i + half)) * arith.halfRoot)

def applyNormalizedHalfMix (values : ℕ → K) (dim : ℕ) : ℕ → K :=
  (List.range (dim / 2)).foldl (fun values i => mixPair arith (dim / 2) i values) values

/-- Where the window of a round starts. -/
def windowStart (dim truncDim round : ℕ) : ℕ :=
  if truncDim ≠ dim ∧ round % 2 ≠ 0 then dim - truncDim else 0

def fhtKacRound (signs : List ℤ) (dim truncDim : ℕ) (out : ℕ → K) (round : ℕ) : ℕ → K :=
  applyNormalizedHalfMix arith
    (applyNormalizedFwhtWindow avx512 arith
      (applyFhtKacSigns (fun i => signs.getD (round * dim + i) 0) dim out)
      (windowStart dim truncDim round) truncDim) dim

def fhtKacRoundInverse (signs : List ℤ) (dim truncDim : ℕ) (out : ℕ → K) (idx : ℕ) : ℕ → K :=
  applyFhtKacSigns (fun i => signs.getD (idx * dim + i) 0) dim
    (applyNormalizedFwhtWindow avx512 arith (applyNormalizedHalfMix arith out dim)
      (windowStart dim truncDim idx) truncDim)

def applyFhtKacFast (signs : List ℤ) (dim truncDim numRounds : ℕ) (input : ℕ → K) : ℕ → K :=
  (List.range numRounds).foldl (fhtKacRound avx512 arith signs dim truncDim) (copyOf dim input)

def applyFhtKacFastInverse (signs : List ℤ) (dim truncDim numRounds : ℕ) (input : ℕ → K) :
    ℕ → K :=
  (List.range numRounds).reverse.foldl (fhtKacRoundInverse avx512 arith signs dim truncDim)
    (copyOf dim input)

end Fast

/-! ## Generating -/

section Generate

variable {K : Type} [Field K] [LinearOrder K] (avx512 : Bool) (arith : ExactArith K)

/-- Row `i` of a matrix. -/
def rowOf (L : ℕ) (data : ℕ → K) (i k : ℕ) : K := data (i * L + k)

/-- Writes row `i`. -/
def setRow (L i : ℕ) (row : ℕ → K) (data : ℕ → K) (t : ℕ) : K :=
  if t / L = i then row (t % L) else data t

/-- `row_i -= dot(row_i, row_j) * row_j`. -/
def subtractProjection (L i : ℕ) (data : ℕ → K) (j : ℕ) : ℕ → K :=
  let dot := sumTo L fun k => rowOf L data i k * rowOf L data j k
  setRow L i (fun k => rowOf L data i k - dot * rowOf L data j k) data

/-- Row `i` without its projections on the rows before it. -/
def orthogonalize (L i : ℕ) (data : ℕ → K) : ℕ → K :=
  (List.range i).foldl (subtractProjection L i) data

def rowNorm (L i : ℕ) (data : ℕ → K) : K :=
  arith.sqrt (sumTo L fun k => rowOf L data i k * rowOf L data i k)

/-- The row is left as it is when its norm is not above `1e-10f`. -/
def normalize (L i : ℕ) (data : ℕ → K) : ℕ → K :=
  if lit 1e-10 < rowNorm arith L i data then
    setRow L i (fun k => rowOf L data i k * (1 / rowNorm arith L i data)) data
  else data

/-- The rows below `rows` of the Gram-Schmidt loop. -/
def gramSchmidt (L rows : ℕ) (data : ℕ → K) : ℕ → K :=
  (List.range rows).foldl (fun data i => normalize arith L i (orthogonalize L i data)) data

namespace RotationMatrix

def generateRandom (r : RotationMatrix K) (rng : Rng K) : RotationMatrix K :=
  { dim := r.dim
    data := gramSchmidt arith r.dim.toNat r.dim.toNat rng.normal }

/-- `coin(rng) ? +1 : -1`, `n` times. -/
def randomSigns (rng : Rng K) (n : ℕ) : List ℤ :=
  (List.range n).map fun i => if rng.coin i then 1 else -1

/-- The rotation, and whether the dimension is accepted. -/
def generateHadamard (r : RotationMatrix K) (rng : Rng K) (useFastTransform : Bool) :
    RotationMatrix K × Bool :=
  if isPowerOf2 r.dim then
    let L := r.dim.toNat
    let signs := randomSigns rng L
    ({ dim := r.dim
       data := fillMatrix L fun i j =>
         invSqrt arith L * (if popcount (UInt32.ofNat (i &&& j)) % 2 = 1 then -1 else 1) *
           ((signs.getD j 0 : ℤ) : K)
       kind := .hadamard
       useFastHadamard := useFastTransform
       diagSigns := signs }, true)
  else (r, false)

def generateBlockedHadamardPermuted (r : RotationMatrix K) (rng : Rng K)
    (useFastTransform : Bool) : RotationMatrix K × Bool :=
  if r.dim = 0 then (r, false)
  else
    let blockSizes := greedyPowerOf2Blocks r.dim
    let permutation := rng.shuffle ((List.range r.dim.toNat).map UInt32.ofNat)
    let diagSigns := randomSigns rng r.dim.toNat
    ({ dim := r.dim
       data := fillMatrix r.dim.toNat fun i =>
         applyBlockedFast avx512 arith permutation blockSizes diagSigns
           (Function.update (fun _ => 0) i 1)
       kind := .blockedHadamardPermuted
       useFastHadamard := useFastTransform
       diagSigns := diagSigns
       blockSizes := blockSizes
       permutation := permutation }, true)

def generateFhtKacRotator (r : RotationMatrix K) (rng : Rng K) (useFastTransform : Bool) :
    RotationMatrix K × Bool :=
  if r.dim = 0 then (r, false)
  else
    let r : RotationMatrix K :=
      { dim := r.dim
        data := r.data
        kind := .fhtKacRotator
        useFastHadamard := useFastTransform
        fhtKacPaddedDim := roundUpToMultiple r.dim 64
        fhtKacTruncDim := floorPowerOf2 r.dim
        fhtKacNumRounds := 4
        fhtKacSigns := r.fhtKacSigns }
    if r.fhtKacPaddedDim ≠ r.dim then (r, false)
    else
      let signs := randomSigns rng (r.fhtKacNumRounds * r.dim.toNat)
      ({ r with
          fhtKacSigns := signs
          data := fillMatrix r.dim.toNat fun i =>
            applyFhtKacFast avx512 arith signs r.dim.toNat r.fhtKacTruncDim.toNat
              r.fhtKacNumRounds (Function.update (fun _ => 0) i 1) }, true)

/-! ## Applying -/

/-- The loops of the general path: every row is scattered over the output. -/
def denseApply (r : RotationMatrix K) (input : ℕ → K) : ℕ → K :=
  (List.range r.dim.toNat).foldl (fun out i j =>
    if j < r.dim.toNat then out j + rowOf r.dim.toNat r.data i j * input i else out j) fun _ => 0

def denseApplyInverse (r : RotationMatrix K) (input : ℕ → K) (i : ℕ) : K :=
  if i < r.dim.toNat then sumTo r.dim.toNat fun j => rowOf r.dim.toNat r.data i j * input j else 0

/-- `Apply`: `P^T` times the input. -/
def apply (r : RotationMatrix K) (input : ℕ → K) : ℕ → K :=
  if r.kind = .blockedHadamardPermuted ∧ r.useFastHadamard then
    applyBlockedFast avx512 arith r.permutation r.blockSizes r.diagSigns input
  else if r.kind = .fhtKacRotator ∧ r.useFastHadamard then
    applyFhtKacFast avx512 arith r.fhtKacSigns r.dim.toNat r.fhtKacTruncDim.toNat
      r.fhtKacNumRounds input
  else if r.useFastHadamard then
    scaleBy r.dim.toNat
      (fun i => invSqrt arith r.dim.toNat * ((r.diagSigns.getD i 0 : ℤ) : K))
      (fwht avx512 (copyOf r.dim.toNat input) r.dim.toNat)
  else r.denseApply input

/-- `ApplyInverse`: `P` times the input. -/
def applyInverse (r : RotationMatrix K) (input : ℕ → K) : ℕ → K :=
  if r.kind = .blockedHadamardPermuted ∧ r.useFastHadamard then
    applyBlockedFastInverse avx512 arith r.permutation r.blockSizes r.diagSigns input
  else if r.kind = .fhtKacRotator ∧ r.useFastHadamard then
    applyFhtKacFastInverse avx512 arith r.fhtKacSigns r.dim.toNat r.fhtKacTruncDim.toNat
      r.fhtKacNumRounds input
  else if r.useFastHadamard then
    scaleBy r.dim.toNat (fun _ => invSqrt arith r.dim.toNat)
      (fwht avx512 (copyOf r.dim.toNat fun i => input i * ((r.diagSigns.getD i 0 : ℤ) : K))
        r.dim.toNat)
  else r.denseApplyInverse input

end RotationMatrix

end Generate

end VecFetch.Rabitq
