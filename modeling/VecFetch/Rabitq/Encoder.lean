/-
# Rabitq.Encoder -- the encoder of 1+N codes

A vector is centred, normalised and rotated; the sign bit of each coordinate goes to the
first bit plane, its size to an extra code of a few bits.  Official 1+N codes fold the sign
into the extra code as well and keep the two factors of the distance; legacy codes pack the
signs beside it.

Arithmetic is exact (`ExactArith`), and what the engine draws for the scale of the extra
code is arbitrary (`Rng`).
-/
import VecFetch.Rabitq.Code
import VecFetch.Rabitq.Rotation
import VecFetch.Simd.Popcount
import Mathlib.Algebra.Order.Floor.Ring
import Mathlib.Algebra.Order.BigOperators.Group.Finset

namespace VecFetch.Rabitq

open VecFetch.Theory VecFetch.Simd

set_option autoImplicit false

inductive RaBitQEstimatorMode where
  | legacySignedMagnitude
  | official1PlusN
  deriving DecidableEq

/-- What the encoder reads of a `RaBitQConfig`. -/
structure RaBitQConfig where
  bits : UInt8 := 1
  totalBits : UInt8 := 1
  exBits : UInt8 := 0
  estimatorMode : RaBitQEstimatorMode := .legacySignedMagnitude

namespace RaBitQConfig

def usesOfficial1PlusN (config : RaBitQConfig) : Bool :=
  decide (config.estimatorMode = .official1PlusN)

def effectiveTotalBits (config : RaBitQConfig) : UInt8 :=
  if config.usesOfficial1PlusN then config.totalBits else config.bits

def stage2PayloadBits (config : RaBitQConfig) : UInt8 :=
  if config.usesOfficial1PlusN then config.exBits else if 1 < config.bits then config.bits else 0

def activeCodeBits (config : RaBitQConfig) : UInt8 :=
  if 0 < config.stage2PayloadBits then config.stage2PayloadBits else 1

end RaBitQConfig

/-! ## The scale of the extra code -/

section Scale

variable {K : Type} [Field K] [LinearOrder K] [FloorRing K] (arith : ExactArith K)

/-- `static_cast<int>`: towards zero. -/
def toInt (x : K) : ℤ := if 0 ≤ x then ⌊x⌋ else ⌈x⌉

/-- `kEps`. -/
def kEps : K := lit 1e-5

def kTightStart : List ℚ := [0.0, 0.15, 0.20, 0.52, 0.59, 0.71, 0.75, 0.77, 0.81]

/-- `int c = static_cast<int>(t * abs_rot[i] + kEps); if (c > max_code) c = max_code;` -/
def scaledCode (t : K) (maxCode : ℤ) (abs : K) : ℤ :=
  if maxCode < toInt (t * abs + kEps) then maxCode else toInt (t * abs + kEps)

/-- `*std::max_element(abs_rot, abs_rot + dim)`. -/
def maxElement (absRot : ℕ → K) (dim : ℕ) : K :=
  (List.range dim).foldl (fun best i => if best < absRot i then absRot i else best) (absRot 0)

/-- The top of a `std::priority_queue` with `std::greater`, and the rest. -/
def popLeast : List (K × ℕ) → Option ((K × ℕ) × List (K × ℕ))
  | [] => none
  | e :: rest =>
      match popLeast rest with
      | none => some (e, [])
      | some (f, others) =>
          if e.1 < f.1 ∨ e.1 = f.1 ∧ e.2 ≤ f.2 then some (e, rest) else some (f, e :: others)

/-- The state of the lattice search. -/
structure Search (K : Type) where
  curCode : ℕ → ℤ
  sqrDenom : K
  numer : K
  maxIp : K
  bestT : K
  pq : List (K × ℕ)

/-- A turn of the search, with the top of the queue taken off. -/
def Search.turn (absRot : ℕ → K) (maxCode : ℤ) (tEnd curT : K) (idx : ℕ) (s : Search K) :
    Search K :=
  let updated := s.curCode idx + 1
  let sqrDenom := s.sqrDenom + lit 2.0 * (updated : K)
  let numer := s.numer + absRot idx
  let curIp := numer / arith.sqrt sqrDenom
  let nextT := ((updated : K) + 1) / absRot idx
  { curCode := Function.update s.curCode idx updated
    sqrDenom := sqrDenom
    numer := numer
    maxIp := if s.maxIp < curIp then curIp else s.maxIp
    bestT := if s.maxIp < curIp then curT else s.bestT
    pq := if updated < maxCode ∧ nextT < tEnd then (nextT, idx) :: s.pq else s.pq }

/-- `while (!pq.empty())`; each turn raises one code, and none goes above the largest. -/
def Search.loop (absRot : ℕ → K) (maxCode : ℤ) (tEnd : K) : ℕ → Search K → Search K
  | 0, s => s
  | fuel + 1, s =>
      match popLeast s.pq with
      | none => s
      | some (top, others) =>
          loop absRot maxCode tEnd fuel
            (turn arith absRot maxCode tEnd top.1 top.2 { s with pq := others })

/-- The search before its loop. -/
def Search.start (absRot : ℕ → K) (dim : ℕ) (maxCode : ℤ) (tStart : K) : Search K :=
  let code := fun i => scaledCode tStart maxCode (absRot i)
  { curCode := code
    sqrDenom := (dim : K) * lit 0.25 + sumTo dim fun i => (code i : K) * (code i : K) + (code i : K)
    numer := sumTo dim fun i => ((code i : K) + lit 0.5) * absRot i
    maxIp := 0
    bestT := tStart
    pq := (List.range dim).filterMap fun i =>
      if kEps < absRot i ∧ code i < maxCode then some (((code i : K) + 1) / absRot i, i) else none }

/-- `BestRescaleFactorSlow`; no result where it reads past an empty vector or the table. -/
def bestRescaleFactorSlow (absRot : ℕ → K) (dim exBits : ℕ) : Option K :=
  if dim = 0 then none
  else
    kTightStart[exBits]?.map fun tight =>
      let maxCode : ℤ := 2 ^ exBits - 1
      let maxO := if maxElement absRot dim < kEps then kEps else maxElement absRot dim
      let tEnd := ((maxCode + 10 : ℤ) : K) / maxO
      let tStart := tEnd * lit tight
      (Search.loop arith absRot maxCode tEnd (dim * maxCode.toNat)
        (Search.start absRot dim maxCode tStart)).bestT

/-- Sample `s` of `ComputeTConst`: absolute values of a normalised vector. -/
def tConstSample (rng : Rng K) (dim s : ℕ) (i : ℕ) : K :=
  let draw := fun i => rng.normal (s * dim + i)
  |draw i * (1 / arith.sqrt (sumTo dim fun i => draw i * draw i))|

/-- `ComputeTConst`: the mean of a hundred samples. -/
def computeTConst (rng : Rng K) (dim exBits : ℕ) : Option K :=
  ((List.range 100).mapM fun s =>
    bestRescaleFactorSlow arith (tConstSample arith rng dim s) dim exBits).map
      fun best => best.sum / ((100 : ℤ) : K)

end Scale

/-! ## Encoding -/

/-- An encoded vector, its factors exact. -/
structure EncodedVector (K : Type) where
  code : List UInt64
  norm : K
  sumX : UInt32
  bits : UInt8
  exCode : List UInt8
  exSignPacked : List UInt8
  xipnorm : K
  exCodeSignFolded : Bool
  exFactorAdd : K
  exFactorRescale : K

/-- The code as it is stored, each factor as its bit pattern. -/
def EncodedVector.stored {K : Type} (pattern : K → UInt32) (c : EncodedVector K) : RaBitQCode where
  code := c.code
  norm := pattern c.norm
  sumX := c.sumX
  bits := c.bits
  exCode := c.exCode
  exSignPacked := c.exSignPacked
  xipnorm := pattern c.xipnorm
  exCodeSignFolded := c.exCodeSignFolded
  exFactorAdd := pattern c.exFactorAdd
  exFactorRescale := pattern c.exFactorRescale

structure RaBitQEncoder (K : Type) where
  dim : ℕ
  rotation : RotationMatrix K
  bits : UInt8
  totalBits : UInt8
  exBits : UInt8
  official1PlusN : Bool
  wordsPerPlane : ℕ
  totalWords : ℕ
  maxCode : ℤ
  tConst : K

/-- `code[word] |= (1ULL << bit)`. -/
def orBit (code : List UInt64) (word bit : ℕ) : List UInt64 :=
  code.modify word fun w => w ||| (1 : UInt64) <<< UInt64.ofNat bit

section Encode

variable {K : Type} [Field K] [LinearOrder K] [FloorRing K] (arith : ExactArith K)

/-- The constructor that takes a number of bits. -/
def RaBitQEncoder.ofBits (rng : Rng K) (dim : ℕ) (rotation : RotationMatrix K) (bits : UInt8) :
    Option (RaBitQEncoder K) :=
  let base : RaBitQEncoder K :=
    { dim := dim
      rotation := rotation
      bits := bits
      totalBits := bits
      exBits := if 1 < bits then bits else 0
      official1PlusN := false
      wordsPerPlane := (dim + 63) / 64
      totalWords := bits.toNat * ((dim + 63) / 64)
      maxCode := 0
      tConst := 0 }
  if 1 < bits then
    (computeTConst arith rng dim bits.toNat).map fun tConst =>
      { base with maxCode := 2 ^ bits.toNat - 1, tConst := tConst }
  else some base

/-- The constructor that takes a `RaBitQConfig`. -/
def RaBitQEncoder.ofConfig (rng : Rng K) (dim : ℕ) (rotation : RotationMatrix K)
    (config : RaBitQConfig) : Option (RaBitQEncoder K) :=
  (RaBitQEncoder.ofBits arith rng dim rotation config.activeCodeBits).bind fun base =>
    let enc := { base with
      official1PlusN := config.usesOfficial1PlusN
      totalBits := config.effectiveTotalBits
      exBits := config.stage2PayloadBits }
    if config.usesOfficial1PlusN ∧ 0 < config.stage2PayloadBits ∧ base.bits = 1 then
      (computeTConst arith rng dim config.stage2PayloadBits.toNat).map fun tConst =>
        { enc with maxCode := 2 ^ config.stage2PayloadBits.toNat - 1, tConst := tConst }
    else some enc

/-- `out_ex_code` of `FastQuantizeEx`. -/
def fastQuantizeCodes (absRot : ℕ → K) (dim : ℕ) (maxCode : ℤ) (tConst : K) : List UInt8 :=
  (List.range dim).map fun i => UInt8.ofInt (scaledCode tConst maxCode (absRot i))

/-- What `FastQuantizeEx` returns, `1 / ipnorm`. -/
def fastQuantizeXipnorm (absRot : ℕ → K) (dim : ℕ) (maxCode : ℤ) (tConst : K) : K :=
  let ipnorm := sumTo dim fun i =>
    ((scaledCode tConst maxCode (absRot i) : K) + lit 0.5) * absRot i
  if lit 1e-30 < ipnorm then 1 / ipnorm else 1

def packExSignBits (rotated : ℕ → K) (dim : ℕ) : List UInt8 :=
  (List.range dim).foldl
    (fun packed i =>
      if 0 ≤ rotated i then
        packed.modify (i / 8) fun b => b ||| (1 : UInt8) <<< UInt8.ofNat (i % 8)
      else packed)
    (List.replicate ((dim + 7) / 8) 0)

/-- The loop that packs the signs of one-bit codes. -/
def signPlane (rotated : ℕ → K) (dim : ℕ) (code : List UInt64) : List UInt64 :=
  (List.range dim).foldl
    (fun code i => if 0 ≤ rotated i then orBit code (i / 64) (i % 64) else code) code

/-- `bin`, the level of a coordinate. -/
def uniformBin (bits : ℕ) (v : K) : ℕ :=
  (min (max ⌊(v + 1) * (((2 ^ bits : ℕ) : K) * lit 0.5)⌋ 0) (2 ^ bits - 1)).toNat

/-- The first `planes` planes of one coordinate. -/
def packBin (bits wpp bin i planes : ℕ) (code : List UInt64) : List UInt64 :=
  (List.range planes).foldl
    (fun code p =>
      if (bin >>> (bits - 1 - p)) &&& 1 ≠ 0 then orBit code (p * wpp + i / 64) (i % 64) else code)
    code

/-- The loop that packs the bit planes. -/
def bitPlanes (rotated : ℕ → K) (dim bits wpp : ℕ) (code : List UInt64) : List UInt64 :=
  (List.range dim).foldl
    (fun code i => packBin bits wpp (uniformBin bits (rotated i)) i bits code)
    code

/-- The loop that folds the signs into the extra code. -/
def foldSigns (rotated : ℕ → K) (maxCode : ℤ) (exCode : List UInt8) : List UInt8 :=
  exCode.mapIdx fun i c => if rotated i < 0 then UInt8.ofInt (maxCode - c.toNat) else c

/-- The fields of an official code. -/
def RaBitQEncoder.official (enc : RaBitQEncoder K) (norm : K) (rotated : ℕ → K)
    (exCode : List UInt8) (xipnorm : K) (code : EncodedVector K) : EncodedVector K :=
  { code with
    exCode := foldSigns rotated enc.maxCode exCode
    xipnorm := xipnorm
    exCodeSignFolded := true
    exSignPacked := []
    exFactorAdd := norm * norm
    exFactorRescale := lit (-2.0) * norm * xipnorm }

/-- `Encode` from its fifth step on, before `sum_x`. -/
def RaBitQEncoder.encodePlanes (enc : RaBitQEncoder K) (norm : K) (rotated : ℕ → K) :
    EncodedVector K :=
  let absRot := fun i => |rotated i|
  let result : EncodedVector K :=
    { code := List.replicate enc.totalWords 0
      norm := norm
      sumX := 0
      bits := enc.bits
      exCode := []
      exSignPacked := []
      xipnorm := 0
      exCodeSignFolded := false
      exFactorAdd := 0
      exFactorRescale := 0 }
  if enc.bits = 1 then
    let result := { result with code := signPlane rotated enc.dim result.code }
    if enc.official1PlusN ∧ 0 < enc.exBits then
      enc.official norm rotated (fastQuantizeCodes absRot enc.dim enc.maxCode enc.tConst)
        (fastQuantizeXipnorm absRot enc.dim enc.maxCode enc.tConst) result
    else result
  else
    let maxCode : ℤ := 2 ^ enc.bits.toNat - 1
    let result := { result with
      code := bitPlanes rotated enc.dim enc.bits.toNat enc.wordsPerPlane result.code }
    let exCode := fastQuantizeCodes absRot enc.dim maxCode enc.tConst
    let xipnorm := fastQuantizeXipnorm absRot enc.dim maxCode enc.tConst
    if enc.official1PlusN then enc.official norm rotated exCode xipnorm result
    else { result with
      exCode := exCode
      xipnorm := xipnorm
      exSignPacked := packExSignBits rotated enc.dim }

/-- `Encode` from its fifth step on; the bits of the first plane are counted last. -/
def RaBitQEncoder.encodeRotated (enc : RaBitQEncoder K) (norm : K) (rotated : ℕ → K) :
    EncodedVector K :=
  let result := enc.encodePlanes norm rotated
  { result with sumX := popcountTotal (fun w => result.code.getD w 0) enc.wordsPerPlane }

/-- `RaBitQEncoder::Encode`. -/
def RaBitQEncoder.encode (avx512 : Bool) (enc : RaBitQEncoder K) (vec : ℕ → K)
    (centroid : Option (ℕ → K)) : EncodedVector K :=
  let residual := match centroid with
    | some centroid => fun i => vec i - centroid i
    | none => vec
  let norm : K := arith.sqrt (sumTo enc.dim fun i => residual i * residual i)
  let unit := if lit 1e-30 < norm then scaleBy enc.dim (fun _ => 1 / norm) residual else residual
  enc.encodeRotated norm (enc.rotation.apply avx512 arith unit)

end Encode

end VecFetch.Rabitq
