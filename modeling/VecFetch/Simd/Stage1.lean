/-
# Simd.Stage1 -- distances and masks of a FastScan block

`FastScanStage1Evaluate` turns a block's accumulators into distances and tests each lane
against the two thresholds.  The AVX-512 build does both in registers of sixteen lanes
with fused multiply-adds; the other builds loop over the lanes, except that the AVX2
build tests SafeIn eight lanes at a time.  In every build a mask has the bits of its own
lanes only (`safeoutMask_lane`, `safeinMask_lane`).
-/
import VecFetch.Common.FloatArith
import VecFetch.Theory.Mask
import VecFetch.Simd.FastScanLut

namespace VecFetch.Simd

open VecFetch.Theory FloatArith

set_option autoImplicit false

variable {F : Type} [FloatArith F]

/-- What the evaluation of a block is given besides its accumulators and norms. -/
structure Stage1Args (F : Type) where
  fsShift : ℤ
  fsWidth : F
  sumQ : F
  invSqrtDim : F
  normQc : F
  normQcSq : F
  safeoutFrontierUpper : F
  safeoutMarginFactor : F
  safeinThresholdBase : F
  safeinMarginFactor : F
  enableSafein : Bool

/-- `FastScanStage1EvalResult`, with the distances. -/
structure FastScanStage1EvalResult (F : Type) where
  safeoutMask : UInt32
  safeinMask : UInt32
  ipX0Qr : ℕ → F
  dists : ℕ → F

variable (args : Stage1Args F)

def ipX0Qr (raw : UInt32) : F := (ofInt raw.toNat + ofInt args.fsShift) * args.fsWidth

/-- A lane of `FastScanDequantize`. -/
def dequantizedDist (raw : UInt32) (norm : F) : F :=
  let ipEst := (ofInt 2 * ipX0Qr args raw - args.sumQ) * args.invSqrtDim
  let distSq := norm * norm + args.normQcSq - ofInt 2 * norm * args.normQc * ipEst
  stdMax distSq (ofInt 0)

/-- A lane of the AVX-512 registers. -/
def fusedDist (raw : UInt32) (norm : F) : F :=
  let ipEst := fmsub (ofInt 2) (ipX0Qr args raw) args.sumQ * args.invSqrtDim
  let dist := fmadd norm norm args.normQcSq
  let twoOcQc := ofInt 2 * (norm * args.normQc)
  simdMax (fnmadd twoOcQc ipEst dist) (ofInt 0)

def stage1Dist (build : Build) (raw : UInt32) (norm : F) : F :=
  match build with
  | .avx512 => fusedDist args raw norm
  | _ => dequantizedDist args raw norm

/-- `dist > safeout_frontier_upper + margin_factor * norm`. -/
def isSafeOut (dist norm : F) : Bool :=
  lt (args.safeoutFrontierUpper + args.safeoutMarginFactor * norm) dist

/-- `dist < safein_threshold_base - margin_factor * norm`. -/
def isSafeIn (dist norm : F) : Bool :=
  lt dist (args.safeinThresholdBase - args.safeinMarginFactor * norm)

/-- `FastScanSafeOutMask`. -/
def fastScanSafeOutMask (build : Build) (count : ℕ) (dists norms : ℕ → F) : UInt32 :=
  match build with
  | .avx512 => chunkMask 16 count fun v => isSafeOut args (dists v) (norms v)
  | _ => scalarMask count fun v => isSafeOut args (dists v) (norms v)

/-- `FastScanSafeInMask`. -/
def fastScanSafeInMask (build : Build) (count : ℕ) (dists norms : ℕ → F) : UInt32 :=
  match build with
  | .avx512 => chunkMask 16 count fun v => isSafeIn args (dists v) (norms v)
  | .avx2 => chunkMask 8 count fun v => isSafeIn args (dists v) (norms v)
  | .scalar => scalarMask count fun v => isSafeIn args (dists v) (norms v)

/-- `FastScanStage1Evaluate`. -/
def fastScanStage1Evaluate (build : Build) (rawAccu : ℕ → UInt32) (blockNorms : ℕ → F)
    (count : ℕ) : FastScanStage1EvalResult F :=
  let dists := fun v => stage1Dist args build (rawAccu v) (blockNorms v)
  { safeoutMask := fastScanSafeOutMask args build count dists blockNorms
    safeinMask :=
      if args.enableSafein then fastScanSafeInMask args build count dists blockNorms else 0
    ipX0Qr := fun v => ipX0Qr args (rawAccu v)
    dists := dists }

/-! ## The masks' lanes -/

section Lanes

variable {args} {count : ℕ} (fits : count ≤ 32) (build : Build) (dists norms : ℕ → F) (j : ℕ)

include fits

theorem safeOutMask_lane : hasLane (fastScanSafeOutMask args build count dists norms) j =
    (decide (j < count) && isSafeOut args (dists j) (norms j)) := by
  cases build with
  | avx512 => exact hasLane_chunkMask (by decide) (by decide) fits _ j
  | avx2 => exact hasLane_scalarMask fits _ j
  | scalar => exact hasLane_scalarMask fits _ j

theorem safeInMask_lane : hasLane (fastScanSafeInMask args build count dists norms) j =
    (decide (j < count) && isSafeIn args (dists j) (norms j)) := by
  cases build with
  | avx512 => exact hasLane_chunkMask (by decide) (by decide) fits _ j
  | avx2 => exact hasLane_chunkMask (by decide) (by decide) fits _ j
  | scalar => exact hasLane_scalarMask fits _ j

end Lanes

/-- **A lane of the SafeOut mask** is a lane of the block that lies above its threshold. -/
theorem stage1_safeout_lane {count : ℕ} (fits : count ≤ 32) (build : Build)
    (rawAccu : ℕ → UInt32) (blockNorms : ℕ → F) (j : ℕ) :
    hasLane (fastScanStage1Evaluate args build rawAccu blockNorms count).safeoutMask j =
      (decide (j < count) &&
        isSafeOut args (stage1Dist args build (rawAccu j) (blockNorms j)) (blockNorms j)) :=
  safeOutMask_lane fits build _ blockNorms j

/-- A lane of the SafeIn mask is a lane of the block. -/
theorem stage1_safein_lane {count : ℕ} (fits : count ≤ 32) (build : Build)
    (rawAccu : ℕ → UInt32) (blockNorms : ℕ → F) (j : ℕ) :
    hasLane (fastScanStage1Evaluate args build rawAccu blockNorms count).safeinMask j =
      (args.enableSafein && (decide (j < count) &&
        isSafeIn args (stage1Dist args build (rawAccu j) (blockNorms j)) (blockNorms j))) := by
  unfold fastScanStage1Evaluate
  dsimp only
  cases args.enableSafein with
  | false => simp
  | true =>
      rw [if_pos rfl, Bool.true_and]
      exact safeInMask_lane fits build _ blockNorms j

end VecFetch.Simd
