/-
# Rabitq.Stage2Direction -- stage 2 is exact along a record's own direction

The query `c + t * (v - c)` of a record `v` rotates to a multiple of the record's own rotated
unit vector, so the inner product with the record's signed code vector is that multiple of what
the record's scale divides by, and the distance comes out exactly, whatever the code is.

What can fail is the way there: the scale of the code is computed for up to eight bits, and the
query's table is stored only where every group has room and the shift of the lowest query fits
(`stage2Exact_iff`).
-/
import VecFetch.Rabitq.MultiBit
import VecFetch.Rabitq.PreparedAgree
import VecFetch.Rabitq.PopcountEstimate
import VecFetch.Simd.FusedLutReach
import VecFetch.Simd.PrepareSums

namespace VecFetch.Rabitq.Estimator

open VecFetch.Theory VecFetch.Simd Finset

set_option autoImplicit false

/-! ## A unit vector and its multiples -/

section Direction

variable {K : Type} [Field K] [LinearOrder K] [IsStrictOrderedRing K] [FloorRing K]
  {enc : RaBitQEncoder K} {u query : ℕ → K} {s : K}

/-- The product of a unit vector with its signed code vector is at least a half. -/
theorem half_le_signedIp (scale : 0 ≤ enc.tConst) (room : 0 ≤ enc.maxCode)
    (unit : dot enc.dim u u = 1) : lit 0.5 ≤ signedIp enc u u := by
  have half : (lit 0.5 : K) = 1 / 2 := by norm_num [lit]
  have small : ∀ i, i < enc.dim → |u i| ≤ 1 := fun i inside => by
    have one : u i * u i ≤ dot enc.dim u u :=
      single_le_sum (f := fun i => u i * u i) (fun j _ => mul_self_nonneg (u j))
        (mem_range.2 inside)
    exact abs_le_one_iff_mul_self_le_one.2 (one.trans unit.le)
  calc lit 0.5 = lit 0.5 * dot enc.dim u u := by rw [unit, mul_one]
    _ = ∑ i ∈ range enc.dim, lit 0.5 * (|u i| * |u i|) := by
      rw [dot, mul_sum]
      exact sum_congr rfl fun i _ => by rw [abs_mul_abs_self]
    _ ≤ signedIp enc u u := by
      refine sum_le_sum fun i inside => ?_
      have code : (0 : K) ≤ (scaledCode enc.tConst enc.maxCode |u i| : K) :=
        Int.cast_nonneg (scaledCode_nonneg scale (abs_nonneg _) room)
      rw [mul_signedCode, half]
      have size := abs_nonneg (u i)
      have square := mul_le_mul_of_nonneg_left (small i (mem_range.1 inside)) size
      have more := mul_nonneg size code
      linarith

omit [IsStrictOrderedRing K] in
theorem signedIp_scale (scaled : ∀ i, i < enc.dim → query i = u i * s) :
    signedIp enc u query = signedIp enc u u * s := by
  rw [signedIp, signedIp, sum_mul]
  refine sum_congr rfl fun i inside => ?_
  rw [scaled i (mem_range.1 inside)]
  ring

/-- **The distance to a multiple of the vector itself.** -/
theorem signedDistance_along (scale : 0 ≤ enc.tConst) (room : 0 ≤ enc.maxCode)
    (unit : dot enc.dim u u = 1) (scaled : ∀ i, i < enc.dim → query i = u i * s) {norm normQc : K}
    (whole : normQc * normQc = normQc * s * (normQc * s)) :
    signedDistance enc norm u (prepareRotated enc.dim query normQc) (signedIp enc u query) =
      (norm - normQc * s) * (norm - normQc * s) := by
  have half := half_le_signedIp scale room unit
  have guard : lit 1e-30 < signedIp enc u u :=
    (show (lit 1e-30 : K) < lit 0.5 by norm_num [lit]).trans_le half
  have positive : signedIp enc u u ≠ 0 :=
    ((show (0 : K) < lit 0.5 from lit_pos (by norm_num)).trans_le half).ne'
  have two : (lit 2.0 : K) = 2 := by norm_num [lit]
  have value : normQc * normQc + norm * norm -
      lit 2.0 * norm * signedScale enc u * (normQc * signedIp enc u query) =
        (norm - normQc * s) * (norm - normQc * s) := by
    rw [signedScale, if_pos guard, signedIp_scale scaled, two, whole]
    field_simp
    ring
  rw [signedDistance]
  change max (normQc * normQc + norm * norm -
    lit 2.0 * norm * signedScale enc u * (normQc * signedIp enc u query)) 0 = _
  rw [value]
  exact max_eq_left (mul_self_nonneg _)

end Direction

/-! ## The prepared query -/

section Prepared

variable {K : Type} [Field K] [LinearOrder K] [IsStrictOrderedRing K] {build : Build}
  {arith : ExactArith K} {est : RaBitQEstimator} {rotation : RotationMatrix K}

/-- A residual as it is rotated: divided by its norm, where that is above the guard. -/
def normalised (arith : ExactArith K) (n : ℕ) (residual : ℕ → K) : ℕ → K :=
  let norm := arith.sqrt (dot n residual residual)
  if lit 1e-30 < norm then fun i => residual i * (1 / norm) else residual

/-- What the estimate reads of a prepared query. -/
def PreparedQuery.reads (pq : PreparedQuery K) : Rabitq.PreparedQuery K where
  rotated := pq.rotated
  normQc := pq.normQc
  normQcSq := pq.normQcSq
  sumQ := pq.sumQ

/-- A query whose signs were taken, of a residual. -/
structure ReadsResidual (arith : ExactArith K) (A : (ℕ → K) → ℕ → K) (n : ℕ) (residual : ℕ → K)
    (pq : PreparedQuery K) : Prop where
  rotated : ∀ d, d < n → pq.rotated d = A (normalised arith n residual) d
  normQc : pq.normQc = arith.sqrt (dot n residual residual)
  reads : pq.reads = prepareRotated n pq.rotated pq.normQc

omit [IsStrictOrderedRing K] in
/-- Taking the signs of a rotated query leaves it as it is. -/
theorem normalizeSigns_reads {pq : PreparedQuery K} (ends : est.dim.toNat + 63 < 2 ^ 32)
    (length : pq.signCode.length = est.wordsPerPlane.toNat) :
    ∃ out maxAbs, normalizeSigns build est pq 1 = some (out, maxAbs) ∧
      out.reads = { pq.reads with sumQ := sumTo est.dim.toNat pq.rotated } ∧
      IsMaxAbs out.rotated est.dim.toNat maxAbs := by
  obtain ⟨out, run, holds⟩ := simdNormalizeSignSumMaxAbs_spec build pq.rotated 1 length
    (wordsPerPlane_toNat ends).symm ends
  have same : (fun d => pq.rotated d * 1) = pq.rotated := funext fun d => mul_one _
  have kept : out.vec = pq.rotated := funext fun d => by
    rw [holds.vec, mul_one, ite_self]
  obtain ⟨sum, isMax⟩ := simdNormalizeSignSumMaxAbs_reduce run
  refine ⟨_, out.maxAbs, by rw [normalizeSigns, run, Option.map_some], ?_, ?_⟩
  · simp only [PreparedQuery.reads, kept, sum, sumTo_eq, mul_one]
  · rw [same] at isMax
    change IsMaxAbs out.vec _ _
    rw [kept]
    exact isMax

omit [IsStrictOrderedRing K] in
/-- Dividing a copy of the residual is dividing the residual. -/
theorem rotated_copy {n : ℕ} {A B : (ℕ → K) → ℕ → K} (pair : RotationPair n A B)
    (residual : ℕ → K) {d : ℕ} (inside : d < n) :
    copyOf n (A (if lit 1e-30 < arith.sqrt (dot n residual residual) then
        scaleBy n (fun _ => 1 / arith.sqrt (dot n residual residual)) (copyOf n residual)
      else copyOf n residual)) d = A (normalised arith n residual) d := by
  rw [copyOf_low inside]
  refine pair.congr (fun i below => ?_) inside
  rw [normalised]
  split
  · rw [scaleBy_low below, copyOf_low below]
  · rw [copyOf_low below]

/-- **The signs of a query are taken of its rotated unit vector.** -/
theorem prepareSigns_reads {B : (ℕ → K) → ℕ → K}
    (pair : RotationPair est.dim.toNat (rotation.apply (decide (build = .avx512)) arith) B)
    (ends : est.dim.toNat + 63 < 2 ^ 32) (query : ℕ → K) (centroid : Option (ℕ → K))
    (pq : PreparedQuery K) :
    ∃ out maxAbs, prepareSigns build arith est query centroid rotation pq = some (out, maxAbs) ∧
      ReadsResidual arith (rotation.apply (decide (build = .avx512)) arith) est.dim.toNat
        (differences query centroid) out ∧
      IsMaxAbs out.rotated est.dim.toNat maxAbs := by
  rw [prepareSigns, simdSubtractAndNormSq_ends (registersEnd build ends), Option.bind_some]
  dsimp only
  have turned := fun d => @rotated_copy K _ _ arith est.dim.toNat _ _ pair
    (differences query centroid) d
  have norm := norm_prepared arith est.dim.toNat (differences query centroid)
  refine Exists.imp (fun out => Exists.imp fun maxAbs kept => ⟨kept.1, ?_, kept.2.2⟩)
    (normalizeSigns_reads ends (resizeWords_length _ _))
  obtain ⟨same, normQc, normQcSq, sumQ⟩ := Rabitq.PreparedQuery.mk.inj kept.2.1
  refine ⟨fun d inside => (congrFun same d).trans (turned d inside), normQc, ?_⟩
  rw [PreparedQuery.reads, prepareRotated, normQcSq, sumQ, same, normQc]
  simp only [PreparedQuery.reads, norm]

end Prepared

/-! ## Both modes -/

section Modes

variable {K : Type} [Field K] [LinearOrder K] [IsStrictOrderedRing K] [FloorRing K]
  {arith : ExactArith K} {rng : Rng K} {dim : ℕ} {rotation : RotationMatrix K}
  {config : RaBitQConfig} {enc : RaBitQEncoder K}

omit [IsStrictOrderedRing K] in
theorem ofConfig_rotation
    (built : RaBitQEncoder.ofConfig arith rng dim rotation config = some enc) :
    enc.rotation = rotation := by
  obtain ⟨base, ofBits, rest⟩ := Option.bind_eq_some_iff.1 built
  have kept : base.rotation = rotation := by
    unfold RaBitQEncoder.ofBits at ofBits
    dsimp only at ofBits
    split at ofBits
    · obtain ⟨t, -, rfl⟩ := Option.map_eq_some_iff.1 ofBits
      rfl
    · obtain rfl := Option.some.inj ofBits
      rfl
  split at rest
  · obtain ⟨t, -, rfl⟩ := Option.map_eq_some_iff.1 rest
    exact kept
  · obtain rfl := Option.some.inj rest
    exact kept

omit [IsStrictOrderedRing K] in
/-- An encoder is built for up to eight bits. -/
theorem ofConfig_some (arith : ExactArith K) (rng : Rng K) (rotation : RotationMatrix K)
    (positive : 0 < dim) (several : 0 < config.stage2PayloadBits)
    (few : config.stage2PayloadBits.toNat ≤ 8) :
    ∃ enc, RaBitQEncoder.ofConfig arith rng dim rotation config = some enc := by
  obtain ⟨t, computed⟩ := computeTConst_some arith rng positive few
  have active : config.activeCodeBits = config.stage2PayloadBits := if_pos several
  obtain ⟨base, ofBits⟩ : ∃ base, RaBitQEncoder.ofBits arith rng dim rotation
      config.activeCodeBits = some base := by
    rw [active, RaBitQEncoder.ofBits]
    dsimp only
    split
    · rw [computed]
      exact ⟨_, rfl⟩
    · exact ⟨_, rfl⟩
  rw [RaBitQEncoder.ofConfig, ofBits, Option.bind_some]
  dsimp only
  split
  · rw [computed]
    exact ⟨_, rfl⟩
  · exact ⟨_, rfl⟩

/-- `EstimateDistanceOfficial1PlusN`, or `EstimateDistanceMultiBit` for a legacy configuration. -/
def stage2Estimate (build : Build) (est : RaBitQEstimator) (config : RaBitQConfig)
    (pq : PreparedQuery K) (code : EncodedVector K) : Option K :=
  if config.usesOfficial1PlusN then
    (estimateDistanceOfficial1PlusN est.dim.toNat pq.reads code config.exBits).toOption
  else estimateDistanceMultiBit build est pq.reads code

/-- What both modes have in common. -/
structure Stage2Encoder (build : Build) (est : RaBitQEstimator) (config : RaBitQConfig)
    (enc : RaBitQEncoder K) : Prop where
  dim : enc.dim = est.dim.toNat
  few : config.stage2PayloadBits.toNat ≤ 8
  scale : 0 ≤ enc.tConst
  room : 0 ≤ enc.maxCode
  estimate : est.dim.toNat + 64 < 2 ^ 32 → ∀ norm rotated (pq : PreparedQuery K),
    pq.reads = prepareRotated est.dim.toNat pq.rotated pq.normQc →
      stage2Estimate build est config pq (enc.encodeRotated norm rotated) =
        some (signedDistance enc norm rotated
          (prepareRotated est.dim.toNat pq.rotated pq.normQc) (signedIp enc rotated pq.rotated))

/-- **In both modes the estimate is the distance of the signed code vector.** -/
theorem stage2Encoder_of_config (build : Build) {est : RaBitQEstimator}
    (built : RaBitQEncoder.ofConfig arith rng est.dim.toNat rotation config = some enc)
    (several : 0 < config.stage2PayloadBits) : Stage2Encoder build est config enc := by
  have room : ∀ n : ℕ, (0 : ℤ) ≤ 2 ^ n - 1 := fun n => by
    have := @Int.pow_pos 2 n (by decide)
    omega
  by_cases mode : config.usesOfficial1PlusN = true
  · have payload : config.stage2PayloadBits = config.exBits := if_pos mode
    obtain ⟨official, exBits, dims⟩ := officialEncoder_of_config built mode (payload ▸ several)
    refine ⟨dims, by rw [payload, ← exBits]; exact official.few, official.scale, ?_, ?_⟩
    · rw [official.maxCode]
      exact room _
    · intro _ norm rotated pq reads
      rw [stage2Estimate, if_pos mode, reads, ← dims, ← exBits,
        official.estimate_eq norm rotated pq.rotated pq.normQc]
      rfl
  · have legacyMode : config.usesOfficial1PlusN = false := Bool.eq_false_iff.2 mode
    have many : 1 < config.bits := by
      by_contra single
      rw [RaBitQConfig.stage2PayloadBits, if_neg mode, if_neg single] at several
      exact absurd several (by decide)
    have payload : config.stage2PayloadBits = config.bits := by
      rw [RaBitQConfig.stage2PayloadBits, if_neg mode, if_pos many]
    obtain ⟨legacy, bits, dims⟩ := legacyEncoder_of_config built legacyMode many
    refine ⟨dims, by rw [payload, ← bits]; exact legacy.few, legacy.scale, ?_, ?_⟩
    · rw [legacy.maxCode]
      exact room _
    · intro ends norm rotated pq reads
      rw [stage2Estimate, if_neg mode, reads, ← dims,
        legacy.estimate_eq norm rotated pq.rotated build pq.normQc dims ends]

end Modes

/-! ## The law -/

section Law

variable {K : Type} [Field K] [LinearOrder K] [IsStrictOrderedRing K] [FloorRing K]

/-- The squared distance of two vectors. -/
def sqDistance (n : ℕ) (x y : ℕ → K) : K := dot n (fun i => x i - y i) fun i => x i - y i

/-- Every record whose distance from its centroid is above the guard, encoded and met by a query
along its direction that lies at the centroid or farther from it than the guard, is at the
distance the estimate says. -/
def Stage2Exact (build : Build) (arith : ExactArith K) (rng : Rng K) (est : RaBitQEstimator)
    (rotation : RotationMatrix K) (config : RaBitQConfig) (pq : PreparedQuery K)
    (scratch : ClusterPreparedScratch) : Prop :=
  ∀ (vec centroid : ℕ → K) (t : K),
    lit 1e-30 < arith.sqrt (sqDistance est.dim.toNat vec centroid) →
    (|t| * arith.sqrt (sqDistance est.dim.toNat vec centroid) = 0 ∨
      lit 1e-30 < |t| * arith.sqrt (sqDistance est.dim.toNat vec centroid)) →
    ∃ enc out, RaBitQEncoder.ofConfig arith rng est.dim.toNat rotation config = some enc ∧
      prepareQueryInto build arith est (fun i => centroid i + t * (vec i - centroid i))
        (some centroid) rotation pq scratch = some out ∧
      stage2Estimate build est config out
          (enc.encode arith (decide (build = .avx512)) vec (some centroid)) =
        some ((1 - t) * (1 - t) * sqDistance est.dim.toNat vec centroid)

variable {build : Build} {arith : ExactArith K} {rng : Rng K} {est : RaBitQEstimator}
  {rotation : RotationMatrix K} {B : (ℕ → K) → ℕ → K} {config : RaBitQConfig}
  {pq : PreparedQuery K} {scratch : ClusterPreparedScratch}

omit [FloorRing K] in
theorem dot_self_nonneg (n : ℕ) (x : ℕ → K) : 0 ≤ dot n x x :=
  sum_nonneg fun i _ => mul_self_nonneg (x i)

omit [FloorRing K] in
/-- A residual that is a multiple of another one. -/
theorem normalised_along (root : ∀ x, 0 ≤ arith.sqrt x) {n : ℕ} {r diff : ℕ → K} {t : K}
    (above : lit 1e-30 < arith.sqrt (dot n r r)) (along : ∀ i, i < n → diff i = t * r i)
    (guard : |t| * arith.sqrt (dot n r r) = 0 ∨ lit 1e-30 < |t| * arith.sqrt (dot n r r)) :
    arith.sqrt (dot n diff diff) = |t| * arith.sqrt (dot n r r) ∧
      ∀ i, i < n → normalised arith n diff i =
        normalised arith n r i * if t = 0 then 0 else t / |t| := by
  have positive : (0 : K) < arith.sqrt (dot n r r) := (lit_pos (by norm_num)).trans above
  have square := arith.sqrt_mul_self (dot n r r) (dot_self_nonneg n r)
  have product : dot n diff diff =
      |t| * arith.sqrt (dot n r r) * (|t| * arith.sqrt (dot n r r)) := by
    rw [mul_mul_mul_comm, abs_mul_abs_self, square, dot, dot, mul_sum]
    refine sum_congr rfl fun i inside => ?_
    rw [along i (mem_range.1 inside)]
    ring
  have norm : arith.sqrt (dot n diff diff) = |t| * arith.sqrt (dot n r r) := by
    have same := arith.sqrt_mul_self (dot n diff diff) (dot_self_nonneg n diff)
    rw [product] at same ⊢
    exact (mul_self_inj (root _) (mul_nonneg (abs_nonneg t) positive.le)).1 same
  refine ⟨norm, fun i inside => ?_⟩
  rw [normalised, normalised, if_pos above, norm]
  by_cases zero : t = 0
  · subst zero
    have low : ¬ lit 1e-30 < |(0 : K)| * arith.sqrt (dot n r r) := by
      rw [abs_zero, zero_mul]
      exact not_lt.2 (lit_pos (by norm_num)).le
    rw [if_pos rfl, mul_zero, if_neg low, along i inside, zero_mul]
  · have size : |t| ≠ 0 := abs_ne_zero.2 zero
    rcases guard with none | far
    · exact absurd none (mul_ne_zero size positive.ne')
    · rw [if_pos far, if_neg zero, along i inside]
      field_simp

omit [FloorRing K] in
/-- A residual above the guard is divided to a unit vector. -/
theorem normalised_unit {n : ℕ} {r : ℕ → K} (above : lit 1e-30 < arith.sqrt (dot n r r)) :
    dot n (normalised arith n r) (normalised arith n r) = 1 := by
  have positive : arith.sqrt (dot n r r) ≠ 0 := ((lit_pos (by norm_num)).trans above).ne'
  have square := arith.sqrt_mul_self (dot n r r) (dot_self_nonneg n r)
  have scaled : dot n (normalised arith n r) (normalised arith n r) =
      1 / arith.sqrt (dot n r r) * (1 / arith.sqrt (dot n r r)) * dot n r r := by
    rw [normalised, if_pos above, dot, dot, mul_sum]
    refine sum_congr rfl fun i _ => ?_
    ring
  rw [scaled]
  nth_rewrite 3 [← square]
  field_simp

omit [IsStrictOrderedRing K] in
/-- A record is encoded by its rotated unit vector. -/
theorem encode_along {enc : RaBitQEncoder K}
    (pair : RotationPair enc.dim (enc.rotation.apply (decide (build = .avx512)) arith) B)
    (vec centroid : ℕ → K) :
    ∃ u, enc.encode arith (decide (build = .avx512)) vec (some centroid) =
        enc.encodeRotated (arith.sqrt (sqDistance enc.dim vec centroid)) u ∧
      ∀ d, d < enc.dim → u d = enc.rotation.apply (decide (build = .avx512)) arith
        (normalised arith enc.dim fun i => vec i - centroid i) d := by
  refine ⟨_, by rw [RaBitQEncoder.encode, sumTo_eq]; rfl, fun d inside => ?_⟩
  refine pair.congr (fun i below => ?_) inside
  rw [normalised, dot]
  split
  · exact scaleBy_low below _ _
  · rfl

variable (pq) in
omit [FloorRing K] in
/-- **The query along a record's direction** is prepared as a multiple of its rotated unit
vector. -/
theorem prepareSigns_along (root : ∀ x, 0 ≤ arith.sqrt x)
    (pair : RotationPair est.dim.toNat (rotation.apply (decide (build = .avx512)) arith) B)
    (ends : est.dim.toNat + 63 < 2 ^ 32) {vec centroid : ℕ → K} {t : K}
    (above : lit 1e-30 < arith.sqrt (sqDistance est.dim.toNat vec centroid))
    (guard : |t| * arith.sqrt (sqDistance est.dim.toNat vec centroid) = 0 ∨
      lit 1e-30 < |t| * arith.sqrt (sqDistance est.dim.toNat vec centroid)) :
    ∃ out maxAbs, prepareSigns build arith est
        (fun i => centroid i + t * (vec i - centroid i)) (some centroid) rotation pq =
          some (out, maxAbs) ∧
      out.normQc = |t| * arith.sqrt (sqDistance est.dim.toNat vec centroid) ∧
      (∀ d, d < est.dim.toNat → out.rotated d =
        rotation.apply (decide (build = .avx512)) arith
          (normalised arith est.dim.toNat fun i => vec i - centroid i) d *
            if t = 0 then 0 else t / |t|) ∧
      out.reads = prepareRotated est.dim.toNat out.rotated out.normQc ∧
      IsMaxAbs out.rotated est.dim.toNat maxAbs := by
  obtain ⟨out, maxAbs, run, reads, isMax⟩ := prepareSigns_reads pair ends
    (fun i => centroid i + t * (vec i - centroid i)) (some centroid) pq
  have along : ∀ i, i < est.dim.toNat →
      differences (fun i => centroid i + t * (vec i - centroid i)) (some centroid) i =
        t * (vec i - centroid i) := fun i _ => by
    rw [differences]
    ring
  obtain ⟨norm, scaled⟩ := normalised_along root above along guard
  refine ⟨out, maxAbs, run, reads.normQc.trans norm, fun d inside => ?_, reads.reads, isMax⟩
  rw [reads.rotated d inside]
  exact linear_scale pair scaled inside

omit [IsStrictOrderedRing K] in
/-- The table leaves what the estimate reads. -/
theorem prepareFastScanQuery_reads {out : PreparedQuery K} {maxAbs : K}
    (built : prepareFastScanQuery build est pq maxAbs scratch = some out) :
    out.reads = pq.reads := by
  obtain ⟨table, -, rfl⟩ := Option.map_eq_some_iff.1 built
  rfl

omit [IsStrictOrderedRing K] [FloorRing K] in
theorem stage2Estimate_congr {out : PreparedQuery K} (same : out.reads = pq.reads)
    (code : EncodedVector K) :
    stage2Estimate build est config out code = stage2Estimate build est config pq code := by
  rw [stage2Estimate, stage2Estimate, same]

/-- **The estimate is exact** for a query that is prepared. -/
theorem stage2Estimate_along
    (pair : RotationPair est.dim.toNat (rotation.apply (decide (build = .avx512)) arith) B)
    (several : 0 < config.stage2PayloadBits) {enc : RaBitQEncoder K}
    (built : RaBitQEncoder.ofConfig arith rng est.dim.toNat rotation config = some enc)
    (ends : est.dim.toNat + 64 < 2 ^ 32) {vec centroid : ℕ → K} {t : K}
    (above : lit 1e-30 < arith.sqrt (sqDistance est.dim.toNat vec centroid))
    {out : PreparedQuery K}
    (normQc : out.normQc = |t| * arith.sqrt (sqDistance est.dim.toNat vec centroid))
    (rotated : ∀ d, d < est.dim.toNat → out.rotated d =
      rotation.apply (decide (build = .avx512)) arith
        (normalised arith est.dim.toNat fun i => vec i - centroid i) d *
          if t = 0 then 0 else t / |t|)
    (reads : out.reads = prepareRotated est.dim.toNat out.rotated out.normQc) :
    stage2Estimate build est config out
        (enc.encode arith (decide (build = .avx512)) vec (some centroid)) =
      some ((1 - t) * (1 - t) * sqDistance est.dim.toNat vec centroid) := by
  obtain ⟨dim, -, scale, room, estimate⟩ := stage2Encoder_of_config build built several
  obtain rfl := ofConfig_rotation built
  have estimate := estimate ends
  rw [← dim] at pair above normQc rotated reads estimate ⊢
  obtain ⟨u, encoded, turned⟩ := encode_along pair vec centroid
  have unit : dot enc.dim u u = 1 := by
    rw [dot_congr turned turned, pair.dot, normalised_unit above]
  have scaled : ∀ d, d < enc.dim → out.rotated d = u d * if t = 0 then 0 else t / |t| :=
    fun d inside => by rw [rotated d inside, turned d inside]
  have square := arith.sqrt_mul_self (sqDistance enc.dim vec centroid) (dot_self_nonneg _ _)
  generalize arith.sqrt (sqDistance enc.dim vec centroid) = norm at above normQc encoded square
  have moved : out.normQc * (if t = 0 then 0 else t / |t|) = t * norm := by
    rw [normQc]
    by_cases zero : t = 0
    · rw [if_pos zero, mul_zero, zero, zero_mul]
    · rw [if_neg zero]
      have size : |t| ≠ 0 := abs_ne_zero.2 zero
      field_simp
  have whole : out.normQc * out.normQc = t * norm * (t * norm) := by
    rw [normQc, mul_mul_mul_comm, abs_mul_abs_self, mul_mul_mul_comm]
  rw [encoded, estimate norm u out reads, signedDistance_along scale room unit scaled
    (by rw [moved, whole]), moved, ← square]
  exact congrArg some (by ring)

/-- The storage of the table holds `dim * 8` bytes from an aligned byte on. -/
theorem clear_inside (aligned : ∀ n, scratch.skew n < 64) (dim : ℕ) :
    dim * 8 ≤ (scratch.lutAligned (dim * 8 + 63)).size := by
  have skew := aligned (dim * 8 + 63)
  change dim * 8 ≤ dim * 8 + 63 - scratch.skew (dim * 8 + 63)
  omega

/-- Where the table fits, the query is prepared and its estimate exact. -/
theorem stage2Exact_of_fits (root : ∀ x, 0 ≤ arith.sqrt x)
    (pair : RotationPair est.dim.toNat (rotation.apply (decide (build = .avx512)) arith) B)
    (several : 0 < config.stage2PayloadBits) (aligned : ∀ n, scratch.skew n < 64)
    (positive : 0 < est.dim.toNat) (few : config.stage2PayloadBits.toNat ≤ 8)
    (fits : FusedLut.TableFits build est.dim.toNat
      (scratch.lutAligned (est.dim.toNat * 8 + 63)).size) :
    Stage2Exact build arith rng est rotation config pq scratch := by
  intro vec centroid t above guard
  have ends : est.dim.toNat + 64 < 2 ^ 32 := by
    have shift := fits.2
    omega
  obtain ⟨enc, built⟩ := ofConfig_some arith rng rotation positive several few
  obtain ⟨signs, maxAbs, run, normQc, rotated, reads, isMax⟩ :=
    prepareSigns_along pq root pair (by omega) above guard
  obtain ⟨table, stored⟩ := FusedLut.fusedLut_some isMax.above (clear_inside aligned _) fits
  obtain ⟨out, prepared⟩ : ∃ out, prepareFastScanQuery build est signs maxAbs scratch = some out :=
    ⟨_, by rw [prepareFastScanQuery, stored, Option.map_some]⟩
  refine ⟨enc, out, built, ?_, ?_⟩
  · rw [prepareQueryInto, run, Option.bind_some]
    exact prepared
  · rw [stage2Estimate_congr (prepareFastScanQuery_reads prepared)]
    exact stage2Estimate_along pair several built ends above normQc rotated reads

omit [FloorRing K] in
/-- The root of a dimension is not so large that its inverse is tiny. -/
theorem inverse_root_large (root : ∀ x, 0 ≤ arith.sqrt x) {n : ℕ} (positive : 0 < n)
    (below : n < 2 ^ 32) :
    0 < 1 / arith.sqrt (n : K) ∧ ¬ 1 / arith.sqrt (n : K) < lit 1e-10 ∧
      1 / arith.sqrt (n : K) * (1 / arith.sqrt (n : K)) * n = 1 := by
  have cast : (0 : K) < n := Nat.cast_pos.2 positive
  have square := arith.sqrt_mul_self (n : K) cast.le
  have nonzero : arith.sqrt (n : K) ≠ 0 := fun zero => by
    rw [zero, mul_zero] at square
    exact cast.ne square
  have size : 0 < arith.sqrt (n : K) := (root _).lt_of_ne' nonzero
  have bound : arith.sqrt (n : K) < 65536 := by
    by_contra far
    have product := mul_le_mul (not_lt.1 far) (not_lt.1 far) (by norm_num) (root _)
    have count : (n : K) < 4294967296 := by exact_mod_cast below
    rw [square] at product
    linarith
  refine ⟨one_div_pos.2 size, not_lt.2 ?_, ?_⟩
  · rw [le_div_iff₀ size]
    have tiny : (lit 1e-10 : K) * 65536 ≤ 1 := by norm_num [lit]
    have guard : (0 : K) < lit 1e-10 := lit_pos (by norm_num)
    have product := mul_le_mul_of_nonneg_left bound.le guard.le
    linarith
  · nth_rewrite 3 [← square]
    field_simp

/-- The record opposite to the diagonal needs all the room there is. -/
theorem fits_of_stage2Exact (root : ∀ x, 0 ≤ arith.sqrt x)
    (pair : RotationPair est.dim.toNat (rotation.apply (decide (build = .avx512)) arith) B)
    (several : 0 < config.stage2PayloadBits) (positive : 0 < est.dim.toNat)
    (exact : Stage2Exact build arith rng est rotation config pq scratch) :
    config.stage2PayloadBits.toNat ≤ 8 ∧ FusedLut.TableFits build est.dim.toNat
      (scratch.lutAligned (est.dim.toNat * 8 + 63)).size := by
  obtain ⟨inverse, large, square⟩ := inverse_root_large root positive est.dim.toNat_lt
  generalize 1 / arith.sqrt (est.dim.toNat : K) = x at inverse large square
  -- the rotated query has the same lowest value in every place
  let lowest : ℕ → K := fun _ => -x
  have unit : sqDistance est.dim.toNat (B lowest) (fun _ => 0) = 1 := by
    simp only [sqDistance, sub_zero]
    change dot est.dim.toNat (B lowest) (B lowest) = 1
    rw [← pair.dot, dot_congr (pair.forth lowest) (pair.forth lowest)]
    change ∑ _i ∈ range est.dim.toNat, -x * -x = 1
    rw [sum_const, card_range, nsmul_eq_mul, neg_mul_neg, mul_comm, square]
  have norm : arith.sqrt (sqDistance est.dim.toNat (B lowest) fun _ => 0) = 1 := by
    have product := arith.sqrt_mul_self 1 zero_le_one
    nth_rewrite 3 [← one_mul (1 : K)] at product
    rw [unit]
    exact (mul_self_inj (root 1) zero_le_one).1 product
  have above : lit 1e-30 < arith.sqrt (sqDistance est.dim.toNat (B lowest) fun _ => 0) := by
    rw [norm]
    norm_num [lit]
  have guard : lit 1e-30 < |(1 : K)| *
      arith.sqrt (sqDistance est.dim.toNat (B lowest) fun _ => 0) := by
    rw [abs_one, one_mul]
    exact above
  obtain ⟨enc, out, built, prepared, -⟩ := exact (B lowest) (fun _ => 0) 1 above (.inr guard)
  refine ⟨(stage2Encoder_of_config build built several).few, ?_⟩
  rw [prepareQueryInto] at prepared
  have ends : est.dim.toNat + 63 < 2 ^ 32 := by
    by_contra wraps
    rw [prepareSigns_wraps (not_lt.1 wraps), Option.bind_none] at prepared
    cases prepared
  obtain ⟨signs, maxAbs, run, -, rotated, -, isMax⟩ :=
    prepareSigns_along pq root pair ends above (.inr guard)
  rw [run, Option.bind_some] at prepared
  have low : ∀ d, d < est.dim.toNat → signs.rotated d = -x := by
    intro d inside
    rw [rotated d inside, if_neg one_ne_zero, abs_one, div_one, mul_one]
    refine (pair.congr (fun i _ => ?_) inside).trans (pair.forth lowest d inside)
    refine (congrFun (if_pos above) i).trans ?_
    change (B lowest i - 0) * (1 / arith.sqrt (sqDistance est.dim.toNat (B lowest) fun _ => 0)) = _
    rw [norm, sub_zero, div_one, mul_one]
  have top : maxAbs = x := by
    have least := isMax.above 0 positive
    rw [low 0 positive, abs_neg, abs_of_pos inverse] at least
    rcases isMax.attained with zero | ⟨d, inside, same⟩
    · exact absurd (zero ▸ least) (not_le.2 inverse)
    · rw [same, low d inside, abs_neg, abs_of_pos inverse]
  subst top
  obtain ⟨table, stored, -⟩ := Option.map_eq_some_iff.1 prepared
  exact FusedLut.tableFits_of_lowest low large stored

/-- **Stage 2 is exact along a record's own direction exactly where** the scale of the code is
computed and the query's table fits, in every build and both modes. -/
theorem stage2Exact_iff (build : Build) (root : ∀ x, 0 ≤ arith.sqrt x) (rng : Rng K)
    (est : RaBitQEstimator)
    (pair : RotationPair est.dim.toNat (rotation.apply (decide (build = .avx512)) arith) B)
    (several : 0 < config.stage2PayloadBits) (pq : PreparedQuery K)
    (aligned : ∀ n, scratch.skew n < 64) :
    Stage2Exact build arith rng est rotation config pq scratch ↔
      est.dim = 0 ∨ config.stage2PayloadBits.toNat ≤ 8 ∧
        FusedLut.TableFits build est.dim.toNat
          (scratch.lutAligned (est.dim.toNat * 8 + 63)).size := by
  by_cases zero : est.dim = 0
  · refine iff_of_true (fun vec centroid t above _ => ?_) (.inl zero)
    have none : sqDistance est.dim.toNat vec centroid = 0 := by
      rw [zero]
      rfl
    have square := arith.sqrt_mul_self 0 le_rfl
    rw [none, mul_self_eq_zero.1 square] at above
    exact absurd above (not_lt.2 (lit_pos (by norm_num)).le)
  · have positive : 0 < est.dim.toNat := Nat.pos_of_ne_zero fun none =>
      zero (UInt32.toNat_inj.1 none)
    rw [or_iff_right zero]
    exact ⟨fits_of_stage2Exact root pair several positive, fun ⟨few, fits⟩ =>
      stage2Exact_of_fits root pair several aligned positive few fits⟩

end Law

/-- The law for six dimensions, four legacy bits and a table that starts with its storage. -/
theorem stage2Exact_six :
    Stage2Exact .avx512 realArith oneRng ⟨6, 1⟩ sixRotation { bits := 4 } (blankQuery ℝ)
      ⟨Buffer.zeros 0, fun _ => 0⟩ := by
  refine (stage2Exact_iff .avx512 (fun x => Real.sqrt_nonneg x) oneRng ⟨6, 1⟩ sixRotation_pair
    (by decide) (blankQuery ℝ) fun _ => (by decide : 0 < 64)).2
    (.inr ⟨by decide, fun g group => ?_, by decide⟩)
  obtain rfl : g = 0 := Nat.lt_one_iff.1 group
  decide

/-- **The high bytes of a group can lie past the table**: at six dimensions with AVX-512 they end
at byte 80 of the aligned storage, which has 63 bytes where the first aligned byte is byte 48. -/
theorem stage2_not_exact :
    ¬ Stage2Exact .avx512 realArith oneRng ⟨6, 1⟩ sixRotation oneExtraBit (blankQuery ℝ)
      ⟨Buffer.zeros 0, fun _ => 48⟩ := by
  intro exact
  obtain ⟨-, inside, -⟩ := fits_of_stage2Exact (fun x => Real.sqrt_nonneg x) sixRotation_pair
    (by decide) (by decide) exact
  exact absurd (inside 0 (by decide)) (by decide)

end VecFetch.Rabitq.Estimator
