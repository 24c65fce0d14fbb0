/-
# Rabitq.Official -- the stage-2 estimate of official codes

The estimate of an official code joins three sums: the query over the set sign bits, scaled
by the range of the extra code, the query against the sign-folded extra code, and a bias
times the sum of the query.  Joined, they are the inner product of the query with the
signed code vector that was encoded (`official_estimate_law`).

The estimator sums the query itself over the sign bits.  The prober passes on what FastScan
has summed in stage 1, which is the query quantised to 14 bits, so its estimate is off by
the error of that sum (`fastScan_estimate_differs`).
-/
import VecFetch.Rabitq.EncoderLaws
import VecFetch.Rabitq.RotationSound
import VecFetch.Simd.FastScanExact
import VecFetch.Simd.Stage1

namespace VecFetch.Rabitq

open VecFetch.Theory VecFetch.Simd Finset

set_option autoImplicit false

/-! ## The query -/

section Query

variable {K : Type} [Field K] [LinearOrder K] [FloorRing K]

/-- The largest absolute value, from zero on. -/
def maxAbs (query : ℕ → K) (dim : ℕ) : K :=
  (List.range dim).foldl (fun vmax i => if vmax < |query i| then |query i| else vmax) 0

/-- A value of `QuantizeQuery14BitWithMax`, rounded to the nearest. -/
def quantValue (vmax q : K) : ℤ :=
  if vmax < lit 1e-10 then 0
  else
    let tmp := q * (1 / (vmax / lit 8191.0))
    toInt (tmp + lit 0.5 - if tmp < 0 then 1 else 0)

/-- The width `QuantizeQuery14BitWithMax` returns. -/
def quantWidth (vmax : K) : K := if vmax < lit 1e-10 then 1 else vmax / lit 8191.0

omit [FloorRing K] in
theorem foldl_max_le (query : ℕ → K) (dim : ℕ) :
    ∀ d, d < dim → |query d| ≤ maxAbs query dim := by
  induction dim with
  | zero => exact fun d none => absurd none (Nat.not_lt_zero d)
  | succ n ih =>
      intro d inside
      rw [maxAbs, List.range_succ, List.foldl_append, List.foldl_cons, List.foldl_nil, ← maxAbs]
      rcases Nat.lt_succ_iff_lt_or_eq.1 inside with below | rfl
      · split
        · exact (ih d below).trans (le_of_lt ‹_›)
        · exact ih d below
      · split
        · exact le_rfl
        · exact not_lt.1 ‹_›

theorem quantValue_range [IsStrictOrderedRing K] {vmax q : K} (below : |q| ≤ vmax) :
    -8191 ≤ quantValue vmax q ∧ quantValue vmax q ≤ 8191 := by
  unfold quantValue
  split
  · decide
  next large =>
    have positive : 0 < vmax := (lit_pos (by norm_num)).trans_le (not_lt.1 large)
    obtain ⟨low, high⟩ := abs_le.1 below
    have most : (lit 8191.0 : K) = 8191 := by norm_num [lit]
    have scale : q * (1 / (vmax / lit 8191.0)) = q / vmax * 8191 := by
      rw [most]
      field_simp
    have tmpLow : -8191 ≤ q / vmax * 8191 := by
      have : -1 ≤ q / vmax := (le_div_iff₀ positive).2 (by linarith)
      linarith
    have tmpHigh : q / vmax * 8191 ≤ 8191 := by
      have : q / vmax ≤ 1 := (div_le_one positive).2 high
      linarith
    have half : (lit 0.5 : K) = 1 / 2 := by norm_num [lit]
    dsimp only
    rw [scale, half]
    generalize q / vmax * 8191 = tmp at tmpLow tmpHigh
    have near : -8191 - 1 / 2 ≤ tmp + 1 / 2 - (if tmp < 0 then 1 else 0) ∧
        tmp + 1 / 2 - (if tmp < 0 then 1 else 0) ≤ 8191 + 1 / 2 := by
      split
      · constructor <;> linarith
      · constructor <;> linarith
    generalize tmp + 1 / 2 - (if tmp < 0 then 1 else 0) = x at near
    unfold toInt
    split
    next nonneg =>
      have floor : ⌊x⌋ < 8192 := Int.floor_lt.2 (by push_cast; linarith)
      have := Int.floor_nonneg.2 nonneg
      omega
    next negative =>
      have low' : -8192 < ⌈x⌉ := Int.lt_ceil.2 (by push_cast; linarith)
      have high' : ⌈x⌉ ≤ 0 := Int.ceil_le.2 (by push_cast; linarith)
      omega

/-- `QuantizeQuery14BitWithMax` on the query's own largest value. -/
def quantizeQuery14Bit [IsStrictOrderedRing K] (query : ℕ → K) (dim : ℕ) : QuantQuery where
  value d := if d < dim then quantValue (maxAbs query dim) (query d) else 0
  range d := by
    split
    · exact quantValue_range (foldl_max_le query dim d ‹_›)
    · decide

end Query

/-! ## The estimate -/

section Estimate

variable {K : Type} [Field K] [LinearOrder K]

/-- What an estimate reads of a prepared query. -/
structure PreparedQuery (K : Type) where
  rotated : ℕ → K
  normQc : K
  normQcSq : K
  sumQ : K

/-- The prepared query of a rotated query and its distance to the centroid. -/
def prepareRotated (dim : ℕ) (rotated : ℕ → K) (normQc : K) : PreparedQuery K where
  rotated := rotated
  normQc := normQc
  normQcSq := normQc * normQc
  sumQ := sumTo dim rotated

def officialRaBitQExBias (exBits : UInt8) : K := -(((2 ^ exBits.toNat : ℕ) : K) - lit 0.5)

def officialRaBitQCombineNormalizedIP (ipX0Qr ipExCode sumQ : K) (exBits : UInt8) : K :=
  ((2 ^ exBits.toNat : ℕ) : K) * ipX0Qr + ipExCode + officialRaBitQExBias exBits * sumQ

def officialRaBitQEstimateDistance (queryNormSq factorAdd factorRescale exIp : K) : K :=
  let dist := queryNormSq + factorAdd + factorRescale * exIp
  if 0 < dist then dist else 0

def ipOfficialRaBitQExData (query : ℕ → K) (exCode : List UInt8) (dim : ℕ) : K :=
  sumTo dim fun i => query i * ((exCode.getD i 0).toNat : K)

/-- The loop of `EstimateDistanceOfficial1PlusN` over the sign bits. -/
def signIp (query : ℕ → K) (code : List UInt64) (dim : ℕ) : K :=
  (List.range dim).foldl
    (fun ip i =>
      if i / 64 < code.length ∧
          (code.getD (i / 64) 0 >>> UInt64.ofNat (i % 64)) &&& 1 ≠ 0 then ip + query i
      else ip) 0

/-- `EstimateDistanceOfficial1PlusN`. -/
def estimateDistanceOfficial1PlusN (dim : ℕ) (pq : PreparedQuery K) (code : EncodedVector K)
    (exBits : UInt8) : Except String K :=
  if 0 < exBits ∧ code.exCode.isEmpty then
    .error "official RaBitQ Stage2 estimate requires sign-folded ExData"
  else
    let ipX0Qr := signIp pq.rotated code.code dim
    let ipEx := if 0 < exBits then ipOfficialRaBitQExData pq.rotated code.exCode dim else 0
    let normalizedIp := officialRaBitQCombineNormalizedIP ipX0Qr ipEx pq.sumQ exBits
    let factorAdd := if 0 < code.exFactorAdd then code.exFactorAdd else code.norm * code.norm
    let factorRescale :=
      if code.exFactorRescale ≠ 0 then code.exFactorRescale
      else lit (-2.0) * code.norm * code.xipnorm
    .ok (officialRaBitQEstimateDistance pq.normQcSq factorAdd factorRescale
      (pq.normQc * normalizedIp))

/-- `official_est_dist` of the prober, on the FastScan sum and the extra code's. -/
def officialEstDist (pq : PreparedQuery K) (ipX0Qr ipRaw factorAdd factorRescale : K)
    (exBits : UInt8) : K :=
  let normalizedIp := officialRaBitQCombineNormalizedIP ipX0Qr ipRaw pq.sumQ exBits
  officialRaBitQEstimateDistance pq.normQcSq factorAdd factorRescale (pq.normQc * normalizedIp)

end Estimate

/-! ## The signed code vector -/

section Signed

variable {K : Type} [Field K] [LinearOrder K] [FloorRing K]

/-- `sgn_i * (abs_code_i + 1/2)`. -/
def signedCode (enc : RaBitQEncoder K) (rotated : ℕ → K) (i : ℕ) : K :=
  (if rotated i < 0 then -1 else 1) *
    ((scaledCode enc.tConst enc.maxCode |rotated i| : K) + lit 0.5)

/-- The inner product with the signed code vector. -/
def signedIp (enc : RaBitQEncoder K) (rotated query : ℕ → K) : K :=
  ∑ i ∈ range enc.dim, query i * signedCode enc rotated i

/-- The scale of the signed code vector: what makes its product with the vector itself one. -/
def signedScale (enc : RaBitQEncoder K) (rotated : ℕ → K) : K :=
  if lit 1e-30 < signedIp enc rotated rotated then 1 / signedIp enc rotated rotated else 1

/-- The distance at a normalised inner product, with the factors of the signed code vector. -/
def signedDistance (enc : RaBitQEncoder K) (norm : K) (rotated : ℕ → K) (pq : PreparedQuery K)
    (normalizedIp : K) : K :=
  max (pq.normQc * pq.normQc + norm * norm -
    lit 2.0 * norm * signedScale enc rotated * (pq.normQc * normalizedIp)) 0

/-- The query summed over the coordinates that are not negative. -/
def signSum (dim : ℕ) (rotated query : ℕ → K) : K :=
  ∑ i ∈ range dim, if 0 ≤ rotated i then query i else 0

end Signed

/-! ## The law -/

section Law

variable {K : Type} [Field K] [LinearOrder K] [IsStrictOrderedRing K] [FloorRing K]

omit [IsStrictOrderedRing K] [FloorRing K] in
omit [LinearOrder K] in
/-- The estimator's test is the plane's bit. -/
theorem signIp_eq (query : ℕ → K) (code : List UInt64) (dim : ℕ) :
    signIp query code dim = ∑ i ∈ range dim, if planeBit code i = true then query i else 0 := by
  induction dim with
  | zero => rfl
  | succ n ih =>
      have test : (n / 64 < code.length ∧
          (code.getD (n / 64) 0 >>> UInt64.ofNat (n % 64)) &&& 1 ≠ 0) ↔ planeBit code n = true := by
        rw [planeBit, ← word_bit (Nat.mod_lt n (by decide))]
        refine and_iff_right_of_imp fun set => ?_
        by_contra outside
        rw [List.getD_eq_getElem?_getD, List.getElem?_eq_none (not_lt.1 outside)] at set
        exact set (by simp)
      rw [signIp, List.range_succ, List.foldl_append, List.foldl_cons, List.foldl_nil, ← signIp,
        ih, sum_range_succ]
      by_cases set : planeBit code n = true
      · rw [if_pos (test.2 set), if_pos set]
      · rw [if_neg (mt test.1 set), if_neg set, add_zero]

/-- A coordinate times its signed code. -/
theorem mul_signedCode (enc : RaBitQEncoder K) (rotated : ℕ → K) (i : ℕ) :
    rotated i * signedCode enc rotated i =
      ((scaledCode enc.tConst enc.maxCode |rotated i| : K) + lit 0.5) * |rotated i| := by
  rw [signedCode]
  by_cases negative : rotated i < 0
  · rw [if_pos negative, abs_of_neg negative]
    ring
  · rw [if_neg negative, abs_of_nonneg (not_lt.1 negative)]
    ring

/-- What the quantiser returns is the scale of the signed code vector. -/
theorem fastQuantizeXipnorm_eq (enc : RaBitQEncoder K) (rotated : ℕ → K) :
    fastQuantizeXipnorm (fun i => |rotated i|) enc.dim enc.maxCode enc.tConst =
      signedScale enc rotated := by
  have product : (sumTo enc.dim fun i =>
      ((scaledCode enc.tConst enc.maxCode |rotated i| : K) + lit 0.5) * |rotated i|) =
      signedIp enc rotated rotated := by
    rw [sumTo_eq, signedIp]
    exact sum_congr rfl fun i _ => (mul_signedCode enc rotated i).symm
  rw [fastQuantizeXipnorm, product, signedScale]

namespace OfficialEncoder

variable {enc : RaBitQEncoder K} (official : OfficialEncoder enc) (norm : K)
  (rotated query : ℕ → K)

include official

/-- One coordinate: its sign bit, its extra code and the bias make its signed code. -/
theorem coordinate {i : ℕ} (inside : i < enc.dim) :
    ((2 ^ enc.exBits.toNat : ℕ) : K) * (if 0 ≤ rotated i then 1 else 0) +
        (((enc.encodeRotated norm rotated).exCode.getD i 0).toNat : K) +
        officialRaBitQExBias enc.exBits = signedCode enc rotated i := by
  have code := congrArg (Int.cast (R := K)) (official.exCode norm rotated inside)
  have top : ((enc.maxCode : ℤ) : K) = ((2 ^ enc.exBits.toNat : ℕ) : K) - 1 := by
    rw [official.maxCode]
    push_cast
    rfl
  have half : (lit 0.5 : K) = 1 / 2 := by norm_num [lit]
  rw [Int.cast_natCast] at code
  rw [code, signedCode, officialRaBitQExBias, half]
  by_cases negative : rotated i < 0
  · rw [if_pos negative, if_pos negative, if_neg (not_le.2 negative), Int.cast_sub, top]
    ring
  · rw [if_neg negative, if_neg negative, if_pos (not_lt.1 negative)]
    ring

/-- The three sums are the inner product, with the exact sum over the sign bits. -/
theorem combine :
    officialRaBitQCombineNormalizedIP (signSum enc.dim rotated query)
      (ipOfficialRaBitQExData query (enc.encodeRotated norm rotated).exCode enc.dim)
      (sumTo enc.dim query) enc.exBits = signedIp enc rotated query := by
  rw [officialRaBitQCombineNormalizedIP, ipOfficialRaBitQExData, sumTo_eq, sumTo_eq, signSum,
    signedIp, mul_sum, mul_sum, ← sum_add_distrib, ← sum_add_distrib]
  refine sum_congr rfl fun i inside => ?_
  rw [← official.coordinate norm rotated (mem_range.1 inside)]
  split <;> ring

/-- The stored scale is that of the signed code vector. -/
theorem xipnorm : (enc.encodeRotated norm rotated).xipnorm = signedScale enc rotated :=
  (official.encoded norm rotated).1.2.trans (fastQuantizeXipnorm_eq enc rotated)

/-- The prober's estimate at any sum over the sign bits. -/
theorem officialEstDist_eq (normQc ipX0Qr : K) :
    officialEstDist (prepareRotated enc.dim query normQc) ipX0Qr
        (ipOfficialRaBitQExData query (enc.encodeRotated norm rotated).exCode enc.dim)
        (enc.encodeRotated norm rotated).exFactorAdd
        (enc.encodeRotated norm rotated).exFactorRescale enc.exBits =
      signedDistance enc norm rotated (prepareRotated enc.dim query normQc)
        (signedIp enc rotated query +
          ((2 ^ enc.exBits.toNat : ℕ) : K) * (ipX0Qr - signSum enc.dim rotated query)) := by
  have two : (lit (-2.0) : K) = -2 ∧ (lit 2.0 : K) = 2 := by constructor <;> norm_num [lit]
  rw [officialEstDist, officialRaBitQEstimateDistance, signedDistance,
    (official.encoded norm rotated).2.2.1, (official.encoded norm rotated).2.2.2,
    official.xipnorm, two.1, two.2, ← official.combine norm rotated query]
  simp only [prepareRotated, officialRaBitQCombineNormalizedIP]
  rw [max_comm, max_def_lt]
  exact congrArg (fun x => if 0 < x then x else 0) (by ring)

/-- The estimator's distance is that of the signed code vector. -/
theorem estimate_eq (normQc : K) :
    estimateDistanceOfficial1PlusN enc.dim (prepareRotated enc.dim query normQc)
        (enc.encodeRotated norm rotated) enc.exBits =
      .ok (signedDistance enc norm rotated (prepareRotated enc.dim query normQc)
        (signedIp enc rotated query)) := by
  have signs : signIp query (enc.encodeRotated norm rotated).code enc.dim =
      signSum enc.dim rotated query := by
    rw [signIp_eq, signSum]
    refine sum_congr rfl fun i inside => ?_
    rw [official.signs norm rotated (mem_range.1 inside)]
    simp only [decide_eq_true_eq]
  have exact := official.officialEstDist_eq norm rotated query normQc
    (signSum enc.dim rotated query)
  rw [sub_self, mul_zero, add_zero] at exact
  have held : (enc.encodeRotated norm rotated).exCode.isEmpty = false := by
    rw [(official.encoded norm rotated).1.1, List.isEmpty_eq_false_iff]
    refine List.ne_nil_of_length_pos ?_
    rw [foldSigns, List.length_mapIdx, fastQuantizeCodes, List.length_map, List.length_range]
    exact official.dim_pos
  rw [← exact, estimateDistanceOfficial1PlusN, if_neg (by simp [held])]
  dsimp only
  rw [if_pos official.some]
  change Except.ok (officialRaBitQEstimateDistance _ _ _ (_ * officialRaBitQCombineNormalizedIP
    (signIp query _ _) (ipOfficialRaBitQExData query _ _) _ _)) = _
  have add : (if 0 < (enc.encodeRotated norm rotated).exFactorAdd then
      (enc.encodeRotated norm rotated).exFactorAdd else
      (enc.encodeRotated norm rotated).norm * (enc.encodeRotated norm rotated).norm) =
      (enc.encodeRotated norm rotated).exFactorAdd := by
    rw [(official.encoded norm rotated).2.1, (official.encoded norm rotated).2.2.1,
      ite_self]
  have rescale : (if (enc.encodeRotated norm rotated).exFactorRescale ≠ 0 then
      (enc.encodeRotated norm rotated).exFactorRescale else
      lit (-2.0) * (enc.encodeRotated norm rotated).norm *
        (enc.encodeRotated norm rotated).xipnorm) =
      (enc.encodeRotated norm rotated).exFactorRescale := by
    rw [(official.encoded norm rotated).2.1, (official.encoded norm rotated).2.2.2,
      ite_self]
  rw [add, rescale, signs]
  rfl

end OfficialEncoder

end Law

/-! ## The estimates -/

section Estimates

variable {K : Type} [Field K] [LinearOrder K] [IsStrictOrderedRing K] [FloorRing K]

/-- What stage 1 hands on for a lane: its accumulator with the shift, times the width. -/
def fastScanIp (dim : ℕ) (query : ℕ → K) (lane : ℤ) : K := (lane : K) * quantWidth (maxAbs query dim)

omit [IsStrictOrderedRing K] [FloorRing K] in
theorem fastScanIp_eq {dim : ℕ} {query : ℕ → K} {raw : UInt32} (args : Stage1Args K)
    (width : args.fsWidth = quantWidth (maxAbs query dim)) :
    @ipX0Qr K (FloatArith.exact K) args raw = fastScanIp dim query (raw.toNat + args.fsShift) := by
  rw [fastScanIp, ← width, Int.cast_add]
  rfl

/-- What FastScan sums over the sign bits of a code it scans exactly: the quantised query. -/
theorem fastScan_signSum {build : Build} {enc : RaBitQEncoder K} (official : OfficialEncoder enc)
    {dim : ℕ} (dims : enc.dim = dim) (norm : K) (rotated query : ℕ → K) (pattern : K → UInt32)
    {block : CodeBlock dim} (exact : FastScanExact build dim (quantizeQuery14Bit query dim) block)
    {v : ℕ} (held : block.codes[v]? = some ((enc.encodeRotated norm rotated).stored pattern)) :
    ∃ lanes, fastScan build dim (quantizeQuery14Bit query dim) block.codes = some lanes ∧
      fastScanIp dim query (lanes v) =
        signSum dim rotated fun i =>
          (quantValue (maxAbs query dim) (query i) : K) * quantWidth (maxAbs query dim) := by
  obtain ⟨lanes, scanned, sums⟩ := exact
  refine ⟨lanes, scanned, ?_⟩
  rw [fastScanIp, sums v _ held, bitSum, signSum, Int.cast_sum, sum_mul]
  refine sum_congr rfl fun i inside => ?_
  have inside' := mem_range.1 inside
  rw [signBit_planeBit]
  change (((quantizeQuery14Bit query dim).value i *
    ((planeBit (enc.encodeRotated norm rotated).code i).toNat : ℤ) : ℤ) : K) * _ = _
  rw [official.signs norm rotated (dims ▸ inside'), quantizeQuery14Bit]
  dsimp only
  rw [if_pos inside']
  by_cases sign : 0 ≤ rotated i
  · simp [sign]
  · simp [sign]

/-- **The estimate of an official code is the signed reconstruction.**  The estimator's
distance is that of the signed code vector; the prober's normalised inner product differs
from the vector's by the error of the sum it is given over the sign bits, scaled by the
range of the extra code, and its distance accordingly. -/
theorem official_estimate_law {arith : ExactArith K} {rng : Rng K} {dim : ℕ}
    {rotation : RotationMatrix K} {config : RaBitQConfig} {enc : RaBitQEncoder K}
    (built : RaBitQEncoder.ofConfig arith rng dim rotation config = some enc)
    (official : config.usesOfficial1PlusN = true) (some : 0 < config.exBits)
    (norm : K) (rotated query : ℕ → K) (normQc : K) :
    estimateDistanceOfficial1PlusN dim (prepareRotated dim query normQc)
        (enc.encodeRotated norm rotated) config.exBits =
      .ok (signedDistance enc norm rotated (prepareRotated dim query normQc)
        (signedIp enc rotated query)) ∧
    ∀ ipX0Qr,
      officialRaBitQCombineNormalizedIP ipX0Qr
          (ipOfficialRaBitQExData query (enc.encodeRotated norm rotated).exCode dim)
          (prepareRotated dim query normQc).sumQ config.exBits =
        signedIp enc rotated query +
          ((2 ^ config.exBits.toNat : ℕ) : K) * (ipX0Qr - signSum dim rotated query) ∧
      officialEstDist (prepareRotated dim query normQc) ipX0Qr
          (ipOfficialRaBitQExData query (enc.encodeRotated norm rotated).exCode dim)
          (enc.encodeRotated norm rotated).exFactorAdd
          (enc.encodeRotated norm rotated).exFactorRescale config.exBits =
        signedDistance enc norm rotated (prepareRotated dim query normQc)
          (signedIp enc rotated query +
            ((2 ^ config.exBits.toNat : ℕ) : K) * (ipX0Qr - signSum dim rotated query)) ∧
      (officialRaBitQCombineNormalizedIP ipX0Qr
          (ipOfficialRaBitQExData query (enc.encodeRotated norm rotated).exCode dim)
          (prepareRotated dim query normQc).sumQ config.exBits = signedIp enc rotated query ↔
        ipX0Qr = signSum dim rotated query) := by
  obtain ⟨enc_official, exBits, rfl⟩ := officialEncoder_of_config built official some
  rw [← exBits]
  have nip : ∀ ipX0Qr, officialRaBitQCombineNormalizedIP ipX0Qr
      (ipOfficialRaBitQExData query (enc.encodeRotated norm rotated).exCode enc.dim)
      (prepareRotated enc.dim query normQc).sumQ enc.exBits = signedIp enc rotated query +
        ((2 ^ enc.exBits.toNat : ℕ) : K) * (ipX0Qr - signSum enc.dim rotated query) := by
    intro ipX0Qr
    rw [← enc_official.combine norm rotated query]
    simp only [prepareRotated, officialRaBitQCombineNormalizedIP]
    ring
  have range : ((2 ^ enc.exBits.toNat : ℕ) : K) ≠ 0 :=
    Nat.cast_ne_zero.2 (pow_ne_zero _ (by decide))
  refine ⟨?_, fun ipX0Qr => ⟨nip ipX0Qr,
    enc_official.officialEstDist_eq norm rotated query normQc ipX0Qr, ?_⟩⟩
  · exact enc_official.estimate_eq norm rotated query normQc
  · rw [nip, add_eq_left, mul_eq_zero, or_iff_right range, sub_eq_zero]

end Estimates

/-! ### Eight coordinates -/

/-- An official code with one extra bit. -/
def oneExtraBit : RaBitQConfig where
  totalBits := 2
  exBits := 1
  estimatorMode := .official1PlusN

/-- An engine that draws ones. -/
def oneRng : Rng ℝ where
  coin _ := true
  normal _ := 1
  shuffle l := l
  shuffle_perm l := .refl l

theorem oneExtraBit_built : ∃ enc, RaBitQEncoder.ofConfig realArith oneRng 8
    { dim := 8, data := fun _ => 0 } oneExtraBit = some enc := by
  obtain ⟨t, computed⟩ := computeTConst_some realArith oneRng (show 0 < 8 by decide)
    (show 1 ≤ 8 by decide)
  have active : oneExtraBit.activeCodeBits = 1 := by decide
  have payload : oneExtraBit.stage2PayloadBits = 1 := by decide
  rw [RaBitQEncoder.ofConfig, active, RaBitQEncoder.ofBits]
  dsimp only
  rw [if_neg (by decide), Option.bind_some, payload, if_pos (by decide)]
  exact ⟨_, Option.map_eq_some_iff.2 ⟨t, computed, rfl⟩⟩

/-- The query `(1, 1/3, 0, …)`. -/
noncomputable def thirdQuery (i : ℕ) : ℝ := if i = 0 then 1 else if i = 1 then lit (1 / 3) else 0

/-- The law for it, and a vector without negative coordinates. -/
theorem official_estimate_law_one_extra_bit :
    ∃ enc, RaBitQEncoder.ofConfig realArith oneRng 8 { dim := 8, data := fun _ => 0 } oneExtraBit =
        some enc ∧
      estimateDistanceOfficial1PlusN 8 (prepareRotated 8 thirdQuery 1)
        (enc.encodeRotated 1 fun _ => 1) 1 =
      .ok (signedDistance enc 1 (fun _ => 1) (prepareRotated 8 thirdQuery 1)
        (signedIp enc (fun _ => 1) thirdQuery)) := by
  obtain ⟨enc, built⟩ := oneExtraBit_built
  exact ⟨enc, built, (official_estimate_law built rfl (by decide) 1 (fun _ => 1) thirdQuery 1).1⟩

theorem maxAbs_thirdQuery : maxAbs thirdQuery 8 = 1 := by
  have third : (lit (1 / 3) : ℝ) = 1 / 3 := by norm_num [lit]
  have values : ∀ i, |thirdQuery i| ≤ 1 := by
    intro i
    unfold thirdQuery
    rw [third]
    split
    · norm_num
    · split <;> norm_num [abs_of_pos]
  have upTo : ∀ n, maxAbs thirdQuery (n + 1) = 1 := by
    intro n
    induction n with
    | zero => norm_num [maxAbs, thirdQuery]
    | succ n ih =>
        rw [maxAbs, List.range_succ, List.foldl_append, List.foldl_cons, List.foldl_nil, ← maxAbs,
          ih, if_neg (not_lt.2 (values _))]
  exact upTo 7

theorem quantValue_thirdQuery :
    quantValue 1 (thirdQuery 0) = 8191 ∧ quantValue 1 (thirdQuery 1) = 2730 ∧
      quantValue (1 : ℝ) 0 = 0 := by
  have large : ¬ (1 : ℝ) < lit 1e-10 := by norm_num [lit]
  have most : (lit 8191.0 : ℝ) = 8191 := by norm_num [lit]
  have half : (lit 0.5 : ℝ) = 1 / 2 := by norm_num [lit]
  have third : (lit (1 / 3) : ℝ) = 1 / 3 := by norm_num [lit]
  unfold quantValue
  rw [if_neg large, if_neg large, if_neg large, most, half]
  refine ⟨?_, ?_, ?_⟩
  · norm_num [thirdQuery, toInt, Int.floor_eq_iff]
  · norm_num [thirdQuery, third, toInt, Int.floor_eq_iff]
  · norm_num [toInt, Int.floor_eq_iff]

/-- **FastScan sums a quantised query**: for the query `(1, 1/3, 0, …)` the prober's
normalised inner product is not the signed code vector's. -/
theorem fastScan_estimate_differs :
    ¬ ∀ enc, RaBitQEncoder.ofConfig realArith oneRng 8 { dim := 8, data := fun _ => 0 } oneExtraBit =
        some enc →
      ∀ (norm : ℝ) (rotated query : ℕ → ℝ) (normQc : ℝ) (pattern : ℝ → UInt32)
        (codes : List RaBitQCode) (lanes : ℕ → ℤ),
        codes = [(enc.encodeRotated norm rotated).stored pattern] →
        fastScan .avx2 8 (quantizeQuery14Bit query 8) codes = some lanes →
        officialRaBitQCombineNormalizedIP (fastScanIp 8 query (lanes 0))
            (ipOfficialRaBitQExData query (enc.encodeRotated norm rotated).exCode 8)
            (prepareRotated 8 query normQc).sumQ 1 = signedIp enc rotated query := by
  intro claim
  obtain ⟨enc, built⟩ := oneExtraBit_built
  obtain ⟨official, exBits, dims⟩ := officialEncoder_of_config built rfl (by decide)
  let block : CodeBlock 8 :=
    { codes := [(enc.encodeRotated 1 fun _ => 1).stored fun _ => 0]
      nonempty := Nat.one_pos
      count_le := by simp
      planes := by
        intro c held
        rw [List.mem_singleton.1 held]
        change _ ≤ (enc.encodeRotated 1 fun _ => 1).code.length
        have words := official.wordsPerPlane
        rw [encodeRotated_words, official.totalWords, official.bits, exBits, words, dims]
        decide }
  have exact := (fastScan_exact_dims (show Build.avx2 ≠ .scalar by decide) ⟨.inl ⟨3, rfl⟩, by decide⟩
    (by decide)).2 (by decide) (quantizeQuery14Bit thirdQuery 8) block
  obtain ⟨lanes, scanned, sums⟩ := fastScan_signSum official dims 1 (fun _ => 1) thirdQuery
    (fun _ => 0) exact (v := 0) rfl
  have same := claim enc built 1 (fun _ => 1) thirdQuery 1 (fun _ => 0) _ lanes rfl scanned
  have error := ((official_estimate_law built rfl (by decide) 1 (fun _ => 1) thirdQuery 1).2
    (fastScanIp 8 thirdQuery (lanes 0))).2.2.1 same
  have third : (lit (1 / 3) : ℝ) = 1 / 3 := by norm_num [lit]
  have width : quantWidth (1 : ℝ) = 1 / 8191 := by
    rw [quantWidth, if_neg (by norm_num [lit])]
    norm_num [lit]
  have rest : ∀ i, 2 ≤ i → thirdQuery i = 0 := by
    intro i high
    rw [thirdQuery, if_neg (by omega), if_neg (by omega)]
  rw [sums, maxAbs_thirdQuery, width] at error
  simp only [signSum, sum_range_succ, sum_range_zero, zero_le_one, if_true,
    quantValue_thirdQuery.1, quantValue_thirdQuery.2.1, rest 2 le_rfl, rest 3 (by decide),
    rest 4 (by decide), rest 5 (by decide), rest 6 (by decide), rest 7 (by decide),
    quantValue_thirdQuery.2.2] at error
  norm_num [thirdQuery, third] at error

end VecFetch.Rabitq
