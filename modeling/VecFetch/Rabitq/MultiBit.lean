/-
# Rabitq.MultiBit -- the stage-2 estimate of legacy codes

A legacy code of several bits keeps the size of each coordinate in its extra code and the signs
packed beside it; `EstimateDistanceMultiBit` multiplies both with the query.  Its distance is
that of the signed code vector, as it is for official codes.

Arithmetic is exact.  A result of `none` is a load outside a buffer, or a loop that does not
end.
-/
import VecFetch.Rabitq.Estimator
import VecFetch.Rabitq.Official
import VecFetch.Simd.IpExRaBitQ

namespace VecFetch.Rabitq

open VecFetch.Theory VecFetch.Simd Finset

set_option autoImplicit false

/-! ## The estimate -/

section Estimate

variable {K : Type} [Field K] [LinearOrder K]

/-- `code_stored`: the bits of a coordinate in all planes, the first plane on top. -/
def codeStored (codeWords : List UInt64) (wpp bits i : ℕ) : ℕ :=
  (List.range bits).foldl
    (fun stored p =>
      stored ||| ((codeWords.getD (p * wpp + i / 64) 0).toNat >>> (i % 64) &&& 1) <<<
        (bits - 1 - p)) 0

/-- `recon`: the signed value of a stored code. -/
def reconstruct (bits stored : ℕ) : K :=
  let maxCode : ℤ := 2 ^ bits - 1
  let positive := (stored >>> (bits - 1)) &&& 1 ≠ 0
  let sign : K := if positive then 1 else -1
  let codeAbs : ℤ := if positive then stored else maxCode - stored
  sign * ((codeAbs : K) + lit 0.5)

/-- `EstimateDistanceMultiBitRaw`, on the words of a code. -/
def estimateDistanceMultiBitRaw (dim : UInt32) (pq : PreparedQuery K) (codeWords : List UInt64)
    (wpp : UInt32) (bits : UInt8) (normOc xipnorm : K) : Option K :=
  if dim = 0 ∨ bits = 0 ∨
      (bits.toNat - 1) * wpp.toNat + (dim.toNat - 1) / 64 < codeWords.length then
    let ipRaw := sumTo dim.toNat fun i =>
      pq.rotated i * reconstruct bits.toNat (codeStored codeWords wpp.toNat bits.toNat i)
    let ipEst := ipRaw * xipnorm
    let distSq := normOc * normOc + pq.normQcSq - lit 2.0 * normOc * pq.normQc * ipEst
    some (stdMax distSq 0)
  else none

/-- `EstimateDistanceMultiBit`: against the extra code, or the planes where there is none. -/
def estimateDistanceMultiBit (build : Build) (est : Estimator.RaBitQEstimator)
    (pq : PreparedQuery K) (code : EncodedVector K) : Option K :=
  if ¬ code.exCode.isEmpty then
    (ipExRaBitQPackedSign build pq.rotated code.exCode code.exSignPacked est.dim).map fun ipRaw =>
      let ipEst := ipRaw * code.xipnorm
      let distSq := code.norm * code.norm + pq.normQcSq - lit 2.0 * code.norm * pq.normQc * ipEst
      stdMax distSq 0
  else
    estimateDistanceMultiBitRaw est.dim pq code.code est.wordsPerPlane code.bits code.norm
      code.xipnorm

end Estimate

/-! ## The packed signs -/

section Signs

theorem packedSign_or {packed : List UInt8} {i : ℕ} (inside : i / 8 < packed.length) (d : ℕ) :
    packedSign (packed.modify (i / 8) fun b => b ||| (1 : UInt8) <<< UInt8.ofNat (i % 8)) d =
      (packedSign packed d || decide (d = i)) := by
  have entry : (packed.modify (i / 8) fun b => b ||| (1 : UInt8) <<< UInt8.ofNat (i % 8)).getD
      (d / 8) 0 = if d / 8 = i / 8 then packed.getD (d / 8) 0 ||| (1 : UInt8) <<< UInt8.ofNat (i % 8)
        else packed.getD (d / 8) 0 := by
    rw [List.getD_eq_getElem?_getD, List.getElem?_modify, List.getD_eq_getElem?_getD]
    by_cases same : d / 8 = i / 8
    · rw [if_pos same, same, List.getElem?_eq_getElem inside]
      simp
    · have same' : ¬ i / 8 = d / 8 := fun same' => same same'.symm
      simp [same, same']
  rw [packedSign, entry]
  by_cases same : d / 8 = i / 8
  · rw [if_pos same, UInt8.toNat_or, Nat.testBit_or, UInt8.toNat_shiftLeft, UInt8.toNat_ofNat',
      Nat.mod_eq_of_lt (show i % 8 < 2 ^ 8 by omega), Nat.mod_mod,
      show UInt8.toNat 1 = 1 from rfl, Nat.testBit_mod_two_pow, Nat.one_shiftLeft,
      Nat.testBit_two_pow, decide_eq_true (show d % 8 < 8 by omega), Bool.true_and, packedSign]
    congr 1
    exact decide_eq_decide.2 (by omega)
  · rw [if_neg same, packedSign, decide_eq_false (show ¬ d = i by omega), Bool.or_false]

variable {K : Type} [Field K] [LinearOrder K]

/-- **The packed signs are those of the coordinates.** -/
theorem packExSignBits_spec (rotated : ℕ → K) {dim d : ℕ} (inside : d < dim) :
    packedSign (packExSignBits rotated dim) d = decide (0 ≤ rotated d) := by
  have upTo : ∀ n, n ≤ dim → ∀ packed, packed = (List.range n).foldl
      (fun packed i =>
        if 0 ≤ rotated i then
          packed.modify (i / 8) fun b => b ||| (1 : UInt8) <<< UInt8.ofNat (i % 8)
        else packed) (List.replicate ((dim + 7) / 8) 0) →
      packed.length = (dim + 7) / 8 ∧
        ∀ d, packedSign packed d = decide (d < n ∧ 0 ≤ rotated d) := by
    intro n
    induction n with
    | zero =>
        rintro - packed rfl
        refine ⟨List.length_replicate, fun d => ?_⟩
        have zero : (List.replicate ((dim + 7) / 8) (0 : UInt8)).getD (d / 8) 0 = 0 := by
          rw [List.getD_eq_getElem?_getD, List.getElem?_replicate]
          split <;> rfl
        change packedSign (List.replicate ((dim + 7) / 8) 0) d = _
        rw [packedSign, zero]
        simp
    | succ n ih =>
        intro le packed run
        obtain ⟨length, bits⟩ := ih (Nat.le_of_succ_le le) _ rfl
        rw [List.range_succ, List.foldl_append, List.foldl_cons, List.foldl_nil] at run
        generalize (List.range n).foldl _ _ = before at length bits run
        subst run
        split
        next sign =>
          refine ⟨(List.length_modify ..).trans length, fun d => ?_⟩
          rw [packedSign_or (by omega), bits, ← Bool.decide_or, decide_eq_decide,
            below_succ_and fun d => 0 ≤ rotated d, and_iff_left sign]
        next sign =>
          refine ⟨length, fun d => ?_⟩
          rw [bits, decide_eq_decide, below_succ_and fun d => 0 ≤ rotated d,
            or_iff_left fun new => sign new.2]
  have all := (upTo dim le_rfl _ rfl).2 d
  simp only [inside, true_and] at all
  exact all

end Signs

/-! ## Legacy codes -/

section Legacy

variable {K : Type} [Field K] [LinearOrder K] [IsStrictOrderedRing K] [FloorRing K]

/-- An encoder of legacy codes of several bits. -/
structure LegacyEncoder (enc : RaBitQEncoder K) : Prop where
  legacy : enc.official1PlusN = false
  many : 1 < enc.bits
  dim_pos : 0 < enc.dim
  few : enc.bits.toNat ≤ 8
  maxCode : enc.maxCode = 2 ^ enc.bits.toNat - 1
  scale : 0 ≤ enc.tConst

/-- **An encoder built from a legacy configuration** of several bits has at most eight. -/
theorem legacyEncoder_of_config {arith : ExactArith K} {rng : Rng K} {dim : ℕ}
    {rotation : RotationMatrix K} {config : RaBitQConfig} {enc : RaBitQEncoder K}
    (built : RaBitQEncoder.ofConfig arith rng dim rotation config = some enc)
    (legacy : config.usesOfficial1PlusN = false) (many : 1 < config.bits) :
    LegacyEncoder enc ∧ enc.bits = config.bits ∧ enc.dim = dim := by
  have payload : config.stage2PayloadBits = config.bits := by
    rw [RaBitQConfig.stage2PayloadBits, legacy, if_neg Bool.false_ne_true, if_pos many]
  have active : config.activeCodeBits = config.bits := by
    rw [RaBitQConfig.activeCodeBits, payload, if_pos (UInt8.lt_trans (by decide) many)]
  obtain ⟨base, ofBits, built⟩ := Option.bind_eq_some_iff.1 built
  rw [active, RaBitQEncoder.ofBits] at ofBits
  dsimp only at ofBits
  rw [if_pos many] at ofBits
  obtain ⟨t, computed, rfl⟩ := Option.map_eq_some_iff.1 ofBits
  dsimp only at built
  rw [legacy, if_neg fun both => Bool.false_ne_true both.1] at built
  obtain rfl := Option.some.inj built
  have known := computeTConst_bits arith computed
  exact ⟨⟨rfl, many, known.1, known.2, rfl, computeTConst_nonneg arith computed⟩, rfl, rfl⟩

namespace LegacyEncoder

variable {enc : RaBitQEncoder K} (legacy : LegacyEncoder enc) (norm : K)
  (rotated query : ℕ → K)

include legacy

omit [IsStrictOrderedRing K] in
theorem encoded :
    (enc.encodeRotated norm rotated).exCode =
        fastQuantizeCodes (fun i => |rotated i|) enc.dim enc.maxCode enc.tConst ∧
      (enc.encodeRotated norm rotated).exSignPacked = packExSignBits rotated enc.dim ∧
      (enc.encodeRotated norm rotated).xipnorm =
        fastQuantizeXipnorm (fun i => |rotated i|) enc.dim enc.maxCode enc.tConst ∧
      (enc.encodeRotated norm rotated).norm = norm := by
  have several : ¬ enc.bits = 1 := fun one => by
    have many := legacy.many
    rw [one] at many
    exact absurd many (by decide)
  unfold RaBitQEncoder.encodeRotated RaBitQEncoder.encodePlanes
  dsimp only
  rw [if_neg several, legacy.legacy, if_neg Bool.false_ne_true, legacy.maxCode]
  exact ⟨rfl, rfl, rfl, rfl⟩

/-- The extra code is the size of the coordinate. -/
theorem exCode {d : ℕ} (inside : d < enc.dim) :
    (((enc.encodeRotated norm rotated).exCode.getD d 0).toNat : ℤ) =
      scaledCode enc.tConst enc.maxCode |rotated d| := by
  have top : enc.maxCode < 256 := by
    have power : (2 : ℕ) ^ enc.bits.toNat ≤ 2 ^ 8 := Nat.pow_le_pow_right (by decide) legacy.few
    rw [legacy.maxCode]
    have cast : (2 : ℤ) ^ enc.bits.toNat = ((2 ^ enc.bits.toNat : ℕ) : ℤ) := by push_cast; rfl
    omega
  have room : 0 ≤ enc.maxCode := by
    have := @Int.pow_pos 2 enc.bits.toNat (by decide)
    have := legacy.maxCode
    omega
  have low := scaledCode_nonneg legacy.scale (abs_nonneg (rotated d)) room
  have high := scaledCode_le enc.tConst |rotated d| enc.maxCode
  rw [(legacy.encoded norm rotated).1, fastQuantizeCodes, List.getD_eq_getElem?_getD,
    List.getElem?_map, List.getElem?_range inside, Option.map_some, Option.getD_some, UInt8.ofInt,
    UInt8.toNat_ofNat']
  omega

/-- The product with the extra code and the packed signs is the one with the signed code. -/
theorem signedInner_eq :
    signedInner query (enc.encodeRotated norm rotated).exCode
      (enc.encodeRotated norm rotated).exSignPacked enc.dim = signedIp enc rotated query := by
  refine sum_congr rfl fun i inside => ?_
  have inside' := mem_range.1 inside
  have code := congrArg (Int.cast (R := K)) (legacy.exCode norm rotated inside')
  rw [Int.cast_natCast] at code
  rw [code, (legacy.encoded norm rotated).2.1, signedAt, packExSignBits_spec rotated inside',
    signedCode, signedQuery]
  by_cases negative : rotated i < 0
  · rw [decide_eq_false (not_le.2 negative), if_neg Bool.false_ne_true, if_pos negative]
    ring
  · rw [decide_eq_true (not_lt.1 negative), if_pos rfl, if_neg negative]
    ring

/-- **The estimate of a legacy code is the distance of its signed code vector.** -/
theorem estimate_eq (build : Build) {est : Estimator.RaBitQEstimator} (normQc : K)
    (dims : enc.dim = est.dim.toNat) (ends : est.dim.toNat + 64 < 2 ^ 32) :
    estimateDistanceMultiBit build est (prepareRotated enc.dim query normQc)
        (enc.encodeRotated norm rotated) =
      some (signedDistance enc norm rotated (prepareRotated enc.dim query normQc)
        (signedIp enc rotated query)) := by
  obtain ⟨exCode, -, xipnorm, norms⟩ := legacy.encoded norm rotated
  have held : (enc.encodeRotated norm rotated).exCode.isEmpty = false := by
    rw [exCode, List.isEmpty_eq_false_iff]
    refine List.ne_nil_of_length_pos ?_
    rw [fastQuantizeCodes, List.length_map, List.length_range]
    exact legacy.dim_pos
  rw [estimateDistanceMultiBit, held, if_pos (by decide), ipExRaBitQPackedSign_eq _ _ _ _ ends,
    Option.map_some, ← dims, prepareRotated, legacy.signedInner_eq, xipnorm, norms,
    fastQuantizeXipnorm_eq, signedDistance]
  dsimp only
  rw [stdMax_eq]
  exact congrArg (fun x => some (max x 0)) (by ring)

end LegacyEncoder

end Legacy

end VecFetch.Rabitq
