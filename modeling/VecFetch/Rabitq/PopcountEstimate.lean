/-
# Rabitq.PopcountEstimate -- the popcount estimate is the inner product of signs

A prepared query holds the signs of its rotated vector, with the bits past the dimension
clear, and so does a code.  Whole words are compared, the padding cancels, and the bits that
differ give the inner product of the signs (`estimate_exact`).

`words_per_plane_` is taken in 32 bits.  For the last 63 dimensions it is zero, and the first
sign is stored outside an empty code; for dimension zero the estimate divides zero by zero.
The law holds for every other dimension (`popcountExact_iff`).
-/
import VecFetch.Rabitq.Estimator

namespace VecFetch.Rabitq.Estimator

open VecFetch.Theory VecFetch.Simd Finset

set_option autoImplicit false

/-! ## Bits that differ -/

section Bits

theorem popcount64_xor (x y : UInt64) :
    popcount64 (x ^^^ y) = ∑ d ∈ range 64, (x.toNat.testBit d ^^ y.toNat.testBit d).toNat := by
  rw [popcount64, UInt64.toNat_xor, bitCount]
  exact sum_congr rfl fun d _ => by rw [Nat.testBit_xor]

/-- The words that differ, bit by bit. -/
theorem differing_bits (a b : List UInt64) (n : ℕ) :
    differing (fun w => a.getD w 0) (fun w => b.getD w 0) 0 n =
      ∑ d ∈ range (64 * n), (planeBit a d ^^ planeBit b d).toNat := by
  induction n with
  | zero => simp [differing]
  | succ n ih =>
      have word : popcount64 (a.getD n 0 ^^^ b.getD n 0) =
          ∑ d ∈ range 64, (planeBit a (64 * n + d) ^^ planeBit b (64 * n + d)).toNat := by
        rw [popcount64_xor]
        refine sum_congr rfl fun d mem => ?_
        have below := mem_range.1 mem
        rw [planeBit, planeBit, show (64 * n + d) / 64 = n by omega,
          show (64 * n + d) % 64 = d by omega]
      rw [differing_add, ih, Nat.mul_succ, sum_range_add, ← word, differing, sum_range_one,
        Nat.add_zero]

/-- Bits that are clear on both sides do not differ. -/
theorem differing_padding {a b : List UInt64} {dim n : ℕ} (inside : dim ≤ 64 * n)
    (clear : ∀ d, dim ≤ d → planeBit a d = false) (clear' : ∀ d, dim ≤ d → planeBit b d = false) :
    differing (fun w => a.getD w 0) (fun w => b.getD w 0) 0 n =
      ∑ d ∈ range dim, (planeBit a d ^^ planeBit b d).toNat := by
  rw [differing_bits, ← Nat.add_sub_cancel' inside, sum_range_add]
  refine Nat.add_eq_left.2 (sum_eq_zero fun d _ => ?_)
  rw [clear _ (Nat.le_add_right dim d), clear' _ (Nat.le_add_right dim d)]
  rfl

end Bits

section Signs

variable {K : Type} [Field K]

/-- `-1` or `1`. -/
def signOf (positive : Bool) : K := if positive then 1 else -1

theorem signOf_mul (s o : Bool) : (signOf s * signOf o : K) = 1 - 2 * ((s ^^ o).toNat : K) := by
  cases s <;> cases o <;> norm_num [signOf]

/-- The inner product of two sign vectors counts where they differ. -/
theorem sum_signOf (s o : ℕ → Bool) (n : ℕ) :
    (∑ d ∈ range n, signOf (s d) * signOf (o d) : K) =
      n - 2 * ((∑ d ∈ range n, (s d ^^ o d).toNat : ℕ) : K) := by
  simp only [signOf_mul]
  rw [sum_sub_distrib, ← mul_sum, sum_const, card_range, nsmul_one, Nat.cast_sum]

end Signs

/-! ## The estimate -/

section Estimate

variable {K : Type} [Field K] [LinearOrder K] (build : Build) (est : RaBitQEstimator)

/-- A code of a plane, with its padding clear. -/
structure BinaryCode (code : List UInt64) : Prop where
  length : code.length = est.wordsPerPlane.toNat
  clear : ∀ d, est.dim.toNat ≤ d → planeBit code d = false

/-- The sign bits are those of the rotated vector, and the estimate of every code is the one
with the inner product of the signs. -/
structure SignsExact (pq : PreparedQuery K) : Prop where
  signs : ∀ d, planeBit pq.signCode d = decide (d < est.dim.toNat ∧ 0 ≤ pq.rotated d)
  estimate : ∀ code, BinaryCode est code → ∀ normOc,
    estimateDistanceRaw build est pq code est.wordsPerPlane normOc =
      some (max 0 (normOc ^ 2 + pq.normQc ^ 2 - 2 * normOc * pq.normQc *
        (1 / (est.dim.toNat : K) * ∑ d ∈ range est.dim.toNat,
          signOf (decide (0 ≤ pq.rotated d)) * signOf (planeBit code d))))

/-- A query as the signs leave it. -/
structure SignsPrepared (pq : PreparedQuery K) : Prop where
  signs : ∀ d, planeBit pq.signCode d = decide (d < est.dim.toNat ∧ 0 ≤ pq.rotated d)
  length : pq.signCode.length = est.wordsPerPlane.toNat
  norm : pq.normQc * pq.normQc = pq.normQcSq

variable {build est}

theorem hamming_eq {pq : PreparedQuery K} (prepared : SignsPrepared est pq)
    (ends : est.dim.toNat + 63 < 2 ^ 32) {code : List UInt64} (binary : BinaryCode est code) :
    (popcountXor (fun w => pq.signCode.getD w 0) (fun w => code.getD w 0)
      est.wordsPerPlane.toNat build).toNat =
      ∑ d ∈ range est.dim.toNat, (decide (0 ≤ pq.rotated d) ^^ planeBit code d).toNat := by
  have words := wordsPerPlane_toNat ends
  have clear : ∀ d, est.dim.toNat ≤ d → planeBit pq.signCode d = false := fun d above => by
    rw [prepared.signs, decide_eq_false]
    exact fun inside => absurd inside.1 (not_lt.2 above)
  have bits : ∑ d ∈ range est.dim.toNat, (planeBit pq.signCode d ^^ planeBit code d).toNat =
      ∑ d ∈ range est.dim.toNat, (decide (0 ≤ pq.rotated d) ^^ planeBit code d).toNat := by
    refine sum_congr rfl fun d mem => ?_
    have below := mem_range.1 mem
    rw [prepared.signs, decide_eq_decide.2 (and_iff_right below)]
  have small : ∑ d ∈ range est.dim.toNat,
      (decide (0 ≤ pq.rotated d) ^^ planeBit code d).toNat ≤ est.dim.toNat := by
    calc _ ≤ ∑ _d ∈ range est.dim.toNat, 1 := sum_le_sum fun d _ => Bool.toNat_le _
      _ = est.dim.toNat := by simp
  rw [popcountXor_eq, differing_padding (by omega) clear binary.clear, bits, UInt32.toNat_ofNat',
    Nat.mod_eq_of_lt (by omega)]

/-- **The padding cancels, and the estimate is the inner product of the signs.** -/
theorem estimate_exact [CharZero K] {pq : PreparedQuery K} (prepared : SignsPrepared est pq)
    (positive : 0 < est.dim) (ends : est.dim.toNat + 63 < 2 ^ 32) : SignsExact build est pq := by
  refine ⟨prepared.signs, fun code binary normOc => ?_⟩
  have nonzero : est.dim.toNat ≠ 0 := Nat.pos_iff_ne_zero.1 (UInt32.lt_iff_toNat_lt.1 positive)
  have dim : (est.dim.toNat : K) ≠ 0 := Nat.cast_ne_zero.2 nonzero
  have inside : est.wordsPerPlane.toNat ≤ pq.signCode.length ∧
      est.wordsPerPlane.toNat ≤ code.length ∧ est.dim ≠ 0 :=
    ⟨prepared.length.ge, binary.length.ge, fun zero => nonzero (by rw [zero]; rfl)⟩
  have product := @sum_signOf K _ (fun d => decide (0 ≤ pq.rotated d)) (planeBit code) est.dim.toNat
  rw [estimateDistanceRaw, if_pos inside]
  dsimp only
  rw [stdMax_eq, max_comm, hamming_eq prepared ends binary, product, ← prepared.norm]
  have two : (lit 2 : K) = 2 := Rat.cast_ofNat 2
  rw [two]
  congr 2
  field_simp

end Estimate

/-! ## Both ways to prepare -/

section Prepare

variable {K : Type} [Field K] [LinearOrder K] {build : Build} {est : RaBitQEstimator}

theorem normalizeSigns_prepared {pq : PreparedQuery K} (invNorm : K)
    (ends : est.dim.toNat + 63 < 2 ^ 32) (length : pq.signCode.length = est.wordsPerPlane.toNat)
    (norm : pq.normQc * pq.normQc = pq.normQcSq) :
    ∃ out maxAbs, normalizeSigns build est pq invNorm = some (out, maxAbs) ∧
      SignsPrepared est out := by
  obtain ⟨out, run, holds⟩ := simdNormalizeSignSumMaxAbs_spec build pq.rotated invNorm length
    (wordsPerPlane_toNat ends).symm ends
  refine ⟨{ pq with rotated := out.vec, signCode := out.words, sumQ := out.sum }, out.maxAbs, ?_,
    ⟨fun d => ?_, holds.length, norm⟩⟩
  · rw [normalizeSigns, run, Option.map_some]
  · dsimp only
    rw [holds.signs, decide_eq_decide, holds.vec]
    exact and_congr_right fun below => by rw [if_pos below]

theorem norm_prepared [IsStrictOrderedRing K] (arith : ExactArith K) (n : ℕ) (diff : ℕ → K) :
    arith.sqrt (∑ i ∈ range n, diff i * diff i) * arith.sqrt (∑ i ∈ range n, diff i * diff i) =
      ∑ i ∈ range n, diff i * diff i :=
  arith.sqrt_mul_self _ (sum_nonneg fun i _ => mul_self_nonneg (diff i))

theorem registersEnd (build : Build) {dim : UInt32} (ends : dim.toNat + 63 < 2 ^ 32) :
    FusedLut.RegistersEnd build dim := by
  have le := Nat.div_mul_le_self dim.toNat (FusedLut.registerLanes build)
  have narrow := (lanes_pos build).2
  exact Or.inr (by omega)

theorem prepareSigns_prepared [IsStrictOrderedRing K] (arith : ExactArith K)
    (ends : est.dim.toNat + 63 < 2 ^ 32) (query : ℕ → K) (centroid : Option (ℕ → K))
    (rotation : RotationMatrix K) (pq : PreparedQuery K) :
    ∃ out maxAbs, prepareSigns build arith est query centroid rotation pq = some (out, maxAbs) ∧
      SignsPrepared est out := by
  rw [prepareSigns, simdSubtractAndNormSq_ends (registersEnd build ends)]
  exact normalizeSigns_prepared _ ends (resizeWords_length _ _) (norm_prepared arith _ _)

theorem prepareSignsRotated_prepared [IsStrictOrderedRing K] (arith : ExactArith K)
    (ends : est.dim.toNat + 63 < 2 ^ 32) (rotatedQ rotatedCentroid : ℕ → K)
    (pq : PreparedQuery K) :
    ∃ out maxAbs, prepareSignsRotated build arith est rotatedQ rotatedCentroid pq =
      some (out, maxAbs) ∧ SignsPrepared est out := by
  rw [prepareSignsRotated, simdSubtractAndNormSq_ends (registersEnd build ends)]
  exact normalizeSigns_prepared _ ends (resizeWords_length _ _) (norm_prepared arith _ _)

/-- The table leaves what the estimate reads. -/
theorem prepareFastScanQuery_signs [FloorRing K] {pq out : PreparedQuery K} {maxAbs : K}
    {scratch : ClusterPreparedScratch}
    (built : prepareFastScanQuery build est pq maxAbs scratch = some out)
    (exact : SignsExact build est pq) : SignsExact build est out := by
  rw [prepareFastScanQuery, Option.map_eq_some_iff] at built
  obtain ⟨table, -, rfl⟩ := built
  exact ⟨exact.signs, exact.estimate⟩

/-- The signs of a dimension whose words wrap have no place. -/
theorem normalizeSigns_wraps (wraps : 2 ^ 32 ≤ est.dim.toNat + 63) {pq : PreparedQuery K}
    (length : pq.signCode.length = est.wordsPerPlane.toNat) (invNorm : K) :
    normalizeSigns build est pq invNorm = none := by
  have none := wordsPerPlane_wraps wraps
  rw [none] at length
  rw [normalizeSigns, none, List.eq_nil_of_length_eq_zero length,
    simdNormalizeSignSumMaxAbs_noWords build _ _ (by omega), Option.map_none]

theorem prepareSigns_wraps (wraps : 2 ^ 32 ≤ est.dim.toNat + 63) (arith : ExactArith K)
    (query : ℕ → K) (centroid : Option (ℕ → K)) (rotation : RotationMatrix K)
    (pq : PreparedQuery K) :
    prepareSigns build arith est query centroid rotation pq = none :=
  Option.bind_eq_none_iff.2 fun _ _ => normalizeSigns_wraps wraps (resizeWords_length _ _) _

theorem prepareSignsRotated_wraps (wraps : 2 ^ 32 ≤ est.dim.toNat + 63) (arith : ExactArith K)
    (rotatedQ rotatedCentroid : ℕ → K) (pq : PreparedQuery K) :
    prepareSignsRotated build arith est rotatedQ rotatedCentroid pq = none :=
  Option.bind_eq_none_iff.2 fun _ _ => normalizeSigns_wraps wraps (resizeWords_length _ _) _

end Prepare

/-! ## The law -/

section Law

variable {K : Type} [Field K] [LinearOrder K] [FloorRing K]

/-- Every query, prepared in either way, into whatever the buffers held before, has exact signs,
and still has them with its table. -/
def PopcountExact (build : Build) (arith : ExactArith K) (est : RaBitQEstimator) : Prop :=
  ∀ (pq : PreparedQuery K) (scratch : ClusterPreparedScratch),
    (∀ query centroid rotation, ∃ signs maxAbs,
      prepareSigns build arith est query centroid rotation pq = some (signs, maxAbs) ∧
        SignsExact build est signs ∧
        ∀ out, prepareQueryInto build arith est query centroid rotation pq scratch = some out →
          SignsExact build est out) ∧
    ∀ rotatedQ rotatedCentroid, ∃ signs maxAbs,
      prepareSignsRotated build arith est rotatedQ rotatedCentroid pq = some (signs, maxAbs) ∧
        SignsExact build est signs ∧
        ∀ out, prepareQueryRotatedInto build arith est rotatedQ rotatedCentroid pq scratch =
          some out → SignsExact build est out

theorem not_exact_of_wraps (build : Build) (arith : ExactArith K) {est : RaBitQEstimator}
    (wraps : 2 ^ 32 ≤ est.dim.toNat + 63) : ¬ PopcountExact build arith est := by
  intro exact
  obtain ⟨signs, maxAbs, prepared, -⟩ :=
    (exact (blankQuery K) ⟨Buffer.zeros 0, fun _ => 0⟩).2 (fun _ => 0) fun _ => 0
  rw [prepareSignsRotated_wraps wraps] at prepared
  cases prepared

theorem not_exact_of_zero (build : Build) (arith : ExactArith K) {est : RaBitQEstimator}
    (zero : est.dim = 0) : ¬ PopcountExact build arith est := by
  intro exact
  obtain ⟨signs, maxAbs, -, ⟨-, estimate⟩, -⟩ :=
    (exact (blankQuery K) ⟨Buffer.zeros 0, fun _ => 0⟩).2 (fun _ => 0) fun _ => 0
  have words : est.wordsPerPlane = 0 := by
    rw [RaBitQEstimator.wordsPerPlane, zero]
    rfl
  have clear : BinaryCode est [] := ⟨by rw [words]; rfl, fun d _ => by simp [planeBit]⟩
  have none := estimate [] clear 0
  rw [estimateDistanceRaw, if_neg fun inside => inside.2.2 zero] at none
  cases none

/-- **The popcount estimate is the sign inner product exactly where the words of a plane do not
wrap**, for a dimension other than zero. -/
theorem popcountExact_iff [IsStrictOrderedRing K] (build : Build) (arith : ExactArith K)
    (est : RaBitQEstimator) :
    PopcountExact build arith est ↔ 0 < est.dim ∧ est.dim.toNat + 63 < 2 ^ 32 := by
  constructor
  · intro exact
    constructor
    · by_contra zero
      refine not_exact_of_zero build arith ?_ exact
      rw [← UInt32.toNat_inj]
      have not := fun positive => zero (UInt32.lt_iff_toNat_lt.2 positive)
      exact Nat.eq_zero_of_not_pos not
    · by_contra wraps
      exact not_exact_of_wraps build arith (not_lt.1 wraps) exact
  · rintro ⟨positive, ends⟩ pq scratch
    constructor
    · intro query centroid rotation
      obtain ⟨signs, maxAbs, run, prepared⟩ :=
        @prepareSigns_prepared K _ _ build est _ arith ends query centroid rotation pq
      have exact := @estimate_exact K _ _ build est _ signs prepared positive ends
      refine ⟨signs, maxAbs, run, exact, fun out whole => ?_⟩
      rw [prepareQueryInto, run, Option.bind_some] at whole
      exact prepareFastScanQuery_signs whole exact
    · intro rotatedQ rotatedCentroid
      obtain ⟨signs, maxAbs, run, prepared⟩ :=
        @prepareSignsRotated_prepared K _ _ build est _ arith ends rotatedQ rotatedCentroid pq
      have exact := @estimate_exact K _ _ build est _ signs prepared positive ends
      refine ⟨signs, maxAbs, run, exact, fun out whole => ?_⟩
      rw [prepareQueryRotatedInto, run, Option.bind_some] at whole
      exact prepareFastScanQuery_signs whole exact

/-- A dimension that is no multiple of 64. -/
theorem popcountExact_hundred : PopcountExact .avx512 realArith ⟨100, 1⟩ :=
  (popcountExact_iff .avx512 realArith ⟨100, 1⟩).2 ⟨by decide, by decide⟩

/-- The last dimension has no words. -/
theorem last_dimension_not_exact : ¬ PopcountExact .avx512 realArith ⟨4294967295, 1⟩ :=
  not_exact_of_wraps .avx512 realArith (by decide)

end Law

end VecFetch.Rabitq.Estimator
