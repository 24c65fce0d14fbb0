/-
# Rabitq.PreparedAgree -- a query rotated before is prepared like a plain one

A rotation is linear and keeps inner products, so the difference of the rotated vectors is the
rotated difference, of the same norm.  Whether the difference is scaled before the rotation or
after it, the products whose signs are taken are the same, also where the norm is too small
to divide by; and what is prepared depends on these products alone.
-/
import VecFetch.Rabitq.Estimator

namespace VecFetch.Rabitq.Estimator

open VecFetch.Theory VecFetch.Simd Finset

set_option autoImplicit false

/-! ## Rotations -/

section Rotations

variable {K : Type} [CommRing K] {n : ℕ} {A B : (ℕ → K) → ℕ → K}

/-- A transform that keeps inner products and is undone is linear. -/
theorem rotationPair_of_inverse (back : ∀ x i, i < n → B (A x) i = x i)
    (forth : ∀ x i, i < n → A (B x) i = x i) (inner : ∀ x y, dot n (A x) (A y) = dot n x y) :
    RotationPair n A B := by
  have column : ∀ x j, j < n → A x j = dot n x (B (Pi.single j 1)) := by
    intro x j inside
    calc A x j = dot n (Pi.single j 1) (A x) := (dot_single inside _).symm
      _ = dot n (A x) (A (B (Pi.single j 1))) := by
        rw [dot_comm]
        exact dot_congr (fun _ _ => rfl) fun i below => (forth _ i below).symm
      _ = dot n x (B (Pi.single j 1)) := inner _ _
  have row : ∀ x j, j < n → B x j = dot n x (A (Pi.single j 1)) := by
    intro x j inside
    calc B x j = dot n (B x) (Pi.single j 1) := by rw [dot_comm, dot_single inside]
      _ = dot n (A (B x)) (A (Pi.single j 1)) := (inner _ _).symm
      _ = dot n x (A (Pi.single j 1)) := dot_congr (forth x) fun _ _ => rfl
  refine ⟨fun x j inside => ?_, back, forth, inner, fun x y same j inside => ?_⟩
  · rw [column x j inside]
    refine sum_congr rfl fun i mem => ?_
    rw [column _ j inside, dot_single (mem_range.1 mem)]
  · rw [row x j inside, row y j inside]
    exact dot_congr same fun _ _ => rfl

theorem linear_sub (pair : RotationPair n A B) (x y : ℕ → K) {j : ℕ} (inside : j < n) :
    A (fun i => x i - y i) j = A x j - A y j := by
  rw [pair.linear _ j inside, pair.linear x j inside, pair.linear y j inside, ← sum_sub_distrib]
  exact sum_congr rfl fun i _ => sub_mul _ _ _

theorem linear_scale (pair : RotationPair n A B) {x y : ℕ → K} {s : K}
    (scaled : ∀ i, i < n → y i = x i * s) {j : ℕ} (inside : j < n) : A y j = A x j * s := by
  rw [pair.linear y j inside, pair.linear x j inside, sum_mul]
  refine sum_congr rfl fun i mem => ?_
  rw [scaled i (mem_range.1 mem), mul_right_comm]

end Rotations

/-! ## The signs -/

section Agree

variable {K : Type} [Field K] [LinearOrder K] {build : Build} {arith : ExactArith K}
  {est : RaBitQEstimator}

/-- Signs taken from the same products. -/
theorem normalizeSigns_congr {pq : PreparedQuery K} {vec vec' : ℕ → K} {invNorm invNorm' : K}
    (products : ∀ d, vec d * invNorm = vec' d * invNorm')
    (outside : ∀ d, est.dim.toNat ≤ d → vec d = vec' d) :
    normalizeSigns build est { pq with rotated := vec } invNorm =
      normalizeSigns build est { pq with rotated := vec' } invNorm' := by
  rw [normalizeSigns, normalizeSigns]
  dsimp only
  rw [simdNormalizeSignSumMaxAbs_congr build _ _ products outside]

/-- The rows of the builder are the rotated rows. -/
theorem rowOf_rotatedCentroids (rotation : RotationMatrix K) {n : ℕ} (centroids : ℕ → K) (k : ℕ)
    {i : ℕ} (inside : i < n) :
    rowOf n (rotatedCentroids build arith rotation n centroids) k i =
      rotation.apply (decide (build = .avx512)) arith (rowOf n centroids k) i := by
  rw [rowOf, rotatedCentroids, fillMatrix_apply inside]

/-- The signs of a query rotated before. -/
theorem prepareSignsRotated_eq {rotation : RotationMatrix K} {B : (ℕ → K) → ℕ → K}
    (pair : RotationPair est.dim.toNat (rotation.apply (decide (build = .avx512)) arith) B)
    (query centroids : ℕ → K) (k : ℕ) (pq : PreparedQuery K) :
    prepareSignsRotated build arith est
      (rotation.apply (decide (build = .avx512)) arith query)
      (rowOf est.dim.toNat (rotatedCentroids build arith rotation est.dim.toNat centroids) k) pq =
    prepareSigns build arith est query (some (rowOf est.dim.toNat centroids k)) rotation pq := by
  by_cases ends : FusedLut.RegistersEnd build est.dim
  · rw [prepareSignsRotated, prepareSigns, simdSubtractAndNormSq_ends ends,
      simdSubtractAndNormSq_ends ends, Option.bind_some, Option.bind_some]
    dsimp only
    have stored := fun i (below : i < est.dim.toNat) =>
      @rowOf_rotatedCentroids K _ _ build arith rotation est.dim.toNat centroids k i below
    generalize rowOf est.dim.toNat (rotatedCentroids build arith rotation est.dim.toNat
      centroids) k = row at stored ⊢
    generalize rowOf est.dim.toNat centroids k = centroid at stored ⊢
    generalize rotation.apply (decide (build = .avx512)) arith = A at pair stored ⊢
    -- the difference of the rotated vectors is the rotated difference
    have turned : ∀ i, i < est.dim.toNat →
        differences (A query) (some row) i = A (differences query (some centroid)) i := by
      intro i below
      calc A query i - row i = A query i - A centroid i := by rw [stored i below]
        _ = A (fun i => query i - centroid i) i := (linear_sub pair query centroid below).symm
    generalize differences (A query) (some row) = diff at turned ⊢
    generalize differences query (some centroid) = residual at turned ⊢
    have norm : ∑ i ∈ range est.dim.toNat, diff i * diff i =
        ∑ i ∈ range est.dim.toNat, residual i * residual i :=
      (dot_congr turned turned).trans (pair.dot residual residual)
    rw [norm]
    generalize ∑ i ∈ range est.dim.toNat, residual i * residual i = normQcSq
    generalize arith.sqrt normQcSq = normQc
    refine @normalizeSigns_congr K _ _ build est
      { ensurePrepareBuffers est pq with normQcSq := normQcSq, normQc := normQc } _ _ _ _
      (fun d => ?_) fun d above => ?_
    · by_cases below : d < est.dim.toNat
      · rw [copyOf_low below, copyOf_low below, mul_one, turned d below]
        refine (linear_scale pair (fun i inside => ?_) below).symm
        split
        · rw [scaleBy, if_pos inside, copyOf_low inside]
        · rw [copyOf_low inside, mul_one]
      · rw [copyOf, copyOf, if_neg below, if_neg below, zero_mul, zero_mul]
    · rw [copyOf, copyOf, if_neg (not_lt.2 above), if_neg (not_lt.2 above)]
  · rw [prepareSignsRotated, prepareSigns, simdSubtractAndNormSq_endless ends,
      simdSubtractAndNormSq_endless ends]
    rfl

end Agree

/-! ## The prepared query -/

section Prepared

variable {K : Type} [Field K] [LinearOrder K] [FloorRing K]

/-- **A query rotated before, against a centroid that the builder rotated, is prepared like the
plain query against the plain centroid.** -/
theorem prepareQueryRotatedInto_eq (build : Build) (arith : ExactArith K) (est : RaBitQEstimator)
    {rotation : RotationMatrix K} (same : rotation.dim = est.dim)
    (isRotation : RotationPair rotation.dim.toNat
      (rotation.apply (decide (build = .avx512)) arith)
      (rotation.applyInverse (decide (build = .avx512)) arith))
    (query centroids : ℕ → K) (k : ℕ) (pq : PreparedQuery K) (scratch : ClusterPreparedScratch) :
    prepareQueryRotatedInto build arith est
      (rotation.apply (decide (build = .avx512)) arith query)
      (rowOf est.dim.toNat (rotatedCentroids build arith rotation est.dim.toNat centroids) k)
      pq scratch =
    prepareQueryInto build arith est query (some (rowOf est.dim.toNat centroids k)) rotation pq
      scratch := by
  rw [same] at isRotation
  rw [prepareQueryRotatedInto, prepareQueryInto, prepareSignsRotated_eq isRotation]

end Prepared

/-- A rotation of six entries, in a block of four and one of two. -/
noncomputable def sixRotation : RotationMatrix ℝ :=
  (RotationMatrix.generateBlockedHadamardPermuted true realArith { dim := 6, data := fun _ => 0 }
    zeroRng true).1

theorem sixRotation_pair : RotationPair sixRotation.dim.toNat
    (sixRotation.apply (decide (Build.avx512 = .avx512)) realArith)
    (sixRotation.applyInverse (decide (Build.avx512 = .avx512)) realArith) := by
  have rotation : IsRotation true realArith sixRotation :=
    isRotation_blocked true realArith (Prod.ext rfl rfl)
  exact rotationPair_of_inverse rotation.inverse_apply rotation.apply_inverse rotation.inner

/-- The law for six entries, of which the second centroid is the query itself. -/
theorem prepareQueryRotatedInto_eq_six :
    prepareQueryRotatedInto .avx512 realArith ⟨6, 1⟩
      (sixRotation.apply (decide (Build.avx512 = .avx512)) realArith fun i => i + 6)
      (rowOf (UInt32.toNat 6)
        (rotatedCentroids .avx512 realArith sixRotation (UInt32.toNat 6) fun t => t) 1)
      (blankQuery ℝ) ⟨Buffer.zeros 0, fun _ => 0⟩ =
    prepareQueryInto .avx512 realArith ⟨6, 1⟩ (fun i => i + 6)
      (some (rowOf (UInt32.toNat 6) (fun t => t) 1)) sixRotation (blankQuery ℝ)
      ⟨Buffer.zeros 0, fun _ => 0⟩ :=
  prepareQueryRotatedInto_eq .avx512 realArith ⟨6, 1⟩ rfl sixRotation_pair _ _ 1 _ _

end VecFetch.Rabitq.Estimator
