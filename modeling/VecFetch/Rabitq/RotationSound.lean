/-
# Rabitq.RotationSound -- every generated rotation is one

The dense matrix of a fast kind holds the images of the unit vectors, so both paths agree;
the rows that Gram-Schmidt leaves are orthonormal when none of them was too short to be
normalised.  Together: what the generators accept is a rotation, with the same result on
either path (`generated_isRotation`).
-/
import VecFetch.Rabitq.RotationFast
import Mathlib.Algebra.BigOperators.Field
import Mathlib.Analysis.Real.Sqrt

namespace VecFetch.Rabitq

open VecFetch.Theory VecFetch.Simd Finset

set_option autoImplicit false

/-! ## The dense path -/

section Dense

variable {K : Type} [Field K]

theorem denseApply_eq (r : RotationMatrix K) (x : ℕ → K) {j : ℕ} (inside : j < r.dim.toNat) :
    r.denseApply x j = ∑ i ∈ range r.dim.toNat, r.data (i * r.dim.toNat + j) * x i := by
  have steps : ∀ m, (List.range m).foldl (fun out i j =>
      if j < r.dim.toNat then out j + rowOf r.dim.toNat r.data i j * x i else out j)
        (fun _ => (0 : K)) j = ∑ i ∈ range m, r.data (i * r.dim.toNat + j) * x i := by
    intro m
    induction m with
    | zero => rfl
    | succ m ih =>
        rw [sum_range_succ, ← ih, List.range_succ, List.foldl_append, List.foldl_cons,
          List.foldl_nil, if_pos inside, rowOf]
  exact steps r.dim.toNat

theorem denseApplyInverse_eq (r : RotationMatrix K) (x : ℕ → K) {i : ℕ}
    (inside : i < r.dim.toNat) :
    r.denseApplyInverse x i = ∑ j ∈ range r.dim.toNat, r.data (i * r.dim.toNat + j) * x j := by
  rw [RotationMatrix.denseApplyInverse, if_pos inside, sumTo_eq]
  rfl

end Dense

/-! ## Gram-Schmidt -/

theorem rowOf_setRow {K : Type} {L k : ℕ} (inside : k < L) (i i' : ℕ) (row data : ℕ → K) :
    rowOf L (setRow L i row data) i' k = if i' = i then row k else rowOf L data i' k := by
  have positive : 0 < L := by omega
  rw [rowOf, setRow, Nat.mul_comm i', Nat.mul_add_div positive, Nat.div_eq_of_lt inside,
    Nat.add_zero, Nat.mul_add_mod, Nat.mod_eq_of_lt inside, rowOf, Nat.mul_comm i']

section GramSchmidt

variable {K : Type} [Field K]

/-- The inner product of two rows. -/
def rowDot (L : ℕ) (data : ℕ → K) (i j : ℕ) : K :=
  ∑ k ∈ range L, rowOf L data i k * rowOf L data j k

theorem rowDot_comm (L : ℕ) (data : ℕ → K) (i j : ℕ) : rowDot L data i j = rowDot L data j i :=
  sum_congr rfl fun _ _ => mul_comm _ _

/-- A row that is written keeps its inner products with the others up to what was written. -/
theorem rowDot_setRow_ne {L i j j' : ℕ} (row data : ℕ → K) (ne : j ≠ i) (ne' : j' ≠ i) :
    rowDot L (setRow L i row data) j j' = rowDot L data j j' := by
  refine sum_congr rfl fun k mem => ?_
  rw [rowOf_setRow (mem_range.1 mem), rowOf_setRow (mem_range.1 mem), if_neg ne, if_neg ne']

theorem rowDot_setRow_left {L i j : ℕ} (row data : ℕ → K) (ne : j ≠ i) :
    rowDot L (setRow L i row data) i j = ∑ k ∈ range L, row k * rowOf L data j k := by
  refine sum_congr rfl fun k mem => ?_
  rw [rowOf_setRow (mem_range.1 mem), rowOf_setRow (mem_range.1 mem), if_pos rfl, if_neg ne]

theorem rowDot_setRow_self {L i : ℕ} (row data : ℕ → K) :
    rowDot L (setRow L i row data) i i = ∑ k ∈ range L, row k * row k := by
  refine sum_congr rfl fun k mem => ?_
  rw [rowOf_setRow (mem_range.1 mem), if_pos rfl]

/-- The rows below `i` are orthonormal. -/
def OrthonormalBelow (L i : ℕ) (data : ℕ → K) : Prop :=
  ∀ j, j < i → ∀ j', j' < i → rowDot L data j j' = if j = j' then 1 else 0

/-- Row `i` is orthogonal to the rows below `count`, which are as they were. -/
structure Projected (L i count : ℕ) (data data' : ℕ → K) : Prop where
  below : ∀ j, j < i → ∀ j', j' < i → rowDot L data' j j' = rowDot L data j j'
  orthogonal : ∀ j, j < count → rowDot L data' i j = 0

theorem orthogonalize_projected {L i count : ℕ} (within : count ≤ i) {data : ℕ → K}
    (orthonormal : OrthonormalBelow L i data) :
    Projected L i count data ((List.range count).foldl (subtractProjection L i) data) := by
  induction count with
  | zero => exact ⟨fun _ _ _ _ => rfl, fun j none => absurd none (Nat.not_lt_zero j)⟩
  | succ count ih =>
      obtain ⟨below, orthogonal⟩ := ih (by omega)
      rw [List.range_succ, List.foldl_append, List.foldl_cons, List.foldl_nil]
      generalize (List.range count).foldl (subtractProjection L i) data = data' at *
      rw [subtractProjection, sumTo_eq]
      refine ⟨fun j small j' small' => ?_, fun j small => ?_⟩
      · rw [rowDot_setRow_ne _ _ (by omega) (by omega)]
        exact below j small j' small'
      · rw [rowDot_setRow_left _ _ (by omega)]
        have spread : ∑ k ∈ range L, (rowOf L data' i k -
            (∑ k ∈ range L, rowOf L data' i k * rowOf L data' count k) * rowOf L data' count k) *
              rowOf L data' j k =
            rowDot L data' i j - rowDot L data' i count * rowDot L data' count j := by
          rw [rowDot, rowDot, rowDot, mul_sum, ← sum_sub_distrib]
          exact sum_congr rfl fun k _ => by ring
        rw [spread, below count (by omega) j (by omega),
          orthonormal count (by omega) j (by omega)]
        by_cases last : j = count
        · rw [last, if_pos rfl, mul_one, sub_self]
        · rw [orthogonal j (by omega), if_neg fun same => last same.symm, mul_zero, sub_zero]

variable [LinearOrder K] [IsStrictOrderedRing K] (arith : ExactArith K)

/-- No row becomes too short for its norm to be divided by. -/
def RowsIndependent (L : ℕ) (data : ℕ → K) : Prop :=
  ∀ i, i < L → lit 1e-10 < rowNorm arith L i (orthogonalize L i (gramSchmidt arith L i data))

theorem normalize_orthonormal {L i : ℕ} {data : ℕ → K} (orthonormal : OrthonormalBelow L i data)
    (orthogonal : ∀ j, j < i → rowDot L data i j = 0)
    (long : lit 1e-10 < rowNorm arith L i data) :
    OrthonormalBelow L (i + 1) (normalize arith L i data) := by
  have square : rowNorm arith L i data * rowNorm arith L i data = rowDot L data i i := by
    rw [rowNorm, sumTo_eq]
    exact arith.sqrt_mul_self _ (sum_nonneg fun k _ => mul_self_nonneg _)
  have tiny : (0 : K) < lit 1e-10 := lit_pos (by norm_num)
  have nonzero : rowNorm arith L i data ≠ 0 := ne_of_gt (tiny.trans long)
  rw [normalize, if_pos long]
  -- the new row against an older one
  have cross : ∀ j, j < i → rowDot L (setRow L i (fun k => rowOf L data i k *
      (1 / rowNorm arith L i data)) data) i j = 0 := by
    intro j small
    rw [rowDot_setRow_left _ _ (by omega)]
    have out : ∑ k ∈ range L, rowOf L data i k * (1 / rowNorm arith L i data) *
        rowOf L data j k = rowDot L data i j * (1 / rowNorm arith L i data) := by
      rw [rowDot, sum_mul]
      exact sum_congr rfl fun k _ => by ring
    rw [out, orthogonal j small, zero_mul]
  intro j small j' small'
  by_cases last : j = i
  · subst last
    by_cases last' : j' = j
    · subst last'
      rw [rowDot_setRow_self, if_pos rfl]
      have out : ∑ k ∈ range L, rowOf L data j' k * (1 / rowNorm arith L j' data) *
          (rowOf L data j' k * (1 / rowNorm arith L j' data)) =
            rowDot L data j' j' / (rowNorm arith L j' data * rowNorm arith L j' data) := by
        rw [rowDot, sum_div]
        exact sum_congr rfl fun k _ => by field_simp
      rw [out, square, div_self]
      rw [← square]
      exact mul_ne_zero nonzero nonzero
    · rw [cross j' (by omega), if_neg fun same => last' same.symm]
  · by_cases last' : j' = i
    · subst last'
      rw [rowDot_comm, cross j (by omega), if_neg last]
    · rw [rowDot_setRow_ne _ _ last last']
      exact orthonormal j (by omega) j' (by omega)

theorem gramSchmidt_orthonormal {L : ℕ} {data : ℕ → K}
    (independent : RowsIndependent arith L data) {rows : ℕ} (within : rows ≤ L) :
    OrthonormalBelow L rows (gramSchmidt arith L rows data) := by
  induction rows with
  | zero => exact fun j none => absurd none (Nat.not_lt_zero j)
  | succ rows ih =>
      have orthonormal := ih (by omega)
      have projected := orthogonalize_projected le_rfl orthonormal
      rw [gramSchmidt, List.range_succ, List.foldl_append, List.foldl_cons, List.foldl_nil]
      refine normalize_orthonormal arith (fun j small j' small' => ?_) projected.orthogonal
        (independent rows (by omega))
      exact (projected.below j small j' small').trans (orthonormal j small j' small')

end GramSchmidt

/-! ## Both paths -/

section Paths

variable {K : Type} [Field K] [LinearOrder K] (avx512 : Bool) (arith : ExactArith K)

/-- `Apply` and `ApplyInverse` undo each other, `Apply` keeps inner products, and the dense
matrix gives what either gives. -/
structure IsRotation (r : RotationMatrix K) : Prop where
  inverse_apply : ∀ x i, i < r.dim.toNat →
    r.applyInverse avx512 arith (r.apply avx512 arith x) i = x i
  apply_inverse : ∀ x i, i < r.dim.toNat →
    r.apply avx512 arith (r.applyInverse avx512 arith x) i = x i
  inner : ∀ x y, dot r.dim.toNat (r.apply avx512 arith x) (r.apply avx512 arith y) =
    dot r.dim.toNat x y
  dense : ∀ x i, i < r.dim.toNat →
    RotationMatrix.apply avx512 arith { r with useFastHadamard := false } x i =
      r.apply avx512 arith x i
  dense_inverse : ∀ x i, i < r.dim.toNat →
    RotationMatrix.applyInverse avx512 arith { r with useFastHadamard := false } x i =
      r.applyInverse avx512 arith x i

theorem apply_dense {r : RotationMatrix K} (slow : r.useFastHadamard = false) (x : ℕ → K) :
    r.apply avx512 arith x = r.denseApply x := by
  rw [RotationMatrix.apply, slow]
  simp

theorem applyInverse_dense {r : RotationMatrix K} (slow : r.useFastHadamard = false) (x : ℕ → K) :
    r.applyInverse avx512 arith x = r.denseApplyInverse x := by
  rw [RotationMatrix.applyInverse, slow]
  simp

/-- A rotation whose matrix is in `data`, on the path that the flag selects. -/
theorem isRotation_of_matrix {r : RotationMatrix K} {A B : (ℕ → K) → ℕ → K}
    (pair : RotationPair r.dim.toNat A B) (matrix : IsMatrixOf r.dim.toNat r.data A)
    (paths : r.useFastHadamard = true →
      ∀ x, r.apply avx512 arith x = A x ∧ r.applyInverse avx512 arith x = B x) :
    IsRotation avx512 arith r := by
  have denseA : ∀ x i, i < r.dim.toNat → r.denseApply x i = A x i := fun x i inside => by
    rw [denseApply_eq r x inside, pair.transpose_mul matrix x inside]
  have denseB : ∀ x i, i < r.dim.toNat → r.denseApplyInverse x i = B x i := fun x i inside => by
    rw [denseApplyInverse_eq r x inside, pair.mul matrix x inside]
  have sameA : ∀ x i, i < r.dim.toNat → r.apply avx512 arith x i = A x i := by
    intro x i inside
    cases fast : r.useFastHadamard with
    | true => rw [(paths fast x).1]
    | false => rw [apply_dense avx512 arith fast, denseA x i inside]
  have sameB : ∀ x i, i < r.dim.toNat → r.applyInverse avx512 arith x i = B x i := by
    intro x i inside
    cases fast : r.useFastHadamard with
    | true => rw [(paths fast x).2]
    | false => rw [applyInverse_dense avx512 arith fast, denseB x i inside]
  have whole := pair.of_eq sameA sameB
  refine ⟨whole.back, whole.forth, whole.dot, fun x i inside => ?_, fun x i inside => ?_⟩
  · rw [apply_dense avx512 arith rfl, sameA x i inside]
    exact denseA x i inside
  · rw [applyInverse_dense avx512 arith rfl, sameB x i inside]
    exact denseB x i inside

end Paths

/-! ## The generators -/

theorem hadamard_entry {K : Type} [Field K] {k i j : ℕ} (fits : k ≤ 32) (inside : i < 2 ^ k) :
    (if popcount (UInt32.ofNat (i &&& j)) % 2 = 1 then -1 else 1 : K) = walshSign k i j := by
  have small : i < 2 ^ 32 := Nat.lt_of_lt_of_le inside (Nat.pow_le_pow_right (by decide) fits)
  have value : (UInt32.ofNat (i &&& j)).toNat = i &&& j := by
    rw [UInt32.toNat_ofNat', Nat.mod_eq_of_lt (Nat.lt_of_le_of_lt Nat.and_le_left small)]
  rw [popcount, value, setBits, ← prod_sign_eq, ← walshSign_of_low inside fits]
  refine prod_congr rfl fun b _ => ?_
  rw [bitSign, Nat.testBit_and]

section Generated

variable {K : Type} [Field K] [LinearOrder K] [IsStrictOrderedRing K]
  (avx512 : Bool) (arith : ExactArith K)

theorem isRotation_random (r : RotationMatrix K) (rng : Rng K)
    (independent : RowsIndependent arith r.dim.toNat rng.normal) :
    IsRotation avx512 arith (r.generateRandom arith rng) := by
  have rows := gramSchmidt_orthonormal arith independent le_rfl
  refine isRotation_of_matrix avx512 arith (RotationPair.of_rows rows) (fun i inside j _ => ?_)
    fun fast => absurd fast (by simp [RotationMatrix.generateRandom])
  have only := dot_single inside fun l =>
    (r.generateRandom arith rng).data (l * r.dim.toNat + j)
  rw [dot_comm] at only
  exact only.symm

theorem isRotation_hadamard {r r' : RotationMatrix K} {rng : Rng K} {useFast : Bool}
    (accepted : r.generateHadamard arith rng useFast = (r', true)) :
    IsRotation avx512 arith r' := by
  rw [RotationMatrix.generateHadamard] at accepted
  split at accepted
  · rename_i power
    obtain ⟨k, fits, size⟩ := isPowerOf2_spec power
    have unit : ∀ i, i < 2 ^ k → (RotationMatrix.randomSigns rng r.dim.toNat).getD i 0 *
        (RotationMatrix.randomSigns rng r.dim.toNat).getD i 0 = 1 :=
      fun i inside => randomSigns_mul_self rng (by omega)
    have block := diagonalBlock_rotationPair avx512 arith fits unit
    obtain ⟨rfl, -⟩ := Prod.mk.inj accepted
    rw [← size] at block
    have copied : RotationPair r.dim.toNat
        (fun x => applyHadamardDiagonalBlock avx512 arith
          (fun i => (RotationMatrix.randomSigns rng r.dim.toNat).getD i 0) r.dim.toNat
            (copyOf r.dim.toNat x))
        fun x => scaleBy r.dim.toNat (fun _ => invSqrt arith r.dim.toNat)
          (fwht avx512 (copyOf r.dim.toNat fun i => x i *
            (((RotationMatrix.randomSigns rng r.dim.toNat).getD i 0 : ℤ) : K)) r.dim.toNat) := by
      refine block.of_eq (fun x i inside =>
        block.congr (fun l below => copyOf_low below x) inside) fun x i inside => ?_
      rw [applyHadamardDiagonalBlockInverse, scaleBy_low inside, scaleBy_low inside, size] at *
      rw [fwht_low avx512 fits _ inside, fwht_low avx512 fits _ inside]
      congr 1
      refine walsh_congr (fun l below => ?_) i
      rw [copyOf_low below, scaleBy_low below]
    refine isRotation_of_matrix avx512 arith copied (fun i inside j inside' => ?_) fun fast x => ?_
    · dsimp only at inside inside' ⊢
      rw [fillMatrix_apply inside', applyHadamardDiagonalBlock, scaleBy_low inside']
      rw [size] at inside inside' ⊢
      rw [fwht_low avx512 fits _ inside', walsh_congr fun l below => copyOf_low below _,
        walsh_single inside, hadamard_entry fits inside]
      ring
    · dsimp only at fast
      subst fast
      exact ⟨rfl, rfl⟩
  · cases accepted

theorem isRotation_blocked {r r' : RotationMatrix K} {rng : Rng K} {useFast : Bool}
    (accepted : r.generateBlockedHadamardPermuted avx512 arith rng useFast = (r', true)) :
    IsRotation avx512 arith r' := by
  rw [RotationMatrix.generateBlockedHadamardPermuted] at accepted
  split at accepted
  · cases accepted
  · obtain ⟨rfl, -⟩ := Prod.mk.inj accepted
    obtain ⟨powers, total⟩ := greedyBlocks_spec r.dim.toNat le_rfl
    have permutes := permutes_of_perm (Nat.le_of_lt r.dim.toNat_lt) (rng.shuffle_perm _)
    have pair := blockedFast_rotationPair avx512 arith permutes powers total fun i inside =>
      randomSigns_mul_self rng inside
    refine isRotation_of_matrix avx512 arith pair (fun i inside j inside' => ?_) fun fast x => ?_
    · dsimp only
      rw [fillMatrix_apply inside']
      rfl
    · dsimp only at fast
      subst fast
      exact ⟨rfl, rfl⟩

/-- A dimension that needs no padding is even. -/
theorem even_of_padded {dim : UInt32} (padded : roundUpToMultiple dim 64 = dim) :
    dim.toNat % 2 = 0 := by
  have rem : (dim % 64).toNat = dim.toNat % 64 := UInt32.toNat_mod _ _
  rw [roundUpToMultiple, if_neg (by decide)] at padded
  dsimp only at padded
  split at padded
  · rename_i none
    rw [none] at rem
    simp only [UInt32.reduceToNat] at rem
    omega
  · have missing : 64 - dim % 64 = 0 := by
      have moved : dim + (64 - dim % 64) = dim + 0 := by rw [padded, UInt32.add_zero]
      exact (UInt32.add_right_inj dim).1 moved
    have value := congrArg UInt32.toNat missing
    rw [UInt32.toNat_sub_of_le _ _ (UInt32.le_iff_toNat_le.2 (by
      rw [rem]
      simp only [UInt32.reduceToNat]
      omega)), rem] at value
    simp only [UInt32.reduceToNat] at value
    omega

theorem isRotation_fhtKac {r r' : RotationMatrix K} {rng : Rng K} {useFast : Bool}
    (accepted : r.generateFhtKacRotator avx512 arith rng useFast = (r', true)) :
    IsRotation avx512 arith r' := by
  rw [RotationMatrix.generateFhtKacRotator] at accepted
  split at accepted
  · cases accepted
  · rename_i positive
    dsimp only at accepted
    split at accepted
    · cases accepted
    · rename_i padded
      rw [not_not] at padded
      obtain ⟨rfl, -⟩ := Prod.mk.inj accepted
      have even := even_of_padded padded
      have some_ : 0 < r.dim := by
        rw [UInt32.lt_iff_toNat_lt]
        exact Nat.pos_of_ne_zero fun zero => positive (UInt32.toNat_inj.1 zero)
      obtain ⟨⟨k, fits, power⟩, small⟩ := floorPowerOf2_spec some_
      rw [UInt32.le_iff_toNat_le, power] at small
      have pair := @fhtKacFast_rotationPair K _ _ _ avx512 arith
        (RotationMatrix.randomSigns rng (4 * r.dim.toNat)) r.dim.toNat k 4 fits small even
        fun i inside => randomSigns_mul_self rng inside
      rw [← power] at pair
      refine isRotation_of_matrix avx512 arith pair (fun i inside j inside' => ?_) fun fast x => ?_
      · dsimp only
        rw [fillMatrix_apply inside']
        rfl
      · dsimp only at fast
        subst fast
        exact ⟨rfl, rfl⟩

/-- What a generator has accepted; a random rotation was drawn with independent rows. -/
inductive Generated (rng : Rng K) : RotationMatrix K → Prop
  | random (r : RotationMatrix K)
      (independent : RowsIndependent arith r.dim.toNat rng.normal) :
      Generated rng (r.generateRandom arith rng)
  | hadamard {r r' : RotationMatrix K} {useFast : Bool}
      (accepted : r.generateHadamard arith rng useFast = (r', true)) : Generated rng r'
  | blocked {r r' : RotationMatrix K} {useFast : Bool}
      (accepted : r.generateBlockedHadamardPermuted avx512 arith rng useFast = (r', true)) :
      Generated rng r'
  | fhtKac {r r' : RotationMatrix K} {useFast : Bool}
      (accepted : r.generateFhtKacRotator avx512 arith rng useFast = (r', true)) :
      Generated rng r'

/-- **What the generators accept is a rotation**, on the dense and on the fast path. -/
theorem generated_isRotation (rng : Rng K) (r : RotationMatrix K)
    (generated : Generated avx512 arith rng r) : IsRotation avx512 arith r := by
  cases generated with
  | random r independent => exact isRotation_random avx512 arith r rng independent
  | hadamard accepted => exact isRotation_hadamard avx512 arith accepted
  | blocked accepted => exact isRotation_blocked avx512 arith accepted
  | fhtKac accepted => exact isRotation_fhtKac avx512 arith accepted

end Generated

/-! ## Over the reals -/

theorem real_sqrt_mul_self (x : ℝ) (positive : 0 ≤ x) : Real.sqrt x * Real.sqrt x = x :=
  Real.mul_self_sqrt positive

theorem real_halfRoot_mul_self : Real.sqrt (lit 0.5) * Real.sqrt (lit 0.5) * 2 = 1 := by
  rw [Real.mul_self_sqrt (lit_pos (by norm_num)).le, lit]
  norm_num

noncomputable def realArith : ExactArith ℝ where
  sqrt := Real.sqrt
  sqrt_mul_self := real_sqrt_mul_self
  halfRoot := Real.sqrt (lit 0.5)
  halfRoot_mul_self := real_halfRoot_mul_self

/-- An engine whose coins alternate, that draws zeros and shuffles nothing. -/
def zeroRng : Rng ℝ where
  coin i := i % 2 == 0
  normal _ := 0
  shuffle l := l
  shuffle_perm l := .refl l

/-- The law for a fast rotation of six entries, in a block of four and one of two. -/
theorem generated_isRotation_six :
    IsRotation true realArith (RotationMatrix.generateBlockedHadamardPermuted true realArith
      { dim := 6, data := fun _ => 0 } zeroRng true).1 :=
  generated_isRotation true realArith zeroRng _ (.blocked (Prod.ext rfl rfl))

/-- A row of zeros is not normalised, and the rotation loses its input. -/
theorem zero_row_is_no_rotation :
    ¬ IsRotation true realArith
      (RotationMatrix.generateRandom realArith { dim := 1, data := fun _ => 0 } zeroRng) := by
  intro rotation
  have back := rotation.inverse_apply (fun _ => 1) 0 (by decide)
  rw [applyInverse_dense true realArith rfl, denseApplyInverse_eq _ _ (by decide)] at back
  have short : ¬ lit 1e-10 < rowNorm realArith 1 0 fun _ => (0 : ℝ) := by
    have zero : rowNorm realArith 1 0 (fun _ => (0 : ℝ)) = 0 := by
      rw [rowNorm, sumTo_eq]
      simp [rowOf, realArith]
    rw [zero]
    exact not_lt.2 (lit_pos (by norm_num)).le
  have row : gramSchmidt realArith 1 1 (fun _ => (0 : ℝ)) = fun _ => 0 := by
    change normalize realArith 1 0 (fun _ => (0 : ℝ)) = _
    rw [normalize, if_neg short]
  change ∑ j ∈ range 1, gramSchmidt realArith 1 1 (fun _ => (0 : ℝ)) (0 * 1 + j) * _ = 1 at back
  rw [row] at back
  simp at back

end VecFetch.Rabitq
