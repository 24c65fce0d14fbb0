/-
# Rabitq.RotationFast -- the stages of a rotation are rotations

Signs, a scaled transform, a permutation and a half mix each keep inner products and are
undone by their inverse; blocks beside each other and rounds after each other inherit that
(`blockedFast_rotationPair`, `fhtKacFast_rotationPair`).  The sizes that the generators
compute are powers of two that fill the dimension.
-/
import VecFetch.Rabitq.Rotation
import Mathlib.Algebra.Order.BigOperators.Ring.Finset
import Mathlib.Tactic.FieldSimp
import Mathlib.Tactic.Positivity
import Mathlib.Data.List.Perm.Basic

namespace VecFetch.Rabitq

open VecFetch.Theory VecFetch.Simd Finset

set_option autoImplicit false

/-! ## Sizes -/

theorem isPowerOf2_spec {n : UInt32} (power : isPowerOf2 n = true) :
    ∃ k, k ≤ 32 ∧ n.toNat = 2 ^ k := by
  rw [isPowerOf2, Bool.and_eq_true, decide_eq_true_iff, beq_iff_eq] at power
  obtain ⟨positive, noBits⟩ := power
  rw [UInt32.lt_iff_toNat_lt] at positive
  have atLeastOne : (1 : UInt32) ≤ n := UInt32.le_iff_toNat_le.2 positive
  have value := congrArg UInt32.toNat noBits
  rw [UInt32.toNat_and, UInt32.toNat_sub_of_le _ _ atLeastOne] at value
  obtain ⟨k, power⟩ := (Nat.and_sub_one_eq_zero_iff_isPowerOfTwo
    (Nat.ne_of_gt positive)).1 value
  refine ⟨k, ?_, power⟩
  by_contra large
  have := Nat.pow_lt_pow_right (show 1 < 2 by decide) (Nat.lt_of_not_le large)
  have := n.toNat_lt
  omega

/-- A size that is a power of two. -/
def IsPower (n : UInt32) : Prop := ∃ k, k ≤ 32 ∧ n.toNat = 2 ^ k

theorem doubleUpTo_spec (value : UInt32) (fuel : ℕ) {p : UInt32} (power : IsPower p)
    (small : p ≤ value) :
    IsPower (doubleUpTo value fuel p) ∧ doubleUpTo value fuel p ≤ value := by
  induction fuel generalizing p with
  | zero => exact ⟨power, small⟩
  | succ fuel ih =>
      rw [doubleUpTo]
      split
      · rename_i grows
        obtain ⟨larger, inside⟩ := grows
        refine ih ?_ inside
        obtain ⟨k, -, size⟩ := power
        have double : (p <<< 1).toNat = p.toNat * 2 % 2 ^ 32 := by
          rw [UInt32.toNat_shiftLeft, UInt32.toNat_one, Nat.shiftLeft_eq]
        -- a product that wraps is not larger
        have whole : p.toNat * 2 < 2 ^ 32 := by
          rw [UInt32.lt_iff_toNat_lt, double] at larger
          have := p.toNat_lt
          omega
        have next : (p <<< 1).toNat = 2 ^ (k + 1) := by
          rw [double, Nat.mod_eq_of_lt whole, size, Nat.pow_succ]
        refine ⟨k + 1, ?_, next⟩
        by_contra large
        have := Nat.pow_lt_pow_right (show 1 < 2 by decide) (Nat.lt_of_not_le large)
        have := (p <<< 1).toNat_lt
        omega
      · exact ⟨power, small⟩

theorem floorPowerOf2_spec {value : UInt32} (positive : 0 < value) :
    IsPower (floorPowerOf2 value) ∧ floorPowerOf2 value ≤ value := by
  refine doubleUpTo_spec value 32 ⟨0, by decide, rfl⟩ ?_
  rw [UInt32.lt_iff_toNat_lt] at positive
  exact UInt32.le_iff_toNat_le.2 positive

/-- The blocks are powers of two and fill what remains. -/
theorem greedyBlocks_spec (fuel : ℕ) {remaining : UInt32} (enough : remaining.toNat ≤ fuel) :
    (∀ size ∈ greedyBlocks fuel remaining, IsPower size) ∧
      ((greedyBlocks fuel remaining).map UInt32.toNat).sum = remaining.toNat := by
  induction fuel generalizing remaining with
  | zero =>
      refine ⟨fun size mem => absurd mem List.not_mem_nil, ?_⟩
      rw [greedyBlocks, List.map_nil, List.sum_nil]
      omega
  | succ fuel ih =>
      rw [greedyBlocks]
      split
      · rename_i positive
        obtain ⟨power, small⟩ := floorPowerOf2_spec positive
        have taken := UInt32.toNat_sub_of_le _ _ small
        rw [UInt32.le_iff_toNat_le] at small
        have some_ : 0 < (floorPowerOf2 remaining).toNat := by
          obtain ⟨k, -, size⟩ := power
          rw [size]
          exact Nat.two_pow_pos k
        obtain ⟨powers, total⟩ := ih (show (remaining - floorPowerOf2 remaining).toNat ≤ fuel by
          omega)
        refine ⟨List.forall_mem_cons.2 ⟨power, powers⟩, ?_⟩
        rw [List.map_cons, List.sum_cons, total]
        omega
      · rename_i none
        rw [UInt32.lt_iff_toNat_lt] at none
        refine ⟨fun size mem => absurd mem List.not_mem_nil, ?_⟩
        rw [List.map_nil, List.sum_nil]
        simp only [UInt32.reduceToNat] at none
        omega

/-! ## Signs and scales -/

theorem randomSigns_mul_self {K : Type} (rng : Rng K) {n i : ℕ} (inside : i < n) :
    (RotationMatrix.randomSigns rng n).getD i 0 * (RotationMatrix.randomSigns rng n).getD i 0 =
      1 := by
  rw [RotationMatrix.randomSigns, List.getD_eq_getElem?_getD, List.getElem?_map,
    List.getElem?_range inside]
  cases coin : rng.coin i <;> simp [coin]

theorem fillMatrix_apply {K : Type} {L i j : ℕ} (inside : j < L) (entry : ℕ → ℕ → K) :
    fillMatrix L entry (i * L + j) = entry i j := by
  have positive : 0 < L := by omega
  rw [fillMatrix, Nat.mul_comm, Nat.mul_add_div positive, Nat.div_eq_of_lt inside, Nat.add_zero,
    Nat.mul_add_mod, Nat.mod_eq_of_lt inside]

section Stages

variable {K : Type} [Field K]

theorem sumTo_eq (n : ℕ) (f : ℕ → K) : sumTo n f = ∑ k ∈ range n, f k := by
  induction n with
  | zero => rfl
  | succ n ih =>
      rw [sum_range_succ, ← ih, sumTo, sumTo, List.range_succ, List.foldl_append]
      rfl

theorem scaleBy_low {n i : ℕ} (inside : i < n) (factor values : ℕ → K) :
    scaleBy n factor values i = values i * factor i := if_pos inside

theorem scaleBy_high {n i : ℕ} (outside : n ≤ i) (factor values : ℕ → K) :
    scaleBy n factor values i = values i := if_neg (Nat.not_lt.2 outside)

theorem copyOf_low {n i : ℕ} (inside : i < n) (values : ℕ → K) : copyOf n values i = values i :=
  if_pos inside

/-- Multiplying with signs is its own inverse. -/
theorem signs_rotationPair {n : ℕ} {factor : ℕ → K}
    (unit : ∀ i, i < n → factor i * factor i = 1) :
    RotationPair n (scaleBy n factor) (scaleBy n factor) := by
  have twice : ∀ (x : ℕ → K) (i : ℕ), i < n → scaleBy n factor (scaleBy n factor x) i = x i := by
    intro x i inside
    rw [scaleBy_low inside, scaleBy_low inside, mul_assoc, unit i inside, mul_one]
  refine ⟨fun x j inside => ?_, twice, twice, fun x y => ?_, fun x y same i inside => ?_⟩
  · rw [scaleBy_low inside, sum_eq_single j]
    · rw [scaleBy_low inside, Pi.single_eq_same, one_mul]
    · intro i _ apart
      rw [scaleBy_low inside, Pi.single_eq_of_ne apart.symm, zero_mul, mul_zero]
    · intro outside
      exact absurd (mem_range.2 inside) outside
  · refine sum_congr rfl fun i mem => ?_
    have inside := mem_range.1 mem
    rw [scaleBy_low inside, scaleBy_low inside]
    calc x i * factor i * (y i * factor i) = factor i * factor i * (x i * y i) := by ring
      _ = x i * y i := by rw [unit i inside, one_mul]
  · rw [scaleBy_low inside, scaleBy_low inside, same i inside]

end Stages

/-! ## One transform -/

section Transform

variable {K : Type} [Field K] [LinearOrder K] [IsStrictOrderedRing K]
  (avx512 : Bool) (arith : ExactArith K)

theorem invSqrt_mul_self (k : ℕ) :
    invSqrt arith (2 ^ k) * invSqrt arith (2 ^ k) * 2 ^ k = (1 : K) := by
  have positive : (0 : K) < 2 ^ k := by positivity
  have square := arith.sqrt_mul_self ((2 ^ k : ℕ) : K) (by positivity)
  have root : arith.sqrt ((2 ^ k : ℕ) : K) ≠ 0 := fun zero => by
    rw [zero, mul_zero] at square
    exact absurd square.symm (by positivity)
  rw [invSqrt]
  field_simp
  rw [pow_two, square]
  push_cast
  rfl

/-- A scaled transform of the first entries. -/
theorem fwht_rotationPair {k : ℕ} (fits : k ≤ 32) :
    RotationPair (2 ^ k)
      (fun values => scaleBy (2 ^ k) (fun _ => invSqrt arith (2 ^ k)) (fwht avx512 values (2 ^ k)))
      fun values => scaleBy (2 ^ k) (fun _ => invSqrt arith (2 ^ k))
        (fwht avx512 values (2 ^ k)) := by
  have same : ∀ (x : ℕ → K) (i : ℕ), i < 2 ^ k →
      scaleBy (2 ^ k) (fun _ => invSqrt arith (2 ^ k)) (fwht avx512 x (2 ^ k)) i =
        walsh k x i * invSqrt arith (2 ^ k) := fun x i inside => by
    rw [scaleBy_low inside, fwht_low avx512 fits x inside]
  exact (walsh_rotationPair (invSqrt_mul_self arith k)).of_eq same same

variable {signs : ℕ → ℤ}

theorem diagonalBlock_rotationPair {k : ℕ} (fits : k ≤ 32)
    (unit : ∀ i, i < 2 ^ k → signs i * signs i = 1) :
    RotationPair (2 ^ k) (applyHadamardDiagonalBlock avx512 arith signs (2 ^ k))
      (applyHadamardDiagonalBlockInverse avx512 arith signs (2 ^ k)) := by
  have units : ∀ i, i < 2 ^ k → (signs i : K) * (signs i : K) = 1 := fun i inside => by
    rw [← Int.cast_mul, unit i inside, Int.cast_one]
  refine ((fwht_rotationPair avx512 arith fits).comp (signs_rotationPair units)).of_eq
    (fun x i inside => ?_) fun x i inside => rfl
  rw [applyHadamardDiagonalBlock, scaleBy_low inside, scaleBy_low inside, scaleBy_low inside,
    mul_assoc]

end Transform

section Behind

variable {K : Type} [Field K] [LinearOrder K] (avx512 : Bool) (arith : ExactArith K)
  {signs : ℕ → ℤ} {k i : ℕ}

/-- A block leaves alone what lies behind it. -/
theorem diagonalBlock_high (fits : k ≤ 32) (outside : 2 ^ k ≤ i) (x : ℕ → K) :
    applyHadamardDiagonalBlock avx512 arith signs (2 ^ k) x i = x i := by
  rw [applyHadamardDiagonalBlock, scaleBy_high outside, fwht_high avx512 fits x outside]

theorem diagonalBlockInverse_high (fits : k ≤ 32) (outside : 2 ^ k ≤ i) (x : ℕ → K) :
    applyHadamardDiagonalBlockInverse avx512 arith signs (2 ^ k) x i = x i := by
  rw [applyHadamardDiagonalBlockInverse, scaleBy_high outside, fwht_high avx512 fits _ outside,
    scaleBy_high outside]

end Behind

/-! ## Blocks -/

section Blocks

variable {K : Type}

/-- The blocks beside each other. -/
def nested (f : (ℕ → ℤ) → ℕ → (ℕ → K) → ℕ → K) (signs : ℕ → ℤ) : List UInt32 → (ℕ → K) → ℕ → K
  | [] => fun x => x
  | size :: sizes =>
      beside size.toNat (f signs size.toNat) (nested f (fun i => signs (size.toNat + i)) sizes)

/-- The loop over the blocks, each of which leaves the ones behind it alone. -/
theorem forBlocks_eq {f : (ℕ → ℤ) → ℕ → (ℕ → K) → ℕ → K} {sizes : List UInt32}
    (keeps : ∀ size ∈ sizes, ∀ signs x i, size.toNat ≤ i → f signs size.toNat x i = x i)
    (signs : ℕ → ℤ) (offset : ℕ) (out : ℕ → K) :
    forBlocks f signs sizes offset out =
      atOffset offset (nested f (fun i => signs (offset + i)) sizes) out := by
  induction sizes generalizing offset out with
  | nil =>
      funext i
      rw [forBlocks, nested, atOffset, beside]
      split
      · rfl
      · dsimp only
        rw [Nat.add_sub_cancel' (by omega)]
  | cons size sizes ih =>
      funext i
      rw [forBlocks, ih fun size' mem => keeps size' (List.mem_cons_of_mem _ mem)]
      rw [nested, atOffset, atOffset, atOffset]
      simp only [beside]
      by_cases front : i < offset
      · rw [if_pos (by omega), if_pos front, if_pos front]
      · obtain ⟨l, rfl⟩ := Nat.exists_eq_add_of_le (Nat.le_of_not_lt front)
        rw [if_neg front, if_neg front, Nat.add_sub_cancel_left]
        by_cases block : l < size.toNat
        · rw [if_pos (by omega), if_pos block]
        · obtain ⟨l', rfl⟩ := Nat.exists_eq_add_of_le (Nat.le_of_not_lt block)
          -- what the later blocks see has not been touched
          have untouched : ∀ t, (if offset + size.toNat + t < offset
              then out (offset + size.toNat + t)
              else f (fun i => signs (offset + i)) size.toNat (fun l => out (offset + l))
                (offset + size.toNat + t - offset)) = out (offset + (size.toNat + t)) := by
            intro t
            rw [if_neg (by omega), keeps size List.mem_cons_self _ _ _ (by omega)]
            congr 1
            omega
          rw [if_neg (by omega), if_neg block, Nat.add_sub_cancel_left,
            show offset + (size.toNat + l') - (offset + size.toNat) = l' by omega]
          simp only [untouched]
          simp only [Nat.add_assoc]

theorem nested_rotationPair [Field K] {f g : (ℕ → ℤ) → ℕ → (ℕ → K) → ℕ → K} {sizes : List UInt32}
    (each : ∀ size ∈ sizes, ∀ signs : ℕ → ℤ,
      (∀ i, i < size.toNat → signs i * signs i = 1) →
        RotationPair size.toNat (f signs size.toNat) (g signs size.toNat)) {signs : ℕ → ℤ}
    (unit : ∀ i, i < (sizes.map UInt32.toNat).sum → signs i * signs i = 1) :
    RotationPair (sizes.map UInt32.toNat).sum (nested f signs sizes) (nested g signs sizes) := by
  induction sizes generalizing signs with
  | nil => exact RotationPair.refl 0
  | cons size sizes ih =>
      rw [List.map_cons, List.sum_cons] at unit ⊢
      exact (each size List.mem_cons_self signs fun i inside => unit i (by omega)).beside
        (ih (fun size' mem => each size' (List.mem_cons_of_mem _ mem)) fun i inside =>
          unit (size.toNat + i) (by omega))

theorem atOffset_zero (f : (ℕ → K) → ℕ → K) (x : ℕ → K) : atOffset 0 f x = f x := by
  funext i
  rw [atOffset, beside, if_neg (by omega), Nat.sub_zero]
  simp only [Nat.zero_add]

end Blocks

/-! ## The permutation -/

section Permutation

variable {K : Type} [Field K]

/-- The places below `n`, each once. -/
structure Permutes (permutation : List UInt32) (n : ℕ) : Prop where
  length : permutation.length = n
  maps : ∀ i, i < n → (permutation.getD i 0).toNat < n
  apart : ∀ i, i < n → ∀ j, j < n →
    (permutation.getD i 0).toNat = (permutation.getD j 0).toNat → i = j
  onto : ∀ j, j < n → ∃ i, i < n ∧ (permutation.getD i 0).toNat = j

theorem permutes_of_perm {permutation : List UInt32} {n : ℕ} (small : n ≤ 2 ^ 32)
    (perm : permutation.Perm ((List.range n).map UInt32.ofNat)) : Permutes permutation n := by
  have length : permutation.length = n := by
    rw [perm.length_eq, List.length_map, List.length_range]
  have distinct : permutation.Nodup := by
    refine perm.nodup_iff.2 (List.Nodup.map_on (fun i inRange j inRange' same => ?_)
      List.nodup_range)
    have values := congrArg UInt32.toNat same
    have below := List.mem_range.1 inRange
    have below' := List.mem_range.1 inRange'
    rwa [UInt32.toNat_ofNat', UInt32.toNat_ofNat', Nat.mod_eq_of_lt (by omega),
      Nat.mod_eq_of_lt (by omega)] at values
  have entry : ∀ i, (inside : i < permutation.length) →
      permutation.getD i 0 = permutation[i] := fun i inside => by
    rw [List.getD_eq_getElem?_getD, List.getElem?_eq_getElem inside, Option.getD_some]
  have inside' : ∀ i, i < n → i < permutation.length := fun i inside => by omega
  refine ⟨length, fun i inside => ?_, fun i inside j inside₂ same => ?_, fun j inside => ?_⟩
  · have mem := perm.subset (List.getElem_mem (inside' i inside))
    obtain ⟨place, inRange, same⟩ := List.mem_map.1 mem
    have below := List.mem_range.1 inRange
    rw [entry i (inside' i inside), ← same, UInt32.toNat_ofNat', Nat.mod_eq_of_lt (by omega)]
    exact below
  · rw [entry i (inside' i inside), entry j (inside' j inside₂)] at same
    exact (List.Nodup.getElem_inj_iff distinct).1 (UInt32.toNat_inj.1 same)
  · have mem := perm.symm.subset (List.mem_map_of_mem (f := UInt32.ofNat) (List.mem_range.2 inside))
    obtain ⟨i, below, same⟩ := List.getElem_of_mem mem
    refine ⟨i, by omega, ?_⟩
    rw [entry i below, same, UInt32.toNat_ofNat', Nat.mod_eq_of_lt (by omega)]

theorem scatter_apply {permutation : List UInt32} {n : ℕ} (permutes : Permutes permutation n)
    (tmp : ℕ → K) {i : ℕ} (inside : i < n) :
    scatter permutation tmp (permutation.getD i 0).toNat = tmp i := by
  have prefixes : ∀ m, m ≤ n → ∀ i, i < m → (List.range m).foldl (fun (out : ℕ → K) i =>
      Function.update out (permutation.getD i 0).toNat (tmp i)) (fun _ => 0)
        (permutation.getD i 0).toNat = tmp i := by
    intro m
    induction m with
    | zero => exact fun _ i none => absurd none (Nat.not_lt_zero i)
    | succ m ih =>
        intro within i below
        rw [List.range_succ, List.foldl_append, List.foldl_cons, List.foldl_nil]
        by_cases last : i = m
        · rw [last, Function.update_self]
        · rw [Function.update_of_ne fun same =>
            last (permutes.apart i (by omega) m (by omega) same)]
          exact ih (by omega) i (by omega)
  rw [scatter, permutes.length]
  exact prefixes n le_rfl i inside

theorem permutation_rotationPair {permutation : List UInt32} {n : ℕ}
    (permutes : Permutes permutation n) :
    RotationPair n
      (fun x : ℕ → K => copyOf permutation.length fun i => x (permutation.getD i 0).toNat)
      (scatter permutation) := by
  refine RotationPair.reindex permutes.maps permutes.apart permutes.onto (fun x i inside => ?_)
    fun x i inside => scatter_apply permutes x inside
  rw [permutes.length, copyOf_low inside]

end Permutation

/-! ## Rounds -/

section Rounds

variable {K : Type} [Field K] [LinearOrder K] (avx512 : Bool) (arith : ExactArith K)

/-- What the half mix has done after some pairs. -/
theorem mix_steps {half count : ℕ} (within : count ≤ half) (x : ℕ → K) (i : ℕ) :
    (List.range count).foldl (fun values i => mixPair arith half i values) x i =
      if i < count then (x i + x (half + i)) * arith.halfRoot
      else if half ≤ i ∧ i < half + count then (x (i - half) - x i) * arith.halfRoot
      else x i := by
  induction count generalizing i with
  | zero => rw [if_neg (by omega), if_neg (by omega), List.range_zero, List.foldl_nil]
  | succ count ih =>
      have before := ih (by omega)
      rw [List.range_succ, List.foldl_append, List.foldl_cons, List.foldl_nil, mixPair]
      -- both entries of the pair are as they were
      have first := before count
      rw [if_neg (by omega), if_neg (by omega)] at first
      have second := before (count + half)
      rw [if_neg (by omega), if_neg (by omega)] at second
      rw [first, second]
      by_cases upper : i = count + half
      · subst upper
        rw [Function.update_self, if_neg (by omega), if_pos (by omega), Nat.add_sub_cancel]
      · rw [Function.update_of_ne upper]
        by_cases lower : i = count
        · subst lower
          rw [Function.update_self, if_pos (by omega), Nat.add_comm half]
        · rw [Function.update_of_ne lower, before i]
          grind

theorem halfMix_rotationPair (half : ℕ) :
    RotationPair (half + half) (fun x : ℕ → K => applyNormalizedHalfMix arith x (half + half))
      fun x => applyNormalizedHalfMix arith x (half + half) := by
  have halves : (half + half) / 2 = half := by omega
  refine RotationPair.mix arith.halfRoot_mul_self (fun x i inside => ?_) fun x i inside => ?_
  · rw [applyNormalizedHalfMix, halves, mix_steps arith le_rfl, if_pos inside]
  · rw [applyNormalizedHalfMix, halves, mix_steps arith le_rfl, if_neg (by omega),
      if_pos (by omega), Nat.add_sub_cancel_left]

variable [IsStrictOrderedRing K]

theorem window_rotationPair {start k rest : ℕ} (fits : k ≤ 32) :
    RotationPair (start + (2 ^ k + rest))
      (fun x : ℕ → K => applyNormalizedFwhtWindow avx512 arith x start (2 ^ k))
      fun x => applyNormalizedFwhtWindow avx512 arith x start (2 ^ k) := by
  have behind : ∀ (x : ℕ → K) i, 2 ^ k ≤ i →
      scaleBy (2 ^ k) (fun _ => invSqrt arith (2 ^ k)) (fwht avx512 x (2 ^ k)) i = x i :=
    fun x i outside => by rw [scaleBy_high outside, fwht_high avx512 fits x outside]
  have inWindow := (RotationPair.refl start).beside
    ((fwht_rotationPair avx512 arith fits).extend rest behind behind)
  have same : ∀ (x : ℕ → K) i,
      applyNormalizedFwhtWindow avx512 arith x start (2 ^ k) i =
        beside start (fun y => y) (fun values => scaleBy (2 ^ k) (fun _ => invSqrt arith (2 ^ k))
          (fwht avx512 values (2 ^ k))) x i := by
    intro x i
    rw [applyNormalizedFwhtWindow, if_neg (Nat.ne_of_gt (Nat.two_pow_pos k)), atOffset]
  exact inWindow.of_eq (fun x i _ => same x i) fun x i _ => same x i

variable {signs : List ℤ} {dim : ℕ}

theorem round_rotationPair {k : ℕ} (fits : k ≤ 32) (inside : 2 ^ k ≤ dim) (even : dim % 2 = 0)
    (round : ℕ) (unit : ∀ i, i < dim →
      signs.getD (round * dim + i) 0 * signs.getD (round * dim + i) 0 = 1) :
    RotationPair dim (fun x => fhtKacRound avx512 arith signs dim (2 ^ k) x round)
      fun x => fhtKacRoundInverse avx512 arith signs dim (2 ^ k) x round := by
  have units : ∀ i, i < dim → ((signs.getD (round * dim + i) 0 : ℤ) : K) *
      ((signs.getD (round * dim + i) 0 : ℤ) : K) = 1 := fun i below => by
    rw [← Int.cast_mul, unit i below, Int.cast_one]
  have flip := signs_rotationPair units
  obtain ⟨rest, size⟩ : ∃ rest, dim = windowStart dim (2 ^ k) round + (2 ^ k + rest) := by
    refine ⟨dim - windowStart dim (2 ^ k) round - 2 ^ k, ?_⟩
    rw [windowStart]
    split <;> omega
  have window := @window_rotationPair K _ _ avx512 arith _ (windowStart dim (2 ^ k) round) k rest fits
  rw [← size] at window
  have mix := @halfMix_rotationPair K _ _ arith (dim / 2)
  rw [show dim / 2 + dim / 2 = dim by omega] at mix
  exact (flip.comp window).comp mix

end Rounds

/-! ## The fast paths -/

section Paths

variable {K : Type} [Field K] [LinearOrder K] [IsStrictOrderedRing K]
  (avx512 : Bool) (arith : ExactArith K)

theorem blockedFast_rotationPair {permutation sizes : List UInt32} {signs : List ℤ} {n : ℕ}
    (permutes : Permutes permutation n) (powers : ∀ size ∈ sizes, IsPower size)
    (total : (sizes.map UInt32.toNat).sum = n)
    (unit : ∀ i, i < n → signs.getD i 0 * signs.getD i 0 = 1) :
    RotationPair n (applyBlockedFast avx512 arith permutation sizes signs)
      (applyBlockedFastInverse avx512 arith permutation sizes signs) := by
  subst total
  have blocks := nested_rotationPair
    (f := applyHadamardDiagonalBlock avx512 arith)
    (g := applyHadamardDiagonalBlockInverse avx512 arith)
    (fun size mem signs unit => by
      obtain ⟨k, fits, power⟩ := powers size mem
      rw [power] at unit ⊢
      exact diagonalBlock_rotationPair avx512 arith fits unit) unit
  have keeps : ∀ size ∈ sizes, ∀ (signs : ℕ → ℤ) (x : ℕ → K) i, size.toNat ≤ i →
      applyHadamardDiagonalBlock avx512 arith signs size.toNat x i = x i := by
    intro size mem signs x i behind
    obtain ⟨k, fits, power⟩ := powers size mem
    rw [power] at behind ⊢
    exact diagonalBlock_high avx512 arith fits behind x
  have keepsInverse : ∀ size ∈ sizes, ∀ (signs : ℕ → ℤ) (x : ℕ → K) i, size.toNat ≤ i →
      applyHadamardDiagonalBlockInverse avx512 arith signs size.toNat x i = x i := by
    intro size mem signs x i behind
    obtain ⟨k, fits, power⟩ := powers size mem
    rw [power] at behind ⊢
    exact diagonalBlockInverse_high avx512 arith fits behind x
  refine ((permutation_rotationPair permutes).comp blocks).of_eq (fun x i _ => ?_) fun x i inside => ?_
  · rw [applyBlockedFast, forBlocks_eq keeps, atOffset_zero]
    simp only [Nat.zero_add]
  · rw [applyBlockedFastInverse, forBlocks_eq keepsInverse, atOffset_zero]
    simp only [Nat.zero_add]
    refine (permutation_rotationPair permutes).sees _ _ (fun j below => ?_) i inside
    refine blocks.sees _ _ (fun l below' => ?_) j below
    rw [permutes.length, copyOf_low below']

theorem fhtKacFast_rotationPair {signs : List ℤ} {dim k rounds : ℕ} (fits : k ≤ 32)
    (inside : 2 ^ k ≤ dim) (even : dim % 2 = 0)
    (unit : ∀ i, i < rounds * dim → signs.getD i 0 * signs.getD i 0 = 1) :
    RotationPair dim (applyFhtKacFast (K := K) avx512 arith signs dim (2 ^ k) rounds)
      (applyFhtKacFastInverse avx512 arith signs dim (2 ^ k) rounds) := by
  have all := @RotationPair.rounds K _ dim
    (fun round x => fhtKacRound avx512 arith signs dim (2 ^ k) x round)
    (fun round x => fhtKacRoundInverse avx512 arith signs dim (2 ^ k) x round) rounds
    fun round below => round_rotationPair avx512 arith fits inside even round fun i small =>
      unit _ (by
        have next := Nat.mul_le_mul_right dim (Nat.succ_le_of_lt below)
        rw [Nat.succ_mul] at next
        omega)
  refine all.of_eq (fun x i small => all.congr (fun j below => copyOf_low below x) small)
    fun x i small => all.sees _ _ (fun j below => copyOf_low below x) i small

end Paths

end VecFetch.Rabitq
