/-
# Theory.RotationPair -- a transform, its inverse and its matrix

A buffer is a function on indices, of which the first `n` count.  `RotationPair n A B` says
that `A` is linear and keeps inner products and that `B` undoes it from both sides.  Such
pairs compose and stand beside each other, and the matrix whose rows are the images of the
unit vectors does what `A` does, and its transpose what `B` does.
-/
import Mathlib.Algebra.BigOperators.Ring.Finset
import Mathlib.Algebra.BigOperators.Intervals
import Mathlib.Tactic.Ring
import Mathlib.LinearAlgebra.Matrix.NonsingularInverse

namespace VecFetch.Theory

open Finset

set_option autoImplicit false

variable {K : Type} [CommRing K]

/-- The inner product of two buffers. -/
def dot (n : ℕ) (x y : ℕ → K) : K := ∑ i ∈ range n, x i * y i

theorem dot_comm (n : ℕ) (x y : ℕ → K) : dot n x y = dot n y x :=
  sum_congr rfl fun _ _ => mul_comm _ _

theorem dot_congr {n : ℕ} {x x' y y' : ℕ → K} (sameX : ∀ i, i < n → x i = x' i)
    (sameY : ∀ i, i < n → y i = y' i) : dot n x y = dot n x' y' := by
  refine sum_congr rfl fun i mem => ?_
  rw [sameX i (mem_range.1 mem), sameY i (mem_range.1 mem)]

theorem dot_add (m k : ℕ) (x y : ℕ → K) :
    dot (m + k) x y = dot m x y + dot k (fun i => x (m + i)) fun i => y (m + i) :=
  sum_range_add _ m k

/-- The inner product with a unit vector. -/
theorem dot_single {n i : ℕ} (inside : i < n) (x : ℕ → K) : dot n (Pi.single i 1) x = x i := by
  rw [dot, sum_eq_single i]
  · rw [Pi.single_eq_same, one_mul]
  · intro j _ apart
    rw [Pi.single_eq_of_ne apart, zero_mul]
  · intro outside
    exact absurd (mem_range.2 inside) outside

/-- `A` is a rotation of the first `n` entries, and `B` its inverse. -/
structure RotationPair (n : ℕ) (A B : (ℕ → K) → ℕ → K) : Prop where
  linear : ∀ x j, j < n → A x j = ∑ i ∈ range n, x i * A (Pi.single i 1) j
  back : ∀ x i, i < n → B (A x) i = x i
  forth : ∀ x i, i < n → A (B x) i = x i
  dot : ∀ x y, dot n (A x) (A y) = dot n x y
  sees : ∀ x y, (∀ i, i < n → x i = y i) → ∀ i, i < n → B x i = B y i

namespace RotationPair

variable {n m k : ℕ} {A B A' B' : (ℕ → K) → ℕ → K}

/-- Only the first `n` entries are looked at. -/
theorem congr (pair : RotationPair n A B) {x y : ℕ → K} (same : ∀ i, i < n → x i = y i) {j : ℕ}
    (inside : j < n) : A x j = A y j := by
  rw [pair.linear x j inside, pair.linear y j inside]
  exact sum_congr rfl fun i mem => by rw [same i (mem_range.1 mem)]

/-- A buffer of zeros stays one. -/
theorem zero (pair : RotationPair n A B) {x : ℕ → K} (zeros : ∀ i, i < n → x i = 0) {j : ℕ}
    (inside : j < n) : A x j = 0 := by
  rw [pair.linear x j inside]
  exact sum_eq_zero fun i mem => by rw [zeros i (mem_range.1 mem), zero_mul]

/-- Transforms that do the same to the first `n` entries. -/
theorem of_eq (pair : RotationPair n A B) (sameA : ∀ x i, i < n → A' x i = A x i)
    (sameB : ∀ x i, i < n → B' x i = B x i) : RotationPair n A' B' where
  linear x j inside := by
    rw [sameA x j inside, pair.linear x j inside]
    exact sum_congr rfl fun i _ => by rw [sameA _ j inside]
  back x i inside := by
    rw [sameB _ i inside, pair.sees _ _ (sameA x) i inside, pair.back x i inside]
  forth x i inside := by
    rw [sameA _ i inside, pair.congr (sameB x) inside, pair.forth x i inside]
  dot x y := by rw [dot_congr (sameA x) (sameA y), pair.dot]
  sees x y same i inside := by
    rw [sameB x i inside, sameB y i inside]
    exact pair.sees x y same i inside

theorem refl (n : ℕ) : RotationPair n (fun x : ℕ → K => x) fun x => x where
  linear x j inside := by
    have only := dot_single inside x
    rw [dot_comm] at only
    rw [← only]
    refine sum_congr rfl fun i _ => ?_
    simp only [Pi.single_apply, eq_comm]
  back _ _ _ := rfl
  forth _ _ _ := rfl
  dot _ _ := rfl
  sees _ _ same := same

/-- One rotation after another; the inverses come the other way round. -/
theorem comp (first : RotationPair n A B) (second : RotationPair n A' B') :
    RotationPair n (fun x => A' (A x)) fun x => B (B' x) where
  linear x j inside := by
    rw [second.linear _ j inside]
    have outer : ∀ i ∈ range n, A x i * A' (Pi.single i 1) j =
        ∑ l ∈ range n, x l * (A (Pi.single l 1) i * A' (Pi.single i 1) j) := by
      intro i mem
      rw [first.linear x i (mem_range.1 mem), sum_mul]
      exact sum_congr rfl fun l _ => mul_assoc _ _ _
    rw [sum_congr rfl outer, sum_comm]
    refine sum_congr rfl fun l _ => ?_
    rw [← mul_sum, second.linear (A (Pi.single l 1)) j inside]
  back x i inside := by
    rw [first.sees _ _ (second.back (A x)) i inside, first.back x i inside]
  forth x i inside := by
    rw [second.congr (first.forth (B' x)) inside, second.forth x i inside]
  dot x y := by rw [second.dot, first.dot]
  sees x y same i inside := first.sees _ _ (second.sees x y same) i inside

/-- Entries taken from other places, and put back. -/
theorem reindex {p : ℕ → ℕ} (maps : ∀ i, i < n → p i < n)
    (apart : ∀ i, i < n → ∀ j, j < n → p i = p j → i = j) (onto : ∀ j, j < n → ∃ i, i < n ∧ p i = j)
    (takes : ∀ x i, i < n → A x i = x (p i)) (puts : ∀ x i, i < n → B x (p i) = x i) :
    RotationPair n A B where
  linear x j inside := by
    have only := dot_single (maps j inside) x
    rw [dot_comm] at only
    rw [takes x j inside, ← only]
    refine sum_congr rfl fun i _ => ?_
    rw [takes _ j inside]
    simp only [Pi.single_apply, eq_comm]
  back x j inside := by
    obtain ⟨i, below, rfl⟩ := onto j inside
    rw [puts _ i below, takes x i below]
  forth x i inside := by rw [takes _ i inside, puts x i inside]
  dot x y := by
    refine sum_nbij p (fun i mem => mem_range.2 (maps i (mem_range.1 mem))) ?_ ?_ fun i mem => ?_
    · intro i inRange j inRange' same
      exact apart i (mem_range.1 inRange) j (mem_range.1 inRange') same
    · intro j inRange
      obtain ⟨i, below, same⟩ := onto j (mem_range.1 inRange)
      exact ⟨i, mem_range.2 below, same⟩
    · rw [takes x i (mem_range.1 mem), takes y i (mem_range.1 mem)]
  sees x y same j inside := by
    obtain ⟨i, below, rfl⟩ := onto j inside
    rw [puts x i below, puts y i below, same i below]

end RotationPair

/-! ## Side by side -/

/-- One transform on the first `m` entries, another on what follows them. -/
def beside (m : ℕ) (A A' : (ℕ → K) → ℕ → K) (x : ℕ → K) (i : ℕ) : K :=
  if i < m then A x i else A' (fun l => x (m + l)) (i - m)

section Beside

variable {n m k : ℕ} {A B A' B' : (ℕ → K) → ℕ → K}

omit [CommRing K] in
theorem beside_left {i : ℕ} (inside : i < m) (x : ℕ → K) : beside m A A' x i = A x i :=
  if_pos inside

omit [CommRing K] in
theorem beside_right (x : ℕ → K) (i : ℕ) :
    beside m A A' x (m + i) = A' (fun l => x (m + l)) i := by
  rw [beside, if_neg (by omega), Nat.add_sub_cancel_left]

theorem single_shift (m i : ℕ) :
    (fun l => (Pi.single (m + i) 1 : ℕ → K) (m + l)) = Pi.single i 1 := by
  funext l
  simp only [Pi.single_apply, Nat.add_left_cancel_iff]

theorem RotationPair.beside (left : RotationPair m A B) (right : RotationPair k A' B') :
    RotationPair (m + k) (beside m A A') (beside m B B') where
  linear x j inside := by
    rw [sum_range_add]
    by_cases inLeft : j < m
    · have others : ∑ i ∈ range k, x (m + i) *
          Theory.beside m A A' (Pi.single (m + i) 1) j = 0 := by
        refine sum_eq_zero fun i _ => ?_
        rw [beside_left inLeft, left.zero (fun l below => Pi.single_eq_of_ne (by omega) _) inLeft,
          mul_zero]
      rw [others, add_zero, beside_left inLeft, left.linear x j inLeft]
      exact sum_congr rfl fun i _ => by rw [beside_left inLeft]
    · obtain ⟨l, rfl⟩ := Nat.exists_eq_add_of_le (Nat.le_of_not_lt inLeft)
      have inRight : l < k := by omega
      have others : ∑ i ∈ range m, x i * Theory.beside m A A' (Pi.single i 1) (m + l) = 0 := by
        refine sum_eq_zero fun i mem => ?_
        have below := mem_range.1 mem
        rw [beside_right, right.zero (fun l' _ => Pi.single_eq_of_ne (by omega) _) inRight,
          mul_zero]
      rw [others, zero_add, beside_right, right.linear _ l inRight]
      exact sum_congr rfl fun i _ => by rw [beside_right, single_shift]
  back x i inside := by
    by_cases inLeft : i < m
    · rw [beside_left inLeft, left.sees _ (A x) (fun l below => beside_left below x) i inLeft,
        left.back x i inLeft]
    · obtain ⟨l, rfl⟩ := Nat.exists_eq_add_of_le (Nat.le_of_not_lt inLeft)
      rw [beside_right, right.sees _ (A' fun l => x (m + l)) (fun l' _ => beside_right x l') l
        (by omega), right.back _ l (by omega)]
  forth x i inside := by
    by_cases inLeft : i < m
    · rw [beside_left inLeft, left.congr (fun l below => beside_left below x) inLeft,
        left.forth x i inLeft]
    · obtain ⟨l, rfl⟩ := Nat.exists_eq_add_of_le (Nat.le_of_not_lt inLeft)
      have inRight : l < k := by omega
      rw [beside_right, right.congr (fun l' _ => beside_right x l') inRight,
        right.forth _ l inRight]
  dot x y := by
    rw [dot_add, dot_add, dot_congr (fun i below => beside_left below x)
      (fun i below => beside_left below y), left.dot]
    simp only [beside_right]
    rw [right.dot]
  sees x y same i inside := by
    by_cases inLeft : i < m
    · rw [beside_left inLeft, beside_left inLeft]
      exact left.sees x y (fun l below => same l (by omega)) i inLeft
    · obtain ⟨l, rfl⟩ := Nat.exists_eq_add_of_le (Nat.le_of_not_lt inLeft)
      rw [beside_right, beside_right]
      exact right.sees _ _ (fun l' below => same (m + l') (by omega)) l (by omega)

/-- A rotation of the first entries that leaves the others alone. -/
theorem RotationPair.extend (pair : RotationPair m A B) (k : ℕ)
    (keepsA : ∀ x i, m ≤ i → A x i = x i) (keepsB : ∀ x i, m ≤ i → B x i = x i) :
    RotationPair (m + k) A B := by
  have same : ∀ C : (ℕ → K) → ℕ → K, (∀ x i, m ≤ i → C x i = x i) → ∀ x i,
      C x i = Theory.beside m C (fun y => y) x i := by
    intro C keeps x i
    rw [Theory.beside]
    split
    · rfl
    · rename_i behind
      dsimp only
      rw [keeps x i (by omega), Nat.add_sub_cancel' (by omega)]
  exact (pair.beside (RotationPair.refl k)).of_eq (fun x i _ => same A keepsA x i)
    fun x i _ => same B keepsB x i

/-- Sums and differences of two halves, scaled by the root of one half. -/
theorem RotationPair.mix {scale : K} (unit : scale * scale * 2 = 1)
    (low : ∀ x i, i < m → A x i = (x i + x (m + i)) * scale)
    (high : ∀ x i, i < m → A x (m + i) = (x i - x (m + i)) * scale) :
    RotationPair (m + m) A A := by
  have twice : ∀ x i, i < m + m → A (A x) i = x i := by
    intro x i inside
    by_cases inLow : i < m
    · rw [low _ i inLow, low x i inLow, high x i inLow]
      calc ((x i + x (m + i)) * scale + (x i - x (m + i)) * scale) * scale =
            scale * scale * 2 * x i := by ring
        _ = x i := by rw [unit, one_mul]
    · obtain ⟨l, rfl⟩ := Nat.exists_eq_add_of_le (Nat.le_of_not_lt inLow)
      have inside' : l < m := by omega
      rw [high _ l inside', low x l inside', high x l inside']
      calc ((x l + x (m + l)) * scale - (x l - x (m + l)) * scale) * scale =
            scale * scale * 2 * x (m + l) := by ring
        _ = x (m + l) := by rw [unit, one_mul]
  -- an entry as a sum over the unit vectors
  have spread : ∀ (x : ℕ → K) j, j < m + m →
      ∑ i ∈ range (m + m), x i * (Pi.single i 1 : ℕ → K) j = x j := by
    intro x j inside
    have only := dot_single inside x
    rw [dot_comm] at only
    rw [← only]
    refine sum_congr rfl fun i _ => ?_
    simp only [Pi.single_apply, eq_comm]
  refine ⟨fun x j inside => ?_, twice, twice, fun x y => ?_, fun x y same i inside => ?_⟩
  · by_cases inLow : j < m
    · rw [low x j inLow, ← spread x j inside, ← spread x (m + j) (by omega), ← sum_add_distrib,
        sum_mul]
      refine sum_congr rfl fun i _ => ?_
      rw [low _ j inLow]
      ring
    · obtain ⟨l, rfl⟩ := Nat.exists_eq_add_of_le (Nat.le_of_not_lt inLow)
      have inside' : l < m := by omega
      rw [high x l inside', ← spread x l (by omega), ← spread x (m + l) inside,
        ← sum_sub_distrib, sum_mul]
      refine sum_congr rfl fun i _ => ?_
      rw [high _ l inside']
      ring
  · rw [dot_add, dot_add, Theory.dot, Theory.dot, Theory.dot, Theory.dot, ← sum_add_distrib,
      ← sum_add_distrib]
    refine sum_congr rfl fun i mem => ?_
    have inLow := mem_range.1 mem
    rw [low x i inLow, low y i inLow, high x i inLow, high y i inLow]
    calc (x i + x (m + i)) * scale * ((y i + y (m + i)) * scale) +
          (x i - x (m + i)) * scale * ((y i - y (m + i)) * scale) =
          scale * scale * 2 * (x i * y i + x (m + i) * y (m + i)) := by ring
      _ = x i * y i + x (m + i) * y (m + i) := by rw [unit, one_mul]
  · by_cases inLow : i < m
    · rw [low x i inLow, low y i inLow, same i inside, same (m + i) (by omega)]
    · obtain ⟨l, rfl⟩ := Nat.exists_eq_add_of_le (Nat.le_of_not_lt inLow)
      rw [high x l (by omega), high y l (by omega), same l (by omega), same (m + l) inside]

/-- Rounds in order, undone in the reverse order. -/
theorem RotationPair.rounds {F G : ℕ → (ℕ → K) → ℕ → K} {count : ℕ}
    (each : ∀ r, r < count → RotationPair n (F r) (G r)) :
    RotationPair n (fun x => (List.range count).foldl (fun v r => F r v) x)
      fun x => (List.range count).reverse.foldl (fun v r => G r v) x := by
  induction count with
  | zero => exact RotationPair.refl n
  | succ count ih =>
      simp only [List.range_succ, List.foldl_append, List.foldl_cons, List.foldl_nil,
        List.reverse_append, List.reverse_cons, List.reverse_nil, List.nil_append]
      exact (ih fun r below => each r (by omega)).comp (each count (by omega))

end Beside

/-! ## The matrix of a rotation -/

section Matrix

variable {n : ℕ} {A B : (ℕ → K) → ℕ → K}

/-- Row after row, the images of the unit vectors. -/
def IsMatrixOf (n : ℕ) (data : ℕ → K) (A : (ℕ → K) → ℕ → K) : Prop :=
  ∀ i, i < n → ∀ j, j < n → data (i * n + j) = A (Pi.single i 1) j

/-- The transpose times a vector. -/
theorem RotationPair.transpose_mul (pair : RotationPair n A B) {data : ℕ → K}
    (matrix : IsMatrixOf n data A) (x : ℕ → K) {j : ℕ} (inside : j < n) :
    ∑ i ∈ range n, data (i * n + j) * x i = A x j := by
  rw [pair.linear x j inside]
  refine sum_congr rfl fun i mem => ?_
  rw [matrix i (mem_range.1 mem) j inside, mul_comm]

/-- The matrix times a vector. -/
theorem RotationPair.mul (pair : RotationPair n A B) {data : ℕ → K}
    (matrix : IsMatrixOf n data A) (x : ℕ → K) {i : ℕ} (inside : i < n) :
    ∑ j ∈ range n, data (i * n + j) * x j = B x i := by
  have moved := pair.dot (Pi.single i 1) (B x)
  rw [dot_single inside, dot_congr (fun _ _ => rfl) (pair.forth x)] at moved
  rw [← moved]
  refine sum_congr rfl fun j mem => ?_
  rw [matrix i inside j (mem_range.1 mem)]

/-- A square matrix whose rows are orthonormal is one of a rotation. -/
theorem RotationPair.of_rows {data : ℕ → K}
    (rows : ∀ i, i < n → ∀ l, l < n →
      ∑ j ∈ range n, data (i * n + j) * data (l * n + j) = if i = l then 1 else 0) :
    RotationPair n (fun x j => ∑ i ∈ range n, data (i * n + j) * x i)
      fun x i => ∑ j ∈ range n, data (i * n + j) * x j := by
  -- orthonormal rows of a square matrix make orthonormal columns
  have columns : ∀ j, j < n → ∀ l, l < n →
      ∑ i ∈ range n, data (i * n + j) * data (i * n + l) = if j = l then 1 else 0 := by
    let M : Matrix (Fin n) (Fin n) K := fun i j => data (i * n + j)
    have left : M * M.transpose = 1 := by
      ext i l
      rw [Matrix.mul_apply, Matrix.one_apply]
      have row := rows i i.isLt l l.isLt
      rw [sum_range] at row
      simp only [← Fin.ext_iff] at row
      exact row
    have right := mul_eq_one_comm.1 left
    intro j inside l inside'
    have entry := congrFun (congrFun right ⟨j, inside⟩) ⟨l, inside'⟩
    rw [Matrix.mul_apply, Matrix.one_apply] at entry
    rw [sum_range]
    simp only [Fin.ext_iff] at entry
    exact entry
  have pick : ∀ (x : ℕ → K) (i : ℕ) (g : ℕ → K), i < n →
      (∀ l, l < n → g l = if i = l then 1 else 0) → ∑ l ∈ range n, g l * x l = x i := by
    intro x i g inside delta
    rw [sum_eq_single i]
    · rw [delta i inside, if_pos rfl, one_mul]
    · intro l mem apart
      rw [delta l (mem_range.1 mem), if_neg apart.symm, zero_mul]
    · intro outside
      exact absurd (mem_range.2 inside) outside
  refine ⟨fun x j inside => ?_, fun x i inside => ?_, fun x j inside => ?_, fun x y => ?_,
    fun x y same i _ => ?_⟩
  · refine sum_congr rfl fun i mem => ?_
    have only := dot_single (mem_range.1 mem) fun l => data (l * n + j)
    rw [dot_comm] at only
    rw [← only, mul_comm, Theory.dot]
  · have spread : ∀ j ∈ range n, data (i * n + j) * ∑ l ∈ range n, data (l * n + j) * x l =
        ∑ l ∈ range n, data (i * n + j) * data (l * n + j) * x l := fun j _ => by
      rw [mul_sum]
      exact sum_congr rfl fun l _ => (mul_assoc _ _ _).symm
    rw [sum_congr rfl spread, sum_comm]
    simp only [← sum_mul]
    exact pick x i _ inside fun l below => rows i inside l below
  · have spread : ∀ i ∈ range n, data (i * n + j) * ∑ l ∈ range n, data (i * n + l) * x l =
        ∑ l ∈ range n, data (i * n + j) * data (i * n + l) * x l := fun i _ => by
      rw [mul_sum]
      exact sum_congr rfl fun l _ => (mul_assoc _ _ _).symm
    rw [sum_congr rfl spread, sum_comm]
    simp only [← sum_mul]
    exact pick x j _ inside fun l below => columns j inside l below
  · have spread : ∀ j ∈ range n, (∑ i ∈ range n, data (i * n + j) * x i) *
        (∑ l ∈ range n, data (l * n + j) * y l) =
          ∑ i ∈ range n, x i * ∑ l ∈ range n, data (i * n + j) * data (l * n + j) * y l := by
      intro j _
      rw [sum_mul]
      refine sum_congr rfl fun i _ => ?_
      rw [mul_comm (data (i * n + j)), mul_assoc, mul_sum]
      refine congrArg _ (sum_congr rfl fun l _ => (mul_assoc _ _ _).symm)
    rw [Theory.dot, sum_congr rfl spread, sum_comm]
    refine sum_congr rfl fun i mem => ?_
    rw [← mul_sum, sum_comm]
    simp only [← sum_mul]
    rw [pick y i _ (mem_range.1 mem) fun l below => rows i (mem_range.1 mem) l below]
  · exact sum_congr rfl fun j mem => by rw [same j (mem_range.1 mem)]

end Matrix

end VecFetch.Theory
