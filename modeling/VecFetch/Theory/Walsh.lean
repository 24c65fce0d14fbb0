/-
# Theory.Walsh -- the Walsh-Hadamard transform

The sign of two indices is the parity of the bits they share.  `walsh k` sums a buffer of
`2 ^ k` entries against these signs: it is its own inverse up to `2 ^ k` (`walsh_walsh`), it
scales inner products by `2 ^ k` (`dot_walsh`), and sums and differences of the transforms of
two halves are the transform of the whole (`walsh_succ_low`, `walsh_succ_high`).
-/
import VecFetch.Theory.RotationPair
import Mathlib.Tactic.Ring

namespace VecFetch.Theory

open Finset

set_option autoImplicit false

variable {K : Type} [CommRing K]

/-- -1 where both indices have the bit. -/
def bitSign (s t b : ℕ) : K := if s.testBit b && t.testBit b then -1 else 1

/-- The sign of two indices over their lowest `k` bits. -/
def walshSign (k s t : ℕ) : K := ∏ b ∈ range k, bitSign s t b

theorem bitSign_comm (s t b : ℕ) : (bitSign s t b : K) = bitSign t s b := by
  rw [bitSign, bitSign, Bool.and_comm]

theorem walshSign_comm (k s t : ℕ) : (walshSign k s t : K) = walshSign k t s :=
  prod_congr rfl fun b _ => bitSign_comm s t b

theorem walshSign_succ (k s t : ℕ) :
    (walshSign (k + 1) s t : K) = walshSign k s t * bitSign s t k :=
  prod_range_succ _ k

/-- A bit above the lowest `k` does not count. -/
theorem walshSign_add (k s t : ℕ) : (walshSign k (2 ^ k + s) t : K) = walshSign k s t := by
  refine prod_congr rfl fun b mem => ?_
  rw [bitSign, bitSign, Nat.testBit_two_pow_add_gt (mem_range.1 mem)]

theorem bitSign_low {k s : ℕ} (low : s < 2 ^ k) (t : ℕ) : (bitSign s t k : K) = 1 := by
  rw [bitSign, Nat.testBit_lt_two_pow low, Bool.false_and, if_neg Bool.false_ne_true]

theorem bitSign_high {k s : ℕ} (low : s < 2 ^ k) (t : ℕ) :
    (bitSign (2 ^ k + s) t k : K) = if t.testBit k then -1 else 1 := by
  rw [bitSign, Nat.testBit_two_pow_add_eq, Nat.testBit_lt_two_pow low, Bool.not_false,
    Bool.true_and]

/-- Indices below `2 ^ k` have no further bits. -/
theorem walshSign_of_low {k m s : ℕ} (low : s < 2 ^ k) (more : k ≤ m) (t : ℕ) :
    (walshSign m s t : K) = walshSign k s t := by
  induction m, more using Nat.le_induction with
  | base => rfl
  | succ m more ih =>
      have inside := Nat.lt_of_lt_of_le low (Nat.pow_le_pow_right (show 0 < 2 by decide) more)
      rw [walshSign_succ, ih, bitSign_low inside, mul_one]

/-- A product of signs by counting them. -/
theorem prod_sign_eq (p : ℕ → Bool) (n : ℕ) :
    (∏ b ∈ range n, if p b then -1 else 1 : K) =
      if ((List.range n).filter p).length % 2 = 1 then -1 else 1 := by
  induction n with
  | zero => rfl
  | succ n ih =>
      rw [prod_range_succ, ih, List.range_succ, List.filter_append, List.length_append]
      cases here : p n with
      | false => simp [here]
      | true =>
          simp only [here, List.filter_cons_of_pos, List.filter_nil, List.length_singleton, if_true]
          by_cases odd : ((List.range n).filter p).length % 2 = 1
          · rw [if_pos odd, if_neg (by omega), neg_mul_neg, one_mul]
          · rw [if_neg odd, if_pos (by omega), one_mul]

/-! ## The transform -/

/-- The transform of the first `2 ^ k` entries. -/
def walsh (k : ℕ) (x : ℕ → K) (t : ℕ) : K := ∑ s ∈ range (2 ^ k), walshSign k s t * x s

theorem walsh_congr {k : ℕ} {x y : ℕ → K} (same : ∀ i, i < 2 ^ k → x i = y i) (t : ℕ) :
    walsh k x t = walsh k y t :=
  sum_congr rfl fun s mem => by rw [same s (mem_range.1 mem)]

theorem walsh_single {k i : ℕ} (inside : i < 2 ^ k) (t : ℕ) :
    walsh k (Pi.single i (1 : K)) t = walshSign k i t := by
  have only := dot_single inside fun s => (walshSign k s t : K)
  rw [dot_comm] at only
  exact only

theorem walsh_linear (k : ℕ) (x : ℕ → K) (t : ℕ) :
    walsh k x t = ∑ i ∈ range (2 ^ k), x i * walsh k (Pi.single i 1) t := by
  refine sum_congr rfl fun i mem => ?_
  rw [walsh_single (mem_range.1 mem), mul_comm]

/-- Two columns of signs are orthogonal, or the same in their lowest bits. -/
theorem sum_walshSign (k s u : ℕ) :
    (∑ t ∈ range (2 ^ k), walshSign k s t * walshSign k t u : K) =
      if s % 2 ^ k = u % 2 ^ k then 2 ^ k else 0 := by
  induction k with
  | zero => simp [walshSign, Nat.mod_one]
  | succ k ih =>
      have upper : ∀ t ∈ range (2 ^ k), (walshSign (k + 1) s (2 ^ k + t) *
          walshSign (k + 1) (2 ^ k + t) u : K) =
            walshSign k s t * walshSign k t u *
              ((if s.testBit k then -1 else 1) * if u.testBit k then -1 else 1) := by
        intro t mem
        have low := mem_range.1 mem
        rw [walshSign_comm (k + 1) s, walshSign_succ, walshSign_succ, walshSign_add, walshSign_add,
          bitSign_high low, bitSign_high low, walshSign_comm k t s]
        ring
      have lower : ∀ t ∈ range (2 ^ k), (walshSign (k + 1) s t * walshSign (k + 1) t u : K) =
          walshSign k s t * walshSign k t u := by
        intro t mem
        have low := mem_range.1 mem
        rw [walshSign_succ, walshSign_succ, bitSign_comm s, bitSign_low low, bitSign_low low,
          mul_one, mul_one]
      have below := Nat.mod_lt s (Nat.two_pow_pos k)
      have below' := Nat.mod_lt u (Nat.two_pow_pos k)
      have split : ∀ n, n % 2 ^ (k + 1) = n % 2 ^ k + 2 ^ k * (n.testBit k).toNat := fun n => by
        rw [Nat.mod_pow_succ, Nat.toNat_testBit]
      rw [split s, split u, Nat.pow_succ, Nat.mul_two, sum_range_add, sum_congr rfl lower,
        sum_congr rfl upper, ← sum_mul, ih]
      -- the upper half doubles the sum or cancels it
      cases s.testBit k <;> cases u.testBit k <;>
        simp only [Bool.toNat_true, Bool.toNat_false, if_true, if_false, Bool.false_eq_true] <;>
        grind

/-- The transform undoes itself, up to `2 ^ k`. -/
theorem walsh_walsh {k u : ℕ} (inside : u < 2 ^ k) (x : ℕ → K) :
    walsh k (walsh k x) u = 2 ^ k * x u := by
  have spread : ∀ t ∈ range (2 ^ k), walshSign k t u * walsh k x t =
      ∑ s ∈ range (2 ^ k), walshSign k s t * walshSign k t u * x s := by
    intro t _
    rw [walsh, mul_sum]
    exact sum_congr rfl fun s _ => by ring
  rw [walsh, sum_congr rfl spread, sum_comm, sum_eq_single u]
  · rw [← sum_mul, sum_walshSign, if_pos rfl]
  · intro s mem apart
    rw [← sum_mul, sum_walshSign, Nat.mod_eq_of_lt (mem_range.1 mem), Nat.mod_eq_of_lt inside,
      if_neg apart, zero_mul]
  · intro outside
    exact absurd (mem_range.2 inside) outside

/-- The transform moves across an inner product. -/
theorem dot_walsh_left (k : ℕ) (x y : ℕ → K) :
    dot (2 ^ k) (walsh k x) y = dot (2 ^ k) x (walsh k y) := by
  have left : ∀ t ∈ range (2 ^ k), walsh k x t * y t =
      ∑ s ∈ range (2 ^ k), walshSign k s t * x s * y t := fun t _ => by rw [walsh, sum_mul]
  rw [dot, sum_congr rfl left, sum_comm]
  refine sum_congr rfl fun s _ => ?_
  rw [walsh, mul_sum]
  refine sum_congr rfl fun t _ => ?_
  rw [walshSign_comm k t s]
  ring

theorem dot_walsh (k : ℕ) (x y : ℕ → K) :
    dot (2 ^ k) (walsh k x) (walsh k y) = 2 ^ k * dot (2 ^ k) x y := by
  rw [dot_walsh_left, dot_congr (fun _ _ => rfl) (fun i inside => walsh_walsh inside y), dot, dot,
    mul_sum]
  exact sum_congr rfl fun i _ => by ring

/-! ## From halves -/

theorem walsh_succ_low {k j : ℕ} (low : j < 2 ^ k) (y : ℕ → K) :
    walsh (k + 1) y j = walsh k y j + walsh k (fun s => y (2 ^ k + s)) j := by
  rw [walsh, Nat.pow_succ, Nat.mul_two, sum_range_add]
  refine congrArg₂ _ (sum_congr rfl fun s _ => ?_) (sum_congr rfl fun s _ => ?_)
  · rw [walshSign_succ, bitSign_comm, bitSign_low low, mul_one]
  · rw [walshSign_succ, bitSign_comm, bitSign_low low, mul_one, walshSign_add]

theorem walsh_succ_high {k j : ℕ} (low : j < 2 ^ k) (y : ℕ → K) :
    walsh (k + 1) y (2 ^ k + j) = walsh k y j - walsh k (fun s => y (2 ^ k + s)) j := by
  rw [walsh, Nat.pow_succ, Nat.mul_two, sum_range_add, sub_eq_add_neg, walsh, walsh,
    ← sum_neg_distrib]
  refine congrArg₂ _ (sum_congr rfl fun s mem => ?_) (sum_congr rfl fun s mem => ?_)
  · rw [walshSign_succ, walshSign_comm k s, walshSign_add, walshSign_comm k j,
      bitSign_low (mem_range.1 mem), mul_one]
  · have both : ((2 ^ k + j).testBit k : Bool) = true := by
      rw [Nat.testBit_two_pow_add_eq, Nat.testBit_lt_two_pow low, Bool.not_false]
    rw [walshSign_succ, walshSign_add, walshSign_comm k s, walshSign_add, walshSign_comm k j,
      bitSign_high (mem_range.1 mem), both, if_pos rfl]
    ring

/-! ## Scaled -/

/-- The transform whose scale is the root of `1 / 2 ^ k` is a rotation, its own inverse. -/
theorem walsh_rotationPair {k : ℕ} {scale : K} (unit : scale * scale * 2 ^ k = 1) :
    RotationPair (2 ^ k) (fun x t => walsh k x t * scale) fun x t => walsh k x t * scale := by
  have twice : ∀ (x : ℕ → K) (i : ℕ), i < 2 ^ k →
      walsh k (fun t => walsh k x t * scale) i * scale = x i := by
    intro x i inside
    have out : walsh k (fun t => walsh k x t * scale) i = walsh k (walsh k x) i * scale := by
      rw [walsh, walsh, sum_mul]
      exact sum_congr rfl fun s _ => (mul_assoc _ _ _).symm
    rw [out, walsh_walsh inside]
    calc 2 ^ k * x i * scale * scale = scale * scale * 2 ^ k * x i := by ring
      _ = x i := by rw [unit, one_mul]
  refine ⟨fun x j _ => ?_, twice, twice, fun x y => ?_, fun x y same i _ => ?_⟩
  · rw [walsh_linear, sum_mul]
    exact sum_congr rfl fun i _ => mul_assoc _ _ _
  · have both : dot (2 ^ k) (fun t => walsh k x t * scale) (fun t => walsh k y t * scale) =
        dot (2 ^ k) (walsh k x) (walsh k y) * (scale * scale) := by
      rw [dot, dot, sum_mul]
      exact sum_congr rfl fun i _ => by ring
    rw [both, dot_walsh]
    calc 2 ^ k * dot (2 ^ k) x y * (scale * scale) = scale * scale * 2 ^ k * dot (2 ^ k) x y := by
          ring
      _ = dot (2 ^ k) x y := by rw [unit, one_mul]
  · rw [walsh_congr same]

end VecFetch.Theory
