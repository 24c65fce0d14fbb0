/-
# Common.Flt -- a float as exact arithmetic sees it

Estimates, margins, frontiers and rank keys are C++ `float`s.  `Flt` keeps what
the control flow can tell apart -- NaN, the two infinities, a finite value -- and
makes the finite values exact rationals.  Comparisons are IEEE comparisons: every
comparison with a NaN is false.
-/
import Mathlib.Data.Rat.Defs
import Mathlib.Algebra.Order.Ring.Rat

namespace VecFetch

set_option autoImplicit false

inductive Flt where
  | nan
  | negInf
  | fin (q : ℚ)
  | posInf
  deriving DecidableEq

namespace Flt

/-- `std::isfinite`. -/
def isFinite : Flt → Bool
  | .fin _ => true
  | _ => false

/-- `a < b`. -/
def lt : Flt → Flt → Bool
  | .fin a, .fin b => decide (a < b)
  | .negInf, .fin _ => true
  | .negInf, .posInf => true
  | .fin _, .posInf => true
  | _, _ => false

/-- `a <= b`. -/
def le : Flt → Flt → Bool
  | .nan, _ => false
  | _, .nan => false
  | a, b => !(lt b a)

def add : Flt → Flt → Flt
  | .nan, _ => .nan
  | _, .nan => .nan
  | .fin a, .fin b => .fin (a + b)
  | .posInf, .negInf => .nan
  | .negInf, .posInf => .nan
  | .posInf, _ => .posInf
  | _, .posInf => .posInf
  | .negInf, _ => .negInf
  | _, .negInf => .negInf

def neg : Flt → Flt
  | .nan => .nan
  | .negInf => .posInf
  | .fin a => .fin (-a)
  | .posInf => .negInf

def sub (a b : Flt) : Flt := add a (neg b)

@[simp] theorem isFinite_fin (q : ℚ) : (fin q).isFinite = true := rfl
@[simp] theorem isFinite_posInf : posInf.isFinite = false := rfl
@[simp] theorem isFinite_negInf : negInf.isFinite = false := rfl
@[simp] theorem isFinite_nan : nan.isFinite = false := rfl
@[simp] theorem lt_fin (a b : ℚ) : lt (fin a) (fin b) = decide (a < b) := rfl
@[simp] theorem lt_fin_posInf (a : ℚ) : lt (fin a) posInf = true := rfl
@[simp] theorem posInf_lt (b : Flt) : lt posInf b = false := by cases b <;> rfl
@[simp] theorem add_fin (a b : ℚ) : add (fin a) (fin b) = fin (a + b) := rfl
@[simp] theorem posInf_add_fin (b : ℚ) : add posInf (fin b) = posInf := rfl
@[simp] theorem sub_fin (a b : ℚ) : sub (fin a) (fin b) = fin (a - b) := by
  simp only [sub, neg, add_fin, sub_eq_add_neg]

/-- Away from NaN the comparison is a strict weak order. -/
theorem lt_asymm {a b : Flt} (below : lt a b = true) : lt b a = false := by
  cases a <;> cases b <;> simp_all [lt, le_of_lt]

theorem lt_negTrans {a b c : Flt} (number : b ≠ nan) (first : lt a b = false)
    (second : lt b c = false) : lt a c = false := by
  cases a <;> cases b <;> cases c <;> simp_all [lt]
  exact le_trans second first

end Flt

end VecFetch
