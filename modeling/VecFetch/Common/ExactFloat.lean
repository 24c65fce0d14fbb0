/-
# Common.ExactFloat -- float types whose finite values are exact

A float type is exact on its finite values if they are numbers of a field and the operations
give what they give there (`ExactOn`).  Infinities and NaN are left open, so thresholds may
be infinite.  Exact arithmetic itself is exact, and so is `Flt`.
-/
import VecFetch.Common.FloatArith
import VecFetch.Common.Flt
import Mathlib.Algebra.Order.Field.Rat
import Mathlib.Tactic.Ring

namespace VecFetch

set_option autoImplicit false

/-- `fin` embeds the finite values, on which the operations are exact. -/
structure ExactOn {K F : Type} [Field K] [LinearOrder K] [FloatArith F] (fin : K → F) : Prop where
  add : ∀ a b, fin a + fin b = fin (a + b)
  sub : ∀ a b, fin a - fin b = fin (a - b)
  mul : ∀ a b, fin a * fin b = fin (a * b)
  neg : ∀ a, -fin a = fin (-a)
  div : ∀ a b, b ≠ 0 → fin a / fin b = fin (a / b)
  lt : ∀ a b, FloatArith.lt (fin a) (fin b) = decide (a < b)
  ofInt : ∀ n : ℤ, (FloatArith.ofInt n : F) = fin n
  abs : ∀ a, FloatArith.abs (fin a) = fin (if a < 0 then -a else a)
  fmadd : ∀ a b c, FloatArith.fmadd (fin a) (fin b) (fin c) = fin (a * b + c)

namespace ExactOn

section Lifted

variable {K F : Type} [Field K] [LinearOrder K] [FloatArith F] {fin : K → F} (exact : ExactOn fin)

include exact

theorem fmsub (a b c : K) : FloatArith.fmsub (fin a) (fin b) (fin c) = fin (a * b - c) := by
  rw [FloatArith.fmsub, exact.neg, exact.fmadd, sub_eq_add_neg]

theorem fnmadd (a b c : K) : FloatArith.fnmadd (fin a) (fin b) (fin c) = fin (c - a * b) := by
  rw [FloatArith.fnmadd, exact.neg, exact.fmadd]
  congr 1
  ring

theorem stdMax (a b : K) : FloatArith.stdMax (fin a) (fin b) = fin (max a b) := by
  rw [FloatArith.stdMax, exact.lt]
  by_cases below : a < b
  · rw [decide_eq_true below, if_pos rfl, max_eq_right below.le]
  · rw [decide_eq_false below, if_neg Bool.false_ne_true, max_eq_left (not_lt.1 below)]

/-- On finite values both maxima are the maximum. -/
theorem simdMax (a b : K) : FloatArith.simdMax (fin a) (fin b) = fin (max a b) := by
  rw [FloatArith.simdMax, exact.lt]
  by_cases below : b < a
  · rw [decide_eq_true below, if_pos rfl, max_eq_left below.le]
  · rw [decide_eq_false below, if_neg Bool.false_ne_true, max_eq_right (not_lt.1 below)]

end Lifted

end ExactOn

/-- Exact arithmetic is exact. -/
theorem exactOn_exact (K : Type) [Field K] [LinearOrder K] :
    @ExactOn K K _ _ (FloatArith.exact K) id :=
  letI := FloatArith.exact K
  { add := fun _ _ => rfl
    sub := fun _ _ => rfl
    mul := fun _ _ => rfl
    neg := fun _ => rfl
    div := fun _ _ _ => rfl
    lt := fun _ _ => rfl
    ofInt := fun _ => rfl
    abs := fun _ => rfl
    fmadd := fun _ _ _ => rfl }

/-! ## `Flt` -/

namespace Flt

/-- The infinity of a sign. -/
def inf (negative : Bool) : Flt := if negative then .negInf else .posInf

/-- The sign of a value that is not NaN. -/
def negative : Flt → Bool
  | .negInf => true
  | .fin q => decide (q < 0)
  | _ => false

def mul : Flt → Flt → Flt
  | .nan, _ => .nan
  | _, .nan => .nan
  | .fin a, .fin b => .fin (a * b)
  | a, b => if a = .fin 0 ∨ b = .fin 0 then .nan else inf (xor a.negative b.negative)

/-- Zero counts as positive. -/
def div : Flt → Flt → Flt
  | .nan, _ => .nan
  | _, .nan => .nan
  | .fin a, .fin b =>
      if b ≠ 0 then .fin (a / b) else if a = 0 then .nan else inf (decide (a < 0))
  | .fin _, _ => .fin 0
  | a, .fin b => inf (xor a.negative (decide (b < 0)))
  | _, _ => .nan

def abs : Flt → Flt
  | .negInf => .posInf
  | .fin a => .fin (if a < 0 then -a else a)
  | a => a

instance : FloatArith Flt where
  add := add
  sub := sub
  mul := mul
  div := div
  neg := neg
  lt := lt
  ofInt n := .fin n
  abs := abs
  fmadd a b c := add (mul a b) c

/-- The finite values of `Flt` are exact. -/
theorem exactOn : ExactOn Flt.fin where
  add _ _ := rfl
  sub := sub_fin
  mul _ _ := rfl
  neg _ := rfl
  div _ _ nonzero := if_pos nonzero
  lt _ _ := rfl
  ofInt _ := rfl
  abs _ := rfl
  fmadd _ _ _ := rfl

end Flt

end VecFetch
