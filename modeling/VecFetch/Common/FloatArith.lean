/-
# Common.FloatArith -- float code over any arithmetic

Code whose control flow rests on float comparisons is written over a type with the
operations it uses.  Nothing is assumed of them: what holds for every such type holds
for IEEE floats, whatever they round to.  `FloatArith.exact` is exact arithmetic.
-/
import Mathlib.Algebra.Field.Defs
import Mathlib.Order.Lattice
import Mathlib.Data.Int.Cast.Basic
import Mathlib.Data.Rat.Cast.Order

namespace VecFetch

set_option autoImplicit false

/-- The float operations of the query path. -/
class FloatArith (F : Type) extends Add F, Sub F, Mul F, Div F, Neg F where
  lt : F → F → Bool
  ofInt : ℤ → F
  abs : F → F
  /-- `a * b + c`, rounded once. -/
  fmadd : F → F → F → F

namespace FloatArith

variable {F : Type} [FloatArith F]

/-- `std::max`. -/
def stdMax (a b : F) : F := if lt a b then b else a

/-- `_mm512_max_ps` and `_mm256_max_ps`, lane by lane. -/
def simdMax (a b : F) : F := if lt b a then a else b

/-- `std::min`. -/
def stdMin (a b : F) : F := if lt b a then b else a

/-- `a * b - c`, rounded once. -/
def fmsub (a b c : F) : F := fmadd a b (-c)

/-- `c - a * b`, rounded once. -/
def fnmadd (a b c : F) : F := fmadd (-a) b c

/-- Exact arithmetic. -/
@[reducible] def exact (K : Type) [Field K] [LinearOrder K] : FloatArith K where
  lt a b := decide (a < b)
  ofInt n := n
  abs a := if a < 0 then -a else a
  fmadd a b c := a * b + c

end FloatArith

/-- A literal of the source, exactly. -/
def lit {K : Type} [Field K] (q : ℚ) : K := (q : K)

theorem lit_pos {K : Type} [Field K] [LinearOrder K] [IsStrictOrderedRing K] {q : ℚ}
    (positive : 0 < q) : 0 < (lit q : K) := Rat.cast_pos.2 positive

end VecFetch
