/-
# Theory.Fill -- loops that fill a table stretch by stretch

A step fills its stretch of a table if it writes the marked cells there and keeps all other
cells (`Fills`).  Nested loops over equal stretches fill their union (`Fills.foldl`), so a
loop nest that lays out blocks is known by what its innermost step writes.
-/
import Mathlib.Data.Nat.Notation
import Mathlib.Tactic.Common
import Mathlib.Algebra.Ring.Nat
import Mathlib.Tactic.Ring

namespace VecFetch.Theory

set_option autoImplicit false

variable {V : Type}

/-- The step writes `value` to the marked cells from `lo` to `hi`, and keeps all others. -/
def Fills (writes : ℕ → Prop) (value : ℕ → V) (lo hi : ℕ) (step : (ℕ → V) → ℕ → V) : Prop :=
  ∀ table t, (lo ≤ t → t < hi → writes t → step table t = value t) ∧
    (¬ (lo ≤ t ∧ t < hi ∧ writes t) → step table t = table t)

namespace Fills

variable {writes : ℕ → Prop} {value : ℕ → V} {lo : ℕ}

/-- A step over no stretch, or one that marks nothing. -/
theorem none {hi : ℕ} (unmarked : ∀ t, lo ≤ t → t < hi → ¬ writes t) :
    Fills writes value lo hi fun table => table :=
  fun _ t => ⟨fun above below marked => absurd marked (unmarked t above below), fun _ => rfl⟩

theorem comp {mid hi : ℕ} {first second : (ℕ → V) → ℕ → V}
    (ascending : lo ≤ mid) (ascending' : mid ≤ hi)
    (fills : Fills writes value lo mid first) (fills' : Fills writes value mid hi second) :
    Fills writes value lo hi fun table => second (first table) := by
  intro table t
  dsimp only
  refine ⟨fun above below marked => ?_, fun outside => ?_⟩
  · by_cases later : mid ≤ t
    · exact (fills' (first table) t).1 later below marked
    · rw [(fills' (first table) t).2 fun inside => later inside.1]
      exact (fills table t).1 above (by omega) marked
  · rw [(fills' (first table) t).2 fun inside => outside ⟨by omega, inside.2.1, inside.2.2⟩]
    exact (fills table t).2 fun inside => outside ⟨inside.1, by omega, inside.2.2⟩

variable (lo) in
/-- **A loop over equal stretches fills them all.** -/
theorem foldl (n width : ℕ) (body : ℕ → (ℕ → V) → ℕ → V)
    (each : ∀ k, k < n → Fills writes value (lo + k * width) (lo + (k + 1) * width) (body k)) :
    Fills writes value lo (lo + n * width) fun table =>
      (List.range n).foldl (fun table k => body k table) table := by
  induction n with
  | zero =>
      refine Fills.none fun t above below => ?_
      omega
  | succ n ih =>
      have before := ih fun k below => each k (by omega)
      have next := each n (Nat.lt_succ_self n)
      have both := before.comp (Nat.le_add_right _ _) (by
        have : (n + 1) * width = n * width + width := by ring
        omega) next
      intro table t
      dsimp only
      rw [List.range_succ, List.foldl_append]
      exact both table t

end Fills

end VecFetch.Theory
