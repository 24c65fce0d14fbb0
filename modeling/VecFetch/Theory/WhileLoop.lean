/-
# Theory.WhileLoop -- loops that may fault

A body may fault, and a loop may go on for ever.  It ends where an invariant keeps its turns
from faulting and something decreases (`whileLoop_ends`), and it never ends where an invariant
keeps its guard true (`whileLoop_never`).
-/
import Mathlib.Data.Nat.Notation
import Mathlib.Tactic.Common

namespace VecFetch.Theory

set_option autoImplicit false

variable {S : Type}

/-- `while (guard s) s = body s`, for at most `fuel` turns; `none` if a turn faults or one
more is needed. -/
def whileLoop (guard : S → Bool) (body : S → Option S) : ℕ → S → Option S
  | 0, s => if guard s then none else some s
  | fuel + 1, s => if guard s then (body s).bind (whileLoop guard body fuel) else some s

variable {guard : S → Bool} {body : S → Option S} (Inv : S → Prop)

/-- The loop ends, and in a state of the invariant. -/
theorem whileLoop_ends (measure : S → ℕ)
    (turn : ∀ s, Inv s → guard s = true →
      ∃ s', body s = some s' ∧ Inv s' ∧ measure s' < measure s)
    {fuel : ℕ} {s : S} (start : Inv s) (enough : measure s ≤ fuel) :
    ∃ t, whileLoop guard body fuel s = some t ∧ Inv t ∧ guard t = false := by
  induction fuel generalizing s with
  | zero =>
      cases going : guard s with
      | false => exact ⟨s, if_neg (by simp [going]), start, going⟩
      | true =>
          obtain ⟨s', -, -, less⟩ := turn s start going
          omega
  | succ fuel ih =>
      cases going : guard s with
      | false => exact ⟨s, if_neg (by simp [going]), start, going⟩
      | true =>
          obtain ⟨s', turned, kept, less⟩ := turn s start going
          rw [whileLoop, if_pos going, turned]
          exact ih kept (by omega)

/-- A loop over an index that grows, and not beyond `n`. -/
theorem whileLoop_upTo (index : S → ℕ) {n : ℕ}
    (turn : ∀ s, Inv s → guard s = true →
      ∃ s', body s = some s' ∧ Inv s' ∧ index s < index s' ∧ index s' ≤ n)
    {s : S} (start : Inv s) :
    ∃ t, whileLoop guard body n s = some t ∧ Inv t ∧ guard t = false := by
  refine whileLoop_ends Inv (fun s => n - index s) ?_ start (Nat.sub_le _ _)
  intro s held going
  obtain ⟨s', turned, kept, grows, inside⟩ := turn s held going
  exact ⟨s', turned, kept, by omega⟩

/-- A guard that stays true. -/
theorem whileLoop_never (going : ∀ s, Inv s → guard s = true)
    (turn : ∀ s s', Inv s → body s = some s' → Inv s') (fuel : ℕ) {s : S} (start : Inv s) :
    whileLoop guard body fuel s = none := by
  induction fuel generalizing s with
  | zero => rw [whileLoop, if_pos (going s start)]
  | succ fuel ih =>
      rw [whileLoop, if_pos (going s start)]
      cases turned : body s with
      | none => rfl
      | some s' => exact ih (turn s s' start turned)

end VecFetch.Theory
