/-
# Theory.Table -- what the rows of a table hold

A table's rows may each hold a thing or nothing.  Rewriting one row changes the count
of a held thing by what the old and the new row hold, and by nothing else.
-/
import Mathlib.Data.List.Basic
import Mathlib.Data.List.Count

namespace VecFetch.Theory

set_option autoImplicit false

variable {R A : Type} (holds : R → Option A)

/-- The things the rows hold, in row order. -/
def held (rows : List R) : List A := rows.filterMap holds

theorem mem_held {rows : List R} {a : A} :
    a ∈ held holds rows ↔ ∃ row ∈ rows, holds row = some a := by
  rw [held, List.mem_filterMap]

variable [BEq A]

theorem count_held_cons (a : A) (row : R) (rows : List R) :
    (held holds (row :: rows)).count a = (holds row).toList.count a + (held holds rows).count a := by
  unfold held
  cases same : holds row with
  | none => rw [List.filterMap_cons_none same]; simp
  | some b =>
      rw [List.filterMap_cons_some same, ← List.singleton_append, List.count_append]
      rfl

theorem count_held_append (a : A) (rows more : List R) :
    (held holds (rows ++ more)).count a =
      (held holds rows).count a + (held holds more).count a := by
  rw [held, List.filterMap_append, List.count_append]
  rfl

/-- **Rewriting one row.** -/
theorem count_held_set {rows : List R} {i : Nat} {old : R} (at_i : rows[i]? = some old)
    (new : R) (a : A) :
    (held holds (rows.set i new)).count a + (holds old).toList.count a =
      (held holds rows).count a + (holds new).toList.count a := by
  induction rows generalizing i with
  | nil => simp at at_i
  | cons row rows ih =>
      cases i with
      | zero =>
          simp only [List.getElem?_cons_zero, Option.some.injEq] at at_i
          subst at_i
          rw [List.set_cons_zero, count_held_cons, count_held_cons]
          omega
      | succ i =>
          rw [List.getElem?_cons_succ] at at_i
          rw [List.set_cons_succ, count_held_cons, count_held_cons]
          have rest := ih at_i
          omega

/-- A row that holds something counts. -/
theorem count_held_pos [LawfulBEq A] {rows : List R} {row : R} {a : A} (mem : row ∈ rows)
    (holding : holds row = some a) : 0 < (held holds rows).count a :=
  List.count_pos_iff.2 ((mem_held holds).2 ⟨row, mem, holding⟩)

end VecFetch.Theory
