/-
# Theory.KSmallest -- dropping what `k` kept elements are strictly below

A pruning is sound for the `k` smallest if every element it drops has `k` kept
elements strictly below it: the `k` smallest of what is kept are then the `k`
smallest of everything.
-/
import Mathlib.Data.List.Sort

namespace VecFetch.Theory

set_option autoImplicit false

variable {α : Type} [LinearOrder α]

/-- The `k` smallest elements, ascending. -/
def kSmallest (k : Nat) (l : List α) : List α := (l.mergeSort (· ≤ ·)).take k

theorem mergeSort_pairwise (l : List α) : (l.mergeSort (· ≤ ·)).Pairwise (· ≤ ·) := by
  have := @List.pairwise_mergeSort α (fun a b => decide (a ≤ b))
    (fun a b c ab bc => by
      simp only [decide_eq_true_eq] at ab bc ⊢
      exact ab.trans bc)
    (fun a b => by simpa using le_total a b) l
  exact this.imp fun h => by simpa using h

theorem kSmallest_perm {k : Nat} {l l' : List α} (perm : l.Perm l') :
    kSmallest k l = kSmallest k l' := by
  have : (l.mergeSort (· ≤ ·)) = l'.mergeSort (· ≤ ·) :=
    ((l.mergeSort_perm _).trans (perm.trans (l'.mergeSort_perm _).symm)).eq_of_pairwise
      (fun _ _ _ _ h h' => le_antisymm h h') (mergeSort_pairwise l) (mergeSort_pairwise l')
  rw [kSmallest, kSmallest, this]

/-- No more are taken than there are. -/
theorem kSmallest_min (k : Nat) (l : List α) : kSmallest (min k l.length) l = kSmallest k l := by
  rw [kSmallest, kSmallest, List.take_eq_take_iff, List.length_mergeSort]
  omega

/-- In an ascending list, if `k` elements are below `d` then the first `k` are. -/
theorem take_below {k : Nat} {s : List α} (sorted : s.Pairwise (· ≤ ·)) {d : α}
    (many : k ≤ s.countP (· < d)) : ∀ x ∈ s.take k, x < d := by
  intro x mem
  by_contra notBelow
  have parts : s.Pairwise (· ≤ ·) := sorted
  rw [← List.take_append_drop k s, List.pairwise_append] at parts
  have noneLater : (s.drop k).countP (· < d) = 0 := by
    rw [List.countP_eq_zero]
    intro y inDrop
    have := parts.2.2 x mem y inDrop
    simpa using (not_lt.1 notBelow).trans this
  have fewer : (s.take k).countP (· < d) < (s.take k).length := by
    refine lt_of_le_of_ne List.countP_le_length fun all => notBelow ?_
    simpa using List.countP_eq_length.1 all x mem
  have split : s.countP (· < d) = (s.take k).countP (· < d) + (s.drop k).countP (· < d) := by
    rw [← List.countP_append, List.take_append_drop]
  have := List.length_take_le k s
  omega

/-- **Sound pruning.**  Dropping elements that have `k` kept elements strictly below
them does not change the `k` smallest. -/
theorem kSmallest_append_of_below {k : Nat} {kept dropped : List α}
    (below : ∀ d ∈ dropped, k ≤ kept.countP (· < d)) :
    kSmallest k (kept ++ dropped) = kSmallest k kept := by
  set s := kept.mergeSort (· ≤ ·) with hs
  have sPerm : s.Perm kept := kept.mergeSort_perm _
  have sSorted : s.Pairwise (· ≤ ·) := mergeSort_pairwise kept
  have belowS : ∀ d ∈ dropped, k ≤ s.countP (· < d) := fun d mem => by
    rw [sPerm.countP_eq]
    exact below d mem
  set rest := (s.drop k ++ dropped).mergeSort (· ≤ ·)
  have restPerm : rest.Perm (s.drop k ++ dropped) := List.mergeSort_perm _ _
  have restSorted : rest.Pairwise (· ≤ ·) := mergeSort_pairwise _
  have whole : (s.take k ++ rest).Pairwise (· ≤ ·) := by
    refine List.pairwise_append.2 ⟨sSorted.sublist (List.take_sublist k s), restSorted, ?_⟩
    intro x inTake y inRest
    rcases List.mem_append.1 (restPerm.subset inRest) with inDrop | inDropped
    · rw [← List.take_append_drop k s, List.pairwise_append] at sSorted
      exact sSorted.2.2 x inTake y inDrop
    · exact (take_below sSorted (belowS y inDropped) x inTake).le
  have perm : ((kept ++ dropped).mergeSort (· ≤ ·)).Perm (s.take k ++ rest) :=
    calc (kept ++ dropped).mergeSort (· ≤ ·)
      _ |>.Perm (kept ++ dropped) := List.mergeSort_perm _ _
      _ |>.Perm (s.take k ++ s.drop k ++ dropped) := by
          rw [List.take_append_drop]
          exact sPerm.symm.append_right dropped
      _ |>.Perm (s.take k ++ rest) := by
          rw [List.append_assoc]
          exact restPerm.symm.append_left _
  have sorted : (kept ++ dropped).mergeSort (· ≤ ·) = s.take k ++ rest :=
    perm.eq_of_pairwise (fun _ _ _ _ h h' => le_antisymm h h') (mergeSort_pairwise _) whole
  rw [kSmallest, kSmallest, sorted, ← hs]
  by_cases long : k ≤ s.length
  · rw [List.take_append_of_le_length (by rw [List.length_take, min_eq_left long]),
      List.take_take, min_self]
  · -- fewer than `k` kept: nothing was dropped
    have noDropped : dropped = [] := by
      cases dropped with
      | nil => rfl
      | cons d rest =>
          have := belowS d List.mem_cons_self
          have := List.countP_le_length (p := (· < d)) (l := s)
          omega
    have noRest : rest = [] := by
      have := restPerm.length_eq
      rw [noDropped, List.drop_of_length_le (by omega)] at this
      exact List.eq_nil_of_length_eq_zero this
    rw [noRest, List.append_nil, List.take_take, min_self]

end VecFetch.Theory
